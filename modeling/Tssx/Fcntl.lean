import Mathlib.Logic.Function.Basic
import Tssx.Connection.Options
import Tssx.Lib.Flags
import Tssx.Lib.Run

/-!
# The blocking mode of a connection

`fcntl` of `common-overrides.c` with `set_non_blocking` and `is_non_blocking` of the two
programs, from the set-up of a connection on.  The mode of a side are two booleans in shared
memory, `non_blocking[WRITE]` of the buffer that it writes and `non_blocking[READ]` of the
other.

`fcntl_set` and `fcntl_get` treat `F_SETFD` and `F_GETFD` as they treat `F_SETFL` and
`F_GETFL`, and `setup_connection` does not look at the options of the client.
`blocking_mode_iff` says which runs do not notice.
-/

namespace Tssx

/-- An `int` of flags. -/
abbrev FlagBits := BitVec 32

def O_NONBLOCK : FlagBits := 0x800
def FD_CLOEXEC : FlagBits := 1

/-- What `F_SETFL` can change on Linux: `O_APPEND`, `O_NONBLOCK`, `O_ASYNC`, `O_DIRECT` and
`O_NOATIME`. -/
def SETFL_MASK : FlagBits := 0x400 ||| O_NONBLOCK ||| 0x2000 ||| 0x4000 ||| 0x40000

/-- The flags of a socket: the status flags of its file, and the one descriptor flag. -/
structure SocketFlags where
  status : FlagBits
  closeOnExec : Bool

/-- `F_SETFL` and `F_GETFL`, or `F_SETFD` and `F_GETFD`. -/
inductive FlagKind
  | status
  | descriptor
  deriving DecidableEq

def SocketFlags.descriptor (socket : SocketFlags) : FlagBits :=
  if socket.closeOnExec then FD_CLOEXEC else 0

def realFcntlSetFlags (socket : SocketFlags) (kind : FlagKind) (flags : FlagBits) : SocketFlags :=
  match kind with
  | .status =>
    { socket with status := socket.status &&& ~~~SETFL_MASK ||| flags &&& SETFL_MASK }
  | .descriptor => { socket with closeOnExec := Flags.has flags FD_CLOEXEC }

def realFcntlGetFlags (socket : SocketFlags) : FlagKind → FlagBits
  | .status => socket.status
  | .descriptor => socket.descriptor

/-- A finished `fcntl_get`, with the flags of the socket and the bit last established. -/
structure FlagReport where
  kind : FlagKind
  returned : FlagBits
  socket : SocketFlags
  established : Bool

structure FcntlState where
  socket : Side → SocketFlags
  /-- `timeouts.non_blocking` of the buffer that a side writes. -/
  nonBlocking : Side → Operation → Bool
  created : Bool
  /-- The side has made its `bridge_insert`. -/
  session : Side → Bool
  /-- The `O_NONBLOCK` bit of the socket of a side at its set-up, or of its last `F_SETFL`. -/
  established : Side → Bool
  reports : List FlagReport

/-! ### The two programs -/

def setNonBlocking (side : Side) (modes : Side → Operation → Bool) (nonBlocking : Bool) :
    Side → Operation → Bool :=
  match side with
  | .server => fun
    | .server, .write => nonBlocking
    | .client, .read => nonBlocking
    | buffer, operation => modes buffer operation
  | .client => fun
    | .server, .read => nonBlocking
    | .client, .write => nonBlocking
    | buffer, operation => modes buffer operation

/-- Both programs assert that the two booleans agree. -/
def isNonBlocking (side : Side) (modes : Side → Operation → Bool) : Option Bool :=
  match side with
  | .server =>
    if modes .server .write = modes .client .read then some (modes .server .write) else none
  | .client =>
    if modes .server .read = modes .client .write then some (modes .client .write) else none

/-! ### `fcntl` -/

def fcntlSet (s : FcntlState) (side : Side) (kind : FlagKind) (flags : FlagBits) : FcntlState :=
  let socket := realFcntlSetFlags (s.socket side) kind flags
  let s := { s with socket := Function.update s.socket side socket }
  if s.session side then
    { s with nonBlocking := setNonBlocking side s.nonBlocking (Flags.has flags O_NONBLOCK) }
  else s

def fcntlGet (s : FcntlState) (side : Side) (kind : FlagKind) : Option FlagBits :=
  let flags := realFcntlGetFlags (s.socket side) kind
  if s.session side then
    (isNonBlocking side s.nonBlocking).map fun nonBlocking =>
      let flags := flags &&& ~~~O_NONBLOCK
      if nonBlocking then flags ||| O_NONBLOCK else flags
  else some flags

def socketIsNonBlocking (s : FcntlState) (side : Side) : Option Bool :=
  (fcntlGet s side .status).map fun flags => Flags.has flags O_NONBLOCK

def unsetSocketNonBlocking (s : FcntlState) (side : Side) : Option FcntlState :=
  (fcntlGet s side .status).map fun flags => fcntlSet s side .status (flags &&& ~~~O_NONBLOCK)

/-! ### The set-up -/

/-- `options_from_socket` and `create_connection` in `_setup_tssx` of the server. -/
def createWithOptions (s : FcntlState) : Option FcntlState :=
  (socketIsNonBlocking s .server).map fun nonBlocking =>
    let options := optionsFromSocket nonBlocking .server
    { s with
      nonBlocking := fun side => (options.timeouts side).nonBlocking
      created := true
      established := Function.update s.established .server nonBlocking }

/-- `_synchronize_with_client` and `bridge_insert`. -/
def finishAccept (s : FcntlState) : Option FcntlState :=
  (unsetSocketNonBlocking s .server).map fun s =>
    { s with session := Function.update s.session .server true }

/-- `_setup_tssx` of the client: `setup_connection` takes the options and does not use them. -/
def finishConnect (s : FcntlState) : Option FcntlState :=
  (socketIsNonBlocking s .client).bind fun nonBlocking =>
    (unsetSocketNonBlocking s .client).map fun s =>
      { s with
        session := Function.update s.session .client true
        established := Function.update s.established .client nonBlocking }

inductive FcntlAction
  | create
  | accept
  | connect
  | set (side : Side) (kind : FlagKind) (flags : FlagBits)
  | get (side : Side) (kind : FlagKind)

def FcntlAction.side : FcntlAction → Side
  | .create | .accept => .server
  | .connect => .client
  | .set side _ _ | .get side _ => side

/-- The calls of the two sides; each makes its `fcntl` calls after its set-up. -/
def fcntlStep (s : FcntlState) : FcntlAction → Option FcntlState
  | .create => if s.created then none else createWithOptions s
  | .accept => if s.created ∧ s.session .server = false then finishAccept s else none
  | .connect => if s.created ∧ s.session .client = false then finishConnect s else none
  | .set side kind flags =>
    if s.session side then
      some { fcntlSet s side kind flags with
        established :=
          if kind = .status then
            Function.update s.established side (Flags.has flags O_NONBLOCK)
          else s.established }
    else none
  | .get side kind =>
    if s.session side then
      (fcntlGet s side kind).map fun returned =>
        { s with reports := s.reports ++
            [{ kind, returned, socket := s.socket side, established := s.established side }] }
    else none

/-- The processes before the set-up, with any flags. -/
def FcntlState.init (socket : Side → SocketFlags) (nonBlocking : Side → Operation → Bool) :
    FcntlState where
  socket := socket
  nonBlocking := nonBlocking
  created := false
  session := fun _ => false
  established := fun _ => false
  reports := []

/-! ### Tracking -/

/-- The mode of a side. -/
def FcntlState.mode (s : FcntlState) (side : Side) : Bool × Bool :=
  (s.nonBlocking side .write, s.nonBlocking side.peer .read)

/-- `F_GETFL` reports the bit, `F_GETFD` the descriptor flags. -/
def FlagReport.Exact (r : FlagReport) : Prop :=
  match r.kind with
  | .status => Flags.has r.returned O_NONBLOCK = r.established
  | .descriptor => r.returned = r.socket.descriptor

structure Tracked (s : FcntlState) : Prop where
  mode : ∀ side, s.session side = true → s.mode side = (s.established side, s.established side)
  reports : ∀ r ∈ s.reports, r.Exact
  separate : ∀ a t, fcntlStep s a = some t → ∀ side, s.session side = true → a.side ≠ side →
    t.mode side = s.mode side

/-- The socket of the client is blocking; an `F_SETFD` repeats the bit, and an `F_GETFD` is
made while it is not set. -/
def Unnoticed (s : FcntlState) : FcntlAction → Prop
  | .connect => Flags.has (s.socket .client).status O_NONBLOCK = false
  | .set side .descriptor flags => Flags.has flags O_NONBLOCK = s.established side
  | .get side .descriptor => s.established side = false
  | _ => True

instance (s : FcntlState) : ∀ a, Decidable (Unnoticed s a)
  | .connect => inferInstanceAs (Decidable (Flags.has (s.socket .client).status O_NONBLOCK = false))
  | .set side .descriptor flags =>
    inferInstanceAs (Decidable (Flags.has flags O_NONBLOCK = s.established side))
  | .get side .descriptor => inferInstanceAs (Decidable (s.established side = false))
  | .create | .accept | .set _ .status _ | .get _ .status => inferInstanceAs (Decidable True)

/-! ### The modes of the two sides -/

section Modes

variable {modes : Side → Operation → Bool} {side : Side} {nonBlocking : Bool}

theorem isNonBlocking_eq (h : modes side .write = modes side.peer .read) :
    isNonBlocking side modes = some (modes side .write) := by
  cases side with
  | server => exact if_pos h
  | client => exact if_pos h.symm

theorem setNonBlocking_own :
    setNonBlocking side modes nonBlocking side .write = nonBlocking ∧
      setNonBlocking side modes nonBlocking side.peer .read = nonBlocking := by
  cases side <;> exact ⟨rfl, rfl⟩

/-- **The mode of the other side stays as it is.** -/
theorem setNonBlocking_peer :
    setNonBlocking side modes nonBlocking side.peer .write = modes side.peer .write ∧
      setNonBlocking side modes nonBlocking side .read = modes side .read := by
  cases side <;> exact ⟨rfl, rfl⟩

theorem optionsFromSocket_server (nonBlocking : Bool) (side : Side) (operation : Operation) :
    ((optionsFromSocket nonBlocking .server).timeouts side).nonBlocking operation =
      if (side = .server ↔ operation = .write) then nonBlocking else false := by
  cases side <;> cases operation <;> rfl

end Modes

section Calls

variable {s t : FcntlState} {side : Side}

theorem fcntlGet_session (hs : s.session side = true)
    (h : s.nonBlocking side .write = s.nonBlocking side.peer .read) (kind : FlagKind) :
    fcntlGet s side kind = some
      (if s.nonBlocking side .write then
        realFcntlGetFlags (s.socket side) kind &&& ~~~O_NONBLOCK ||| O_NONBLOCK
      else realFcntlGetFlags (s.socket side) kind &&& ~~~O_NONBLOCK) := by
  rw [fcntlGet, if_pos hs, isNonBlocking_eq h]
  rfl

theorem socketIsNonBlocking_eq (hs : s.session side = false) :
    socketIsNonBlocking s side = some (Flags.has (s.socket side).status O_NONBLOCK) := by
  rw [socketIsNonBlocking, fcntlGet, hs]
  rfl

/-- Before its session the set-up of a side changes the socket only. -/
theorem unsetSocketNonBlocking_eq (hs : s.session side = false) :
    ∃ socket, unsetSocketNonBlocking s side = some { s with socket } :=
  ⟨Function.update s.socket side (realFcntlSetFlags (s.socket side) .status
    ((s.socket side).status &&& ~~~O_NONBLOCK)),
    by simp [unsetSocketNonBlocking, fcntlGet, fcntlSet, realFcntlGetFlags, hs]⟩

end Calls

/-! ### The invariant -/

/-- What every step keeps, whether or not the modes are those established. -/
structure FcntlInv (s : FcntlState) : Prop where
  created : ∀ side, s.session side = true → s.created = true
  agree : s.created = true → ∀ side, s.nonBlocking side .write = s.nonBlocking side.peer .read
  server : s.created = true → s.session .server = false →
    s.nonBlocking .server .write = s.established .server
  client : s.created = true → s.session .client = false → s.nonBlocking .client .write = false

theorem fcntlInv_init (socket : Side → SocketFlags) (nonBlocking : Side → Operation → Bool) :
    FcntlInv (.init socket nonBlocking) where
  created := by simp [FcntlState.init]
  agree := by simp [FcntlState.init]
  server := by simp [FcntlState.init]
  client := by simp [FcntlState.init]

namespace FcntlInv

variable {s t : FcntlState} {a : FcntlAction}

theorem mode_eq (h : FcntlInv s) (hc : s.created = true) (side : Side) :
    s.mode side = (s.nonBlocking side .write, s.nonBlocking side .write) := by
  rw [FcntlState.mode, ← h.agree hc side]

/-- **What a step can do.** -/
theorem step_cases (h : FcntlInv s) (hs : fcntlStep s a = some t) :
    (a = .create ∧ s.created = false ∧ t.created = true ∧ t.session = s.session ∧
      t.reports = s.reports ∧
      t.nonBlocking .server .write = t.established .server ∧
      t.nonBlocking .client .read = t.established .server ∧
      t.nonBlocking .client .write = false ∧ t.nonBlocking .server .read = false) ∨
    (a = .accept ∧ s.created = true ∧ s.session .server = false ∧
      ∃ socket, t = { s with socket, session := Function.update s.session .server true }) ∨
    (a = .connect ∧ s.created = true ∧ s.session .client = false ∧
      ∃ socket, t = { s with
        socket
        session := Function.update s.session .client true
        established := Function.update s.established .client
          (Flags.has (s.socket .client).status O_NONBLOCK) }) ∨
    (∃ side kind flags, a = .set side kind flags ∧ s.session side = true ∧
      ∃ socket, t = { s with
        socket
        nonBlocking := setNonBlocking side s.nonBlocking (Flags.has flags O_NONBLOCK)
        established :=
          if kind = .status then Function.update s.established side (Flags.has flags O_NONBLOCK)
          else s.established }) ∨
    ∃ side kind, a = .get side kind ∧ s.session side = true ∧ ∃ returned,
      fcntlGet s side kind = some returned ∧ t = { s with reports := s.reports ++
        [{ kind, returned, socket := s.socket side, established := s.established side }] } := by
  cases a with
  | create =>
    simp only [fcntlStep] at hs
    split at hs
    · cases hs
    · rename_i hc
      have hsession : s.session .server = false := by
        rw [← Bool.not_eq_true]
        exact fun hsession => hc (h.created _ hsession)
      rw [createWithOptions, socketIsNonBlocking_eq hsession] at hs
      obtain rfl := Option.some.inj hs
      refine .inl ⟨rfl, Bool.not_eq_true _ |>.mp hc, rfl, rfl, rfl, ?_⟩
      simp [optionsFromSocket_server]
  | accept =>
    simp only [fcntlStep] at hs
    split at hs
    · rename_i hc
      obtain ⟨socket, hunset⟩ := unsetSocketNonBlocking_eq hc.2
      rw [finishAccept, hunset] at hs
      obtain rfl := Option.some.inj hs
      exact .inr (.inl ⟨rfl, hc.1, hc.2, socket, rfl⟩)
    · cases hs
  | connect =>
    simp only [fcntlStep] at hs
    split at hs
    · rename_i hc
      obtain ⟨socket, hunset⟩ := unsetSocketNonBlocking_eq hc.2
      rw [finishConnect, socketIsNonBlocking_eq hc.2, Option.bind_some, hunset] at hs
      obtain rfl := Option.some.inj hs
      exact .inr (.inr (.inl ⟨rfl, hc.1, hc.2, socket, rfl⟩))
    · cases hs
  | set side kind flags =>
    simp only [fcntlStep] at hs
    split at hs
    · rename_i hsession
      obtain rfl := Option.some.inj hs
      refine .inr (.inr (.inr (.inl ⟨side, kind, flags, rfl, hsession,
        Function.update s.socket side (realFcntlSetFlags (s.socket side) kind flags), ?_⟩)))
      simp [fcntlSet, hsession]
    · cases hs
  | get side kind =>
    simp only [fcntlStep] at hs
    split at hs
    · rename_i hsession
      obtain ⟨returned, hget, rfl⟩ := Option.map_eq_some_iff.mp hs
      exact .inr (.inr (.inr (.inr ⟨side, kind, rfl, hsession, returned, hget, rfl⟩)))
    · cases hs

theorem setNonBlocking_agree {modes : Side → Operation → Bool} {nonBlocking : Bool}
    (h : ∀ b, modes b .write = modes b.peer .read) (side b : Side) :
    setNonBlocking side modes nonBlocking b .write =
      setNonBlocking side modes nonBlocking b.peer .read := by
  rcases Side.eq_or_eq_peer b side with rfl | rfl
  · rw [setNonBlocking_own.1, setNonBlocking_own.2]
  · rw [setNonBlocking_peer.1, h, Side.peer_peer, setNonBlocking_peer.2]

theorem fcntlStep_inv (h : FcntlInv s) (hs : fcntlStep s a = some t) : FcntlInv t := by
  rcases h.step_cases hs with ⟨-, hc, hc', hsession, -, hw, hr, hw', hr'⟩ |
    ⟨-, hc, hsession, socket, rfl⟩ | ⟨-, hc, hsession, socket, rfl⟩ |
    ⟨side, kind, flags, -, hsession, socket, rfl⟩ | ⟨side, kind, -, -, returned, -, rfl⟩
  · refine ⟨fun _ _ => hc', ?_, fun _ _ => hw, fun _ _ => hw'⟩
    intro _ side
    cases side with
    | server => exact hw.trans hr.symm
    | client => exact hw'.trans hr'.symm
  · refine ⟨fun _ _ => hc, h.agree, ?_, ?_⟩
    · intro _ hopen
      simp at hopen
    · intro _ hopen
      exact h.client hc (by simpa using hopen)
  · refine ⟨fun _ _ => hc, h.agree, ?_, ?_⟩
    · intro _ hopen
      simpa using h.server hc (by simpa using hopen)
    · intro _ hopen
      simp at hopen
  · have hc := h.created side hsession
    refine ⟨h.created, fun _ => setNonBlocking_agree (h.agree hc) side, ?_, ?_⟩
    · intro _ hopen
      cases side with
      | server => exact absurd hsession (by simpa using hopen)
      | client =>
        show s.nonBlocking .server .write = _
        rw [h.server hc hopen]
        dsimp only
        split <;> simp
    · intro _ hopen
      cases side with
      | server => exact h.client hc hopen
      | client => exact absurd hsession (by simpa using hopen)
  · exact ⟨h.created, h.agree, h.server, h.client⟩

theorem separate (h : FcntlInv s) (hs : fcntlStep s a = some t) {side : Side}
    (hsession : s.session side = true) (hne : a.side ≠ side) : t.mode side = s.mode side := by
  have hc := h.created side hsession
  rcases h.step_cases hs with ⟨-, hnew, -⟩ | ⟨-, -, -, socket, rfl⟩ | ⟨-, -, -, socket, rfl⟩ |
    ⟨b, kind, flags, rfl, -, socket, rfl⟩ | ⟨b, kind, -, -, returned, -, rfl⟩
  · rw [hnew] at hc
    cases hc
  · rfl
  · rfl
  · obtain rfl : side = b.peer := by
      rcases Side.eq_or_eq_peer side b with rfl | he
      · exact absurd rfl hne
      · exact he
    unfold FcntlState.mode
    dsimp only
    rw [setNonBlocking_peer.1, Side.peer_peer, setNonBlocking_peer.2]
  · rfl

theorem tracked_iff (h : FcntlInv s) : Tracked s ↔
    (∀ side, s.session side = true → s.nonBlocking side .write = s.established side) ∧
      ∀ r ∈ s.reports, r.Exact := by
  constructor
  · intro ht
    refine ⟨?_, ht.reports⟩
    intro side hsession
    exact congrArg Prod.fst (ht.mode side hsession)
  · rintro ⟨hmode, hreports⟩
    refine ⟨?_, hreports, fun a t hs side hsession hne => h.separate hs hsession hne⟩
    intro side hsession
    rw [h.mode_eq (h.created side hsession), hmode side hsession]

/-- `F_GETFL` and `F_GETFD` of a side whose mode is the bit established. -/
theorem report_exact_iff (h : FcntlInv s) {side : Side} (hsession : s.session side = true)
    (hmode : s.nonBlocking side .write = s.established side) {kind : FlagKind}
    {returned : FlagBits} (hget : fcntlGet s side kind = some returned) :
    FlagReport.Exact { kind, returned, socket := s.socket side
                       established := s.established side } ↔ Unnoticed s (.get side kind) := by
  rw [fcntlGet_session hsession (h.agree (h.created side hsession) side), hmode,
    Option.some.injEq] at hget
  subst hget
  cases kind with
  | status =>
    refine iff_of_true ?_ trivial
    show Flags.has _ O_NONBLOCK = s.established side
    cases s.established side with
    | false => exact Flags.has_clear ..
    | true => exact Flags.has_set _ (by decide)
  | descriptor =>
    have hclear : (s.socket side).descriptor &&& O_NONBLOCK = 0 := by
      unfold SocketFlags.descriptor
      split <;> rfl
    show _ = (s.socket side).descriptor ↔ s.established side = false
    cases s.established side with
    | false => exact iff_of_true (Flags.clear_eq hclear) rfl
    | true =>
      refine iff_of_false ?_ Bool.noConfusion
      intro he
      have hset : Flags.has (s.socket side).descriptor O_NONBLOCK = true := by
        rw [← he]
        exact Flags.has_set _ (by decide)
      rw [Flags.has, hclear] at hset
      cases hset

theorem tracked_step (h : FcntlInv s) (ht : Tracked s) (hs : fcntlStep s a = some t) :
    Tracked t ↔ Unnoticed s a := by
  obtain ⟨hmode, hreports⟩ := h.tracked_iff.mp ht
  rw [(h.fcntlStep_inv hs).tracked_iff]
  rcases h.step_cases hs with ⟨rfl, hc, -, hsession, hr, -⟩ |
    ⟨rfl, hc, hopen, socket, rfl⟩ | ⟨rfl, hc, hopen, socket, rfl⟩ |
    ⟨side, kind, flags, rfl, hsession, socket, rfl⟩ |
    ⟨side, kind, rfl, hsession, returned, hget, rfl⟩
  · refine iff_of_true ⟨?_, hr ▸ hreports⟩ trivial
    intro side hs'
    rw [hsession] at hs'
    rw [h.created side hs'] at hc
    cases hc
  · refine iff_of_true ⟨?_, hreports⟩ trivial
    intro side hs'
    cases side with
    | server => exact h.server hc hopen
    | client => exact hmode .client (by simpa using hs')
  · have hclient := h.client hc hopen
    constructor
    · intro hall
      have hbit : false = Flags.has (s.socket .client).status O_NONBLOCK := by
        simpa [hclient] using hall.1 .client (by simp)
      exact hbit.symm
    · intro hblocking
      refine ⟨?_, hreports⟩
      intro side hs'
      cases side with
      | server => simpa using hmode .server (by simpa using hs')
      | client =>
        have hbit : Flags.has (s.socket .client).status O_NONBLOCK = false := hblocking
        simpa [hbit] using hclient
  · cases kind with
    | status =>
      refine iff_of_true ⟨?_, hreports⟩ trivial
      intro b hb
      rcases Side.eq_or_eq_peer b side with rfl | rfl
      · simp [setNonBlocking_own.1]
      · simpa [setNonBlocking_peer.1, side.peer_ne] using hmode side.peer hb
    | descriptor =>
      constructor
      · intro hall
        exact setNonBlocking_own.1.symm.trans (hall.1 side hsession)
      · intro hbit
        refine ⟨?_, hreports⟩
        intro b hb
        rcases Side.eq_or_eq_peer b side with rfl | rfl
        · exact setNonBlocking_own.1.trans hbit
        · exact setNonBlocking_peer.1.trans (hmode side.peer hb)
  · rw [← h.report_exact_iff hsession (hmode side hsession) hget]
    constructor
    · intro hall
      exact hall.2 _ (List.mem_append_right _ List.mem_cons_self)
    · intro hexact
      refine ⟨hmode, ?_⟩
      intro r hr
      rcases List.mem_append.mp hr with hr | hr
      · exact hreports r hr
      · rw [List.mem_singleton.mp hr]
        exact hexact

end FcntlInv

/-- **The blocking mode is tracked** throughout exactly the runs in which the client connects
with a blocking socket, every `F_SETFD` repeats the bit and every `F_GETFD` finds it clear. -/
theorem blocking_mode_iff {socket : Side → SocketFlags} {nonBlocking : Side → Operation → Bool}
    {as : List FcntlAction} (h : (Run.run fcntlStep (.init socket nonBlocking) as).isSome) :
    (∀ t, Run.Visits fcntlStep (.init socket nonBlocking) as t → Tracked t) ↔
      Run.Meets fcntlStep Unnoticed (.init socket nonBlocking) as := by
  have hinv := fcntlInv_init socket nonBlocking
  have hstart : Tracked (.init socket nonBlocking) :=
    hinv.tracked_iff.mpr ⟨by simp [FcntlState.init], by simp [FcntlState.init]⟩
  exact Run.visits_iff_meets (fun _ _ _ hi _ hs => hi.fcntlStep_inv hs)
    (fun _ _ _ hi ht hs => hi.tracked_step ht hs) hinv hstart h

/-- Blocking sockets, and the set-up of both sides. -/
private def blocking : FcntlState :=
  .init (fun _ => { status := 2, closeOnExec := false }) fun _ _ => false

/-- The server sets the bit, asks for it, repeats it with `F_SETFD` and takes it away. -/
private def careful : List FcntlAction :=
  [.create, .connect, .accept, .set .server .status (2 ||| O_NONBLOCK), .get .server .status,
    .set .server .descriptor (FD_CLOEXEC ||| O_NONBLOCK), .set .server .status 2,
    .get .server .descriptor]

theorem blocking_mode_iff_at :
    (Run.run fcntlStep blocking careful).isSome ∧
      ∀ t, Run.Visits fcntlStep blocking careful t → Tracked t := by
  have hrun : (Run.run fcntlStep blocking careful).isSome := rfl
  exact ⟨hrun, (blocking_mode_iff hrun).mpr (by decide)⟩

/-- **Descriptor flags switch the mode**: a server that has made its socket non-blocking and
then sets `FD_CLOEXEC` is blocking again. -/
theorem blocking_mode_lost :
    ∃ t, Run.run fcntlStep blocking [.create, .connect, .accept,
        .set .server .status (2 ||| O_NONBLOCK), .set .server .descriptor FD_CLOEXEC] = some t ∧
      t.established .server = true ∧ t.nonBlocking .server .write = false ∧ ¬ Tracked t := by
  refine ⟨_, rfl, rfl, rfl, ?_⟩
  intro h
  exact absurd (h.mode .server rfl) (by decide)

end Tssx
