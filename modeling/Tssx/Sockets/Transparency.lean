import Tssx.Epoll.Lifetime
import Tssx.Sockets

/-!
# Descriptors without a connection

The library is loaded under every descriptor of the process, and most of them have nothing to
do with it.  `read`, `write`, `send`, `recv` and `close` of such a descriptor should be what
they are without the library.  `transparent_iff` says when they are: the descriptor has to be
in the tables, which the standard streams are not for `close`, and the flags of `send` and `recv`
must be others than none and `MSG_NOSIGNAL`.  With these two the calls become `write` and `read`,
which do not fail on a descriptor that is not a socket, and do not know the flag.
-/

namespace Tssx

/-- The calls on an arbitrary descriptor. -/
inductive BasicCall
  | read (destination size : Nat)
  | write (source size : Nat)
  | send (buffer length : Nat) (flags : CInt)
  | recv (buffer length : Nat) (flags : CInt)
  | close
  deriving DecidableEq

def Tables.serve (s : Tables) (result : Option (Bridge × Service)) : Option (Tables × Service) :=
  result.map fun (bridge, service) => ({ s with bridge }, service)

/-- The call of a program, the server's or the client's. -/
def libraryCall (side : Side) (s : Tables) (fd : CInt) : BasicCall → Option (Tables × Service)
  | .read destination size => s.serve (Sockets.read side s.bridge fd destination size)
  | .write source size => s.serve (Sockets.write side s.bridge fd source size)
  | .send buffer length flags => s.serve (Sockets.send side s.bridge fd buffer length flags)
  | .recv buffer length flags => s.serve (Sockets.recv side s.bridge fd buffer length flags)
  | .close => (close s fd).map fun s => (s, .real (.close fd))

/-- What a process does with the library, successfully or not. -/
inductive LibraryAction
  | setUp (fd : CInt)
  | control (epfd operation fd : CInt) (event : EpollEvent) (allocated : Bool) (real : CInt)
  | fork
  | call (fd : CInt) (call : BasicCall)

def libraryStep (side : Side) (s : Tables) : LibraryAction → Option Tables
  | .setUp fd => setUp s fd
  | .control epfd operation fd event allocated real =>
    (epollCtl allocated real s epfd operation fd event).map Prod.snd
  | .fork => (bridgeAddUser s.memory s.bridge).map fun (memory, bridge) => { s with memory, bridge }
  | .call fd call => (libraryCall side s fd call).map Prod.fst

/-- The overridden function with the arguments of the call. -/
def Corresponds (fd : CInt) : BasicCall → RealCall → Prop
  | .read destination size, real => real = .read fd destination size
  | .write source size, real => real = .write fd source size
  | .send buffer length flags, real => real = .send fd buffer length flags
  | .recv buffer length flags, real => real = .recv fd buffer length flags
  | .close, real => real = .close fd

/-- The call is one of the overridden function, and leaves the tables alone. -/
def Transparent (side : Side) (s : Tables) (fd : CInt) (call : BasicCall) : Prop :=
  ∃ t service real, libraryCall side s fd call = some (t, service) ∧ service.calls = [real] ∧
    Corresponds fd call real ∧
      t.bridge.sessionTable.sessions = s.bridge.sessionTable.sessions ∧ t.epolls = s.epolls

/-- The descriptor is an index of the session table. -/
def InTable (fd : CInt) : Prop := 0 ≤ (fd : Int) ∧ (fd : Int) < SESSION_TABLE_SIZE

instance (fd : CInt) : Decidable (InTable fd) := inferInstanceAs (Decidable (_ ∧ _))

/-- When the library stays out of the way. -/
def Passes (s : Tables) (fd : CInt) : BasicCall → Prop
  | .read _ _ | .write _ _ => InTable fd
  | .send _ _ flags | .recv _ _ flags => (flags : Int) ≠ 0 ∧ (flags : Int) ≠ MSG_NOSIGNAL
  | .close => hasEpollInstanceAssociated s fd = some false

/-! ### Reachable tables -/

variable {side : Side} {s t : Tables} {fd : CInt}

theorem connectionTransfer_inv {ring : Nat → Service} {real : RealCall} {bridge bridge' : Bridge}
    {service : Service} {key : Int} (hb : BridgeInv bridge)
    (h : connectionTransfer ring real bridge key = some (bridge', service)) :
    BridgeInv bridge' := by
  obtain ⟨⟨middle, session⟩, hlookup, he⟩ := Option.map_eq_some_iff.mp h
  obtain ⟨rfl, -⟩ := Prod.mk.inj he
  exact (bridgeLookup_table hb hlookup).1

theorem serve_inv {result : Option (Bridge × Service)}
    {service : Service} (h : s.serve result = some (t, service))
    (hr : ∀ bridge service, result = some (bridge, service) → BridgeInv bridge) :
    BridgeInv t.bridge := by
  obtain ⟨⟨bridge, service⟩, hresult, he⟩ := Option.map_eq_some_iff.mp h
  obtain ⟨rfl, -⟩ := Prod.mk.inj he
  exact hr bridge service hresult

theorem close_inv (hb : BridgeInv s.bridge) {key : Int} (h : close s key = some t) :
    BridgeInv t.bridge := by
  obtain ⟨associated, -, h⟩ := Option.bind_eq_some_iff.mp h
  cases associated with
  | true =>
    simp only [if_true, closeEpollInstance] at h
    split at h
    · obtain rfl := Option.some.inj h
      exact hb
    · cases h
  | false =>
    obtain ⟨⟨memory, bridge⟩, herase, rfl⟩ := Option.map_eq_some_iff.mp h
    exact (@bridgeErase_spec _ _ _ _ _ 0 hb herase).1

theorem libraryCall_inv (hb : BridgeInv s.bridge) {call : BasicCall} {service : Service}
    (h : libraryCall side s fd call = some (t, service)) : BridgeInv t.bridge := by
  cases call with
  | read | write => exact serve_inv h fun _ _ hr => connectionTransfer_inv hb hr
  | send buffer length flags | recv buffer length flags =>
    refine serve_inv h fun bridge _ hr => ?_
    simp only [Sockets.send, Sockets.recv] at hr
    split at hr
    · exact connectionTransfer_inv hb hr
    · obtain ⟨rfl, -⟩ := Prod.mk.inj (Option.some.inj hr)
      exact hb
  | close =>
    obtain ⟨s', hclose, he⟩ := Option.map_eq_some_iff.mp h
    obtain ⟨rfl, -⟩ := Prod.mk.inj he
    exact close_inv hb hclose

theorem library_step (hb : BridgeInv s.bridge) {a : LibraryAction}
    (h : libraryStep side s a = some t) : BridgeInv t.bridge := by
  cases a with
  | setUp fd =>
    obtain ⟨bridge, hinsert, rfl⟩ := Option.map_eq_some_iff.mp h
    exact (@bridgeInsert_spec _ _ _ _ 0 hb hinsert).1
  | control epfd operation fd event allocated real =>
    obtain ⟨⟨code, t'⟩, hctl, rfl⟩ := Option.map_eq_some_iff.mp h
    unfold epollCtl at hctl
    split at hctl
    · obtain ⟨-, rfl⟩ := Prod.mk.inj (Option.some.inj hctl)
      exact hb
    · obtain ⟨⟨bridge, session⟩, hlookup, hctl⟩ := Option.bind_eq_some_iff.mp hctl
      dsimp only at hctl
      split at hctl
      · obtain ⟨_, -, he⟩ := Option.map_eq_some_iff.mp hctl
        obtain ⟨-, rfl⟩ := Prod.mk.inj he
        exact (bridgeLookup_table hb hlookup).1
      · cases hctl
  | fork =>
    obtain ⟨⟨memory, bridge⟩, hadd, rfl⟩ := Option.map_eq_some_iff.mp h
    exact (@bridgeAddUser_spec _ _ _ _ 0 hb hadd).1
  | call fd call =>
    obtain ⟨⟨t', service⟩, hcall, rfl⟩ := Option.map_eq_some_iff.mp h
    exact libraryCall_inv hb hcall

theorem bridgeInv_reaches (h : Run.Reaches (libraryStep side) .init s) : BridgeInv s.bridge :=
  h.induct (I := fun s => BridgeInv s.bridge) (fun _ _ _ hb hs => library_step hb hs)
    bridgeInv_initial

/-! ### One call -/

theorem not_transparent {call : BasicCall} (h : libraryCall side s fd call = none) :
    ¬ Transparent side s fd call := by
  rintro ⟨t, service, real, hcall, -⟩
  rw [h] at hcall
  cases hcall

theorem getElem?_free (hfd : s.connection fd = none) (hin : InTable fd) :
    s.bridge.sessionTable.sessions[sizeT fd]? = some {} := by
  have hlt : sizeT fd < s.bridge.sessionTable.sessions.length := by
    rw [s.bridge.sessionTable.size]
    exact (sizeT_lt_iff fd).mpr hin
  rw [Tables.connection, List.getElem?_eq_getElem hlt] at hfd
  rw [List.getElem?_eq_getElem hlt]
  generalize s.bridge.sessionTable.sessions[sizeT fd] = session at hfd ⊢
  obtain ⟨ref⟩ := session
  cases hfd
  rfl

/-- **A transfer without a connection** is the real one, or fails the assertion of the table. -/
theorem serve_transfer (hb : BridgeInv s.bridge) (hfd : s.connection fd = none)
    (ring : Nat → Service) (real : RealCall) :
    if InTable fd then ∃ t, s.serve (connectionTransfer ring real s.bridge fd) =
        some (t, .real real) ∧ t.bridge.sessionTable.sessions = s.bridge.sessionTable.sessions ∧
          t.epolls = s.epolls
    else s.serve (connectionTransfer ring real s.bridge fd) = none := by
  split
  · rename_i hin
    obtain ⟨bridge, hlookup, htable⟩ := bridgeLookup_eq_some hb (getElem?_free hfd hin)
    refine ⟨{ s with bridge }, ?_, congrArg SessionTable.sessions htable, rfl⟩
    simp [Tables.serve, connectionTransfer, hlookup]
  · rename_i hout
    simp [Tables.serve, connectionTransfer, bridgeLookup_eq_none hout]

theorem transparent_transfer (hb : BridgeInv s.bridge) (hfd : s.connection fd = none)
    {call : BasicCall} {ring : Nat → Service} {real : RealCall}
    (hcall : libraryCall side s fd call = s.serve (connectionTransfer ring real s.bridge fd)) :
    Transparent side s fd call ↔ InTable fd ∧ Corresponds fd call real := by
  have hserve := serve_transfer hb hfd ring real
  by_cases hin : InTable fd
  · rw [if_pos hin] at hserve
    obtain ⟨t, hserve, htable, hepolls⟩ := hserve
    constructor
    · rintro ⟨t', service, real', h, hcalls, hcorr, -⟩
      rw [hcall, hserve] at h
      obtain ⟨-, rfl⟩ := Prod.mk.inj (Option.some.inj h)
      obtain rfl : real = real' := by simpa [Service.calls] using hcalls
      exact ⟨hin, hcorr⟩
    · rintro ⟨-, hcorr⟩
      exact ⟨t, _, real, hcall.trans hserve, rfl, hcorr, htable, hepolls⟩
  · rw [if_neg hin] at hserve
    exact iff_of_false (not_transparent (hcall.trans hserve)) fun h => hin h.1

theorem transparent_real {call : BasicCall} {real : RealCall}
    (hcall : libraryCall side s fd call = some (s, .real real)) (hcorr : Corresponds fd call real) :
    Transparent side s fd call :=
  ⟨s, .real real, real, hcall, rfl, hcorr, rfl, rfl⟩

theorem ignoresFlags_iff {flags : Int} :
    ignoresFlags flags = true ↔ flags = 0 ∨ flags = MSG_NOSIGNAL := by
  simp [ignoresFlags]

/-- `send` and `recv`, with the call that they make when they ignore the flags. -/
theorem transparent_flags (hb : BridgeInv s.bridge) (hfd : s.connection fd = none)
    {call : BasicCall} {ring : Nat → Service} {forwarded real : RealCall} {flags : Int}
    (hcall : libraryCall side s fd call = s.serve
      (if ignoresFlags flags then connectionTransfer ring forwarded s.bridge fd
        else some (s.bridge, .real real)))
    (hreal : Corresponds fd call real) (hforwarded : ¬ Corresponds fd call forwarded) :
    Transparent side s fd call ↔ flags ≠ 0 ∧ flags ≠ MSG_NOSIGNAL := by
  rw [← not_or, ← ignoresFlags_iff]
  by_cases hflags : ignoresFlags flags = true
  · rw [if_pos hflags] at hcall
    rw [transparent_transfer hb hfd hcall]
    exact iff_of_false (fun h => hforwarded h.2) (not_not_intro hflags)
  · rw [if_neg hflags] at hcall
    exact iff_of_true (transparent_real hcall hreal) hflags

theorem bridgeErase_free (hb : BridgeInv s.bridge) (hfd : s.connection fd = none)
    (hin : InTable fd) : ∃ bridge, bridgeErase s.memory s.bridge fd = some (s.memory, bridge) ∧
      bridge.sessionTable.sessions = s.bridge.sessionTable.sessions := by
  have hget := getElem?_free hfd hin
  obtain ⟨middle, hsetup⟩ := Option.isSome_iff_exists.mp (lazyBridgeSetup_isSome hb)
  obtain ⟨-, -, htable⟩ := lazyBridgeSetup_spec hb hsetup
  refine ⟨{ middle with sessionTable := middle.sessionTable.set (sizeT fd) {} }, ?_, ?_⟩
  · rw [bridgeErase, hsetup]
    simp [sessionTableGet, htable, hget, sessionInvalidate, sessionHasConnection]
  · show (middle.sessionTable.set (sizeT fd) {}).sessions = _
    rw [htable, SessionTable.set_self hget]

theorem associated_bounds {fd : Int} {associated : Bool}
    (h : hasEpollInstanceAssociated s fd = some associated) :
    2 < fd ∧ fd < NUMBER_OF_EPOLL_INSTANCES ∧
      associated = decide (0 < int32 ((s.epolls fd.toNat).tssxCount +
        (s.epolls fd.toNat).normalCount)) := by
  unfold hasEpollInstanceAssociated epollInstanceSize at h
  split at h
  · split at h
    · rename_i hb
      exact ⟨hb.1, hb.2, (Option.some.inj h).symm⟩
    · cases h
  · cases h

/-- **`close` without a connection** is transparent if it does not take the descriptor for an
epoll instance. -/
theorem transparent_close (hb : BridgeInv s.bridge) (hfd : s.connection fd = none) :
    Transparent side s fd .close ↔ hasEpollInstanceAssociated s fd = some false := by
  cases hassoc : hasEpollInstanceAssociated s fd with
  | none =>
    exact iff_of_false (not_transparent (by simp [libraryCall, close, hassoc])) nofun
  | some associated =>
    obtain ⟨hlow, hhigh, hsize⟩ := associated_bounds hassoc
    cases associated with
    | true =>
      refine iff_of_false ?_ nofun
      rintro ⟨t, service, real, h, -, -, -, hepolls⟩
      have hbounds : 0 < (fd : Int) ∧ (fd : Int) < NUMBER_OF_EPOLL_INSTANCES :=
        ⟨by omega, hhigh⟩
      simp only [libraryCall, close, hassoc, Option.bind_some, if_true, closeEpollInstance,
        if_pos hbounds, Option.map_some, Option.some.injEq, Prod.mk.injEq] at h
      obtain ⟨rfl, -⟩ := h
      have hclosed : Function.update s.epolls _ (s.epolls (fd : Int).toNat).close _ = _ :=
        congrFun hepolls (fd : Int).toNat
      rw [Function.update_self] at hclosed
      rw [← hclosed] at hsize
      simp [EpollInstance.close, int32] at hsize
    | false =>
      refine iff_of_true ?_ rfl
      have hin : InTable fd := ⟨by omega, hhigh⟩
      obtain ⟨bridge, herase, htable⟩ := bridgeErase_free hb hfd hin
      refine ⟨{ s with bridge }, .real (.close fd), .close fd, ?_, rfl, rfl, htable, rfl⟩
      simp [libraryCall, close, hassoc, herase]

/-- **The library under other descriptors**: in every reachable state, a call on a descriptor
without a connection is transparent if and only if it passes. -/
theorem transparent_iff (h : Run.Reaches (libraryStep side) .init s)
    (hfd : s.connection fd = none) (call : BasicCall) :
    Transparent side s fd call ↔ Passes s fd call := by
  have hb := bridgeInv_reaches h
  cases call with
  | read | write => exact (transparent_transfer hb hfd rfl).trans (and_iff_left rfl)
  | send | recv =>
    refine transparent_flags hb hfd rfl rfl ?_
    simp [Corresponds]
  | close => exact transparent_close hb hfd

/-- `MSG_DONTWAIT` -/
private def dontWait : CInt := ⟨0x40, by decide⟩

/-- A process with one connection, on descriptor 5, uses descriptor 6. -/
theorem transparent_iff_at :
    ∃ s, Run.Reaches (libraryStep .client) .init s ∧
      Transparent .client s ⟨6, by decide⟩ (.read 0 4) ∧
      Transparent .client s ⟨6, by decide⟩ (.send 0 4 dontWait) ∧
      ¬ Transparent .client s ⟨6, by decide⟩ (.send 0 4 ⟨0, by decide⟩) := by
  have hrun : (Run.run (libraryStep .client) .init [.setUp ⟨5, by decide⟩]).any
      (fun s => s.connection 6 = none) = true := by decide +kernel
  obtain ⟨s, hs, hfd⟩ := (Option.any_eq_true _ _).mp hrun
  have h : ∀ call, Transparent .client s ⟨6, by decide⟩ call ↔ Passes s ⟨6, by decide⟩ call :=
    transparent_iff ⟨_, hs⟩ (of_decide_eq_true hfd)
  refine ⟨s, ⟨_, hs⟩, (h _).mpr ?_, (h _).mpr ?_, mt (h _).mp ?_⟩
  · exact ⟨by decide, by decide⟩
  · exact ⟨by decide, by decide⟩
  · exact fun hpasses => hpasses.1 rfl

/-- **A process that closes its standard input ends** with a failed assertion, and one that reads
from descriptor 1024 does too.  `send` without flags writes to a pipe, and `MSG_NOSIGNAL` is lost
on the way to an ordinary socket. -/
theorem standard_input_aborts :
    Run.Reaches (libraryStep .server) .init .init ∧ Tables.init.connection 0 = none ∧
      libraryCall .server .init ⟨0, by decide⟩ .close = none ∧
      ¬ Transparent .server .init ⟨0, by decide⟩ .close ∧
      libraryCall .server .init ⟨1024, by decide⟩ (.read 0 4) = none ∧
      (libraryCall .server .init ⟨6, by decide⟩ (.send 0 4 ⟨0, by decide⟩)).map Prod.snd =
        some (.real (.write 6 0 4)) ∧
      (libraryCall .server .init ⟨6, by decide⟩ (.send 0 4 ⟨MSG_NOSIGNAL, by decide⟩)).map
        Prod.snd = some (.real (.write 6 0 4)) := by
  have hnone : Tables.init.connection 0 = none := by decide +kernel
  have hclose : libraryCall .server .init ⟨0, by decide⟩ .close = none := by
    simp [libraryCall, close, hasEpollInstanceAssociated]
  have hsend : (libraryCall .server .init ⟨6, by decide⟩ (.send 0 4 ⟨0, by decide⟩)).map
      Prod.snd = some (.real (.write 6 0 4)) := by decide +kernel
  have hflag : (libraryCall .server .init ⟨6, by decide⟩ (.send 0 4 ⟨MSG_NOSIGNAL, by decide⟩)).map
      Prod.snd = some (.real (.write 6 0 4)) := by decide +kernel
  have hread : libraryCall .server .init ⟨1024, by decide⟩ (.read 0 4) = none := by
    have hlookup : bridgeLookup Tables.init.bridge 1024 = none :=
      @bridgeLookup_eq_none _ ⟨1024, by decide⟩ (by decide)
    simp only [libraryCall, Tables.serve, Sockets.read, connectionRead, connectionTransfer, hlookup,
      Option.map_none]
  exact ⟨.refl _, hnone, hclose, not_transparent hclose, hread, hsend, hflag⟩

end Tssx
