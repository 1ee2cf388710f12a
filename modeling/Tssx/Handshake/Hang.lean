import Tssx.Handshake.Life
import Tssx.Sockets

/-!
# Set-ups that hang

`accept` waits for the byte of the client and `connect` for the number of the server, and a call
that fails leaves its socket open: none of the errors of `_setup_tssx` closes it.  Nor does
`check_tssx_usage` ask the other side, so that one of the two may wait for a message that the other,
which does not use TSSX, never sends.

`setup_hangs_iff`: a set-up is over after 12 steps at most, and as long as nobody shuts the socket
down it hangs for this reason only.  The two calls never wait for each other.
-/

namespace Tssx

/-- After `real_accept` and `real_connect`. -/
def Handshake.begin (segments : Nat → Option Segment) (bridge : Side → Bridge) (fd : Side → Int)
    (descriptors : Int → Bool) : Handshake :=
  { Handshake.init segments bridge fd descriptors with server := .usage, client := .usage }

/-- Not a failure of the socket, and not its end. -/
def HandshakeAction.faultless : HandshakeAction → Bool
  | .send .error | .synchronize .error | .receive .error _ | .acknowledge .error
  | .shutdown _ => false
  | _ => true

/-- No call goes on unless the socket fails. -/
def Handshake.quiet (s : Handshake) : Prop :=
  ∀ a : HandshakeAction, a.faultless = true → handshakeStep s a = none

def ServerPc.ended : ServerPc → Bool
  | .returned _ => true
  | _ => false

def ClientPc.ended : ClientPc → Bool
  | .returned _ | .exited => true
  | _ => false

def Handshake.ended (s : Handshake) : Side → Bool
  | .server => s.server.ended
  | .client => s.client.ended

def ServerPc.waits : ServerPc → Bool
  | .synchronize _ => true
  | _ => false

/-- The next step of a side is the read of the message of the other. -/
def Handshake.waits (s : Handshake) : Side → Bool
  | .server => s.server.waits
  | .client => s.client = .receive

/-- The number has not been read. -/
def ClientPc.unread : ClientPc → Bool
  | .connect | .usage | .options | .receive => true
  | _ => false

/-! ### The number of steps -/

def ServerPc.stepsLeft : ServerPc → Nat
  | .accept => 7
  | .usage => 6
  | .options => 5
  | .create => 4
  | .send _ => 3
  | .synchronize _ => 2
  | .insert _ => 1
  | .returned _ => 0

def ClientPc.stepsLeft : ClientPc → Nat
  | .connect => 7
  | .usage => 6
  | .options => 5
  | .receive => 4
  | .attach _ => 3
  | .acknowledge _ => 2
  | .insert _ => 1
  | .returned _ | .exited => 0

section Steps

variable {s t : Handshake} {a : HandshakeAction}

theorem AcceptStep.less (h : AcceptStep s a t) : t.server.stepsLeft < s.server.stepsLeft := by
  cases h with
  | usage hpc =>
    rw [hpc]
    dsimp only
    split
    · exact Nat.succ_pos 5
    · split
      · exact Nat.succ_pos 5
      · exact Nat.lt_succ_self 5
  | refused hpc | accepted hpc | options hpc | created hpc | notCreated hpc | sent hpc | notSent hpc
  | synchronized hpc | notSynchronized hpc | insert hpc =>
    rw [hpc]
    simp [ServerPc.stepsLeft]

theorem ConnectStep.less (h : ConnectStep s a t) : t.client.stepsLeft < s.client.stepsLeft := by
  cases h with
  | connect hpc =>
    rw [hpc]
    dsimp only
    split
    · exact Nat.lt_succ_self 6
    · exact Nat.succ_pos 6
  | usage hpc =>
    rw [hpc]
    dsimp only
    split
    · exact Nat.succ_pos 5
    · split
      · exact Nat.succ_pos 5
      · exact Nat.lt_succ_self 5
  | received hpc =>
    rw [hpc]
    dsimp only
    split
    · exact Nat.succ_pos 3
    · exact Nat.lt_succ_self 3
  | options hpc | notReceived hpc | attached hpc | exited hpc | notAttached hpc | acknowledged hpc
  | notAcknowledged hpc | insert hpc =>
    rw [hpc]
    simp [ClientPc.stepsLeft]

/-- The steps of both sides until both calls are over. -/
def Handshake.stepsLeft (s : Handshake) : Nat := s.server.stepsLeft + s.client.stepsLeft

theorem handshakeStep_less (hs : handshakeStep s a = some t) (hopen : ∀ side, a ≠ .shutdown side) :
    t.stepsLeft < s.stepsLeft := by
  unfold handshakeStep at hs
  split at hs
  · exact absurd rfl (hopen _)
  · unfold Handshake.stepsLeft
    rcases Option.or_eq_some_iff.mp hs with hs | ⟨-, hs⟩
    · have hless := (acceptStep hs).less
      rw [(acceptStep hs).frame.1]
      omega
    · have hless := (connectStep hs).less
      rw [(connectStep hs).frame.1]
      omega

theorem run_stepsLeft {as : List HandshakeAction} (hopen : ∀ a ∈ as, ∀ side, a ≠ .shutdown side)
    (hrun : Run.run handshakeStep s as = some t) : as.length + t.stepsLeft ≤ s.stepsLeft := by
  induction as generalizing s with
  | nil =>
    obtain rfl := Option.some.inj hrun
    exact (Nat.zero_add _).le
  | cons a as ih =>
    obtain ⟨m, hm, hrest⟩ := Run.run_cons.mp hrun
    have hless := handshakeStep_less hm (hopen a List.mem_cons_self)
    have htail := ih (fun b hb => hopen b (List.mem_cons_of_mem a hb)) hrest
    rw [List.length_cons]
    omega

end Steps

/-! ### The invariant -/

structure SetUpInv (s : Handshake) : Prop where
  bridge : ∀ side, BridgeInv (s.bridge side)
  free : ∀ side, s.ended side = false → s.session side = some {}
  opened : ∀ side, s.closed side = false
  accepted : s.server ≠ .accept
  unread : s.client.unread = true →
    s.consumed .client = 0 ∧ (s.server.waits = true → s.stream .client ≠ [])
  unsynchronized : s.server.unsynchronized = true → s.consumed .server = 0

theorem setUpInv_begin {segments : Nat → Option Segment} {bridge : Side → Bridge}
    {fd : Side → Int} {descriptors : Int → Bool} (hb : ∀ side, BridgeInv (bridge side))
    (hfree : ∀ side, (bridge side).sessionTable.sessions[sizeT (fd side)]? = some {}) :
    SetUpInv (.begin segments bridge fd descriptors) where
  bridge := hb
  free := fun side _ => hfree side
  opened := fun _ => rfl
  accepted := fun h => by cases h
  unread := fun _ => ⟨rfl, fun h => by cases h⟩
  unsynchronized := fun _ => rfl

namespace SetUpInv

variable {s t : Handshake} {a : HandshakeAction}

theorem lookup (h : SetUpInv s) {side : Side} (hrunning : s.ended side = false) :
    ∃ bridge, bridgeLookup (s.bridge side) (s.fd side) = some (bridge, {}) := by
  obtain ⟨bridge, hsetup⟩ := Option.isSome_iff_exists.mp (lazyBridgeSetup_isSome (h.bridge side))
  obtain ⟨-, -, htable⟩ := lazyBridgeSetup_spec (h.bridge side) hsetup
  have hget : sessionTableGet bridge.sessionTable (sizeT (s.fd side)) = some {} := by
    rw [htable]
    exact h.free side hrunning
  exact ⟨bridge, by rw [bridgeLookup, hsetup, Option.bind_some, hget, Option.map_some]⟩

theorem insertable (h : SetUpInv s) {side : Side} (hrunning : s.ended side = false)
    (session : Session) :
    ∃ bridge, bridgeInsert (s.bridge side) (s.fd side) session = some bridge := by
  obtain ⟨bridge, hsetup⟩ := Option.isSome_iff_exists.mp (lazyBridgeSetup_isSome (h.bridge side))
  obtain ⟨-, -, htable⟩ := lazyBridgeSetup_spec (h.bridge side) hsetup
  have hget : bridge.sessionTable.sessions[sizeT (s.fd side)]? = some {} := by
    rw [htable]
    exact h.free side hrunning
  rw [bridgeInsert, hsetup, Option.bind_some, sessionTableAssign, if_pos hget, Option.map_some]
  exact ⟨_, rfl⟩

theorem server (h : SetUpInv s) (pc : ServerPc) (hpc : pc ≠ .accept) (hwaits : pc.waits = false)
    (hended : pc.ended = false → s.server.ended = false)
    (hsync : pc.unsynchronized = true → s.server.unsynchronized = true) :
    SetUpInv { s with server := pc } where
  bridge := h.bridge
  free := by
    intro side hrunning
    cases side with
    | server => exact h.free .server (hended hrunning)
    | client => exact h.free .client hrunning
  opened := h.opened
  accepted := hpc
  unread := by
    intro hunread
    refine ⟨(h.unread hunread).1, fun hwaits' => ?_⟩
    cases hwaits.symm.trans hwaits'
  unsynchronized := fun hnew => h.unsynchronized (hsync hnew)

theorem client (h : SetUpInv s) (pc : ClientPc)
    (hended : pc.ended = false → s.client.ended = false)
    (hunread : pc.unread = true → s.client.unread = true) :
    SetUpInv { s with client := pc } where
  bridge := h.bridge
  free := by
    intro side hrunning
    cases side with
    | server => exact h.free .server hrunning
    | client => exact h.free .client (hended hrunning)
  opened := h.opened
  accepted := h.accepted
  unread := fun hnew => h.unread (hunread hnew)
  unsynchronized := h.unsynchronized

theorem setBridge (h : SetUpInv s) {side : Side} {bridge : Bridge} (hb : BridgeInv bridge)
    (hfree : s.ended side = false →
      bridge.sessionTable.sessions[sizeT (s.fd side)]? = some {}) :
    SetUpInv (s.setBridge side bridge) := by
  refine ⟨fun b => ?_, fun b hrunning => ?_, h.opened, h.accepted, h.unread, h.unsynchronized⟩
  · simp only [Handshake.setBridge]
    rcases Side.eq_or_eq_peer b side with rfl | rfl
    · rwa [Function.update_self]
    · rw [Function.update_of_ne side.peer_ne]
      exact h.bridge _
  · have hrunning' : s.ended b = false := by cases b <;> exact hrunning
    simp only [Handshake.session, Handshake.setBridge]
    rcases Side.eq_or_eq_peer b side with rfl | rfl
    · rw [Function.update_self]
      exact hfree hrunning'
    · rw [Function.update_of_ne side.peer_ne]
      exact h.free _ hrunning'

theorem setLookup (h : SetUpInv s) {side : Side} {bridge : Bridge} {session : Session}
    (hs : bridgeLookup (s.bridge side) (s.fd side) = some (bridge, session)) :
    SetUpInv (s.setBridge side bridge) := by
  obtain ⟨hb, htable, -⟩ := bridgeLookup_table (h.bridge side) hs
  refine h.setBridge hb fun hrunning => ?_
  rw [htable]
  exact h.free side hrunning

theorem acceptStep_inv (h : SetUpInv s) (hs : AcceptStep s a t) : SetUpInv t := by
  cases hs with
  | refused hpc | accepted hpc => exact absurd hpc h.accepted
  | usage hpc =>
    have hrunning : s.server.ended = false := by rw [hpc]; rfl
    have hunsent : s.server.unsynchronized = true := by rw [hpc]; rfl
    split
    · exact h.server _ (by simp) rfl (fun _ => hrunning) fun _ => hunsent
    · split <;> exact h.server _ (by simp) rfl (fun _ => hrunning) fun _ => hunsent
  | options hpc hlookup =>
    exact (h.setLookup hlookup).server .create (by simp) rfl
      (fun _ => show s.server.ended = false by rw [hpc]; rfl)
      (fun _ => show s.server.unsynchronized = true by rw [hpc]; rfl)
  | @created id hpc =>
    have hsend := h.server (.send id) (by simp) rfl (fun _ => by rw [hpc]; rfl)
      fun _ => by rw [hpc]; rfl
    exact { hsend with }
  | notCreated hpc =>
    exact h.server _ (by simp) rfl (fun _ => by rw [hpc]; rfl) fun _ => by rw [hpc]; rfl
  | sent hpc hn hle hopen =>
    refine ⟨h.bridge, fun side hrunning => ?_, h.opened, by simp, fun hunread => ?_, fun _ => ?_⟩
    · cases side with
      | server => exact h.free .server (show s.server.ended = false by rw [hpc]; rfl)
      | client => exact h.free .client hrunning
    · refine ⟨(h.unread hunread).1, fun _ => ?_⟩
      dsimp only
      rw [Function.update_self]
      intro hnil
      have hlen := congrArg List.length (List.append_eq_nil_iff.mp hnil).2
      rw [List.length_take, length_intBytes, List.length_nil] at hlen
      omega
    · exact h.unsynchronized (by rw [hpc]; rfl)
  | notSent hpc =>
    have herror := h.server (.returned ERROR) (by simp) rfl (fun hc => by cases hc)
      fun hc => by cases hc
    exact { herror with }
  | @synchronized id n hpc =>
    have hinsert := h.server (.insert id) (by simp) rfl (fun _ => by rw [hpc]; rfl)
      fun hc => by cases hc
    refine { hinsert with unread := fun hunread => ?_, unsynchronized := fun hc => by cases hc }
    refine ⟨?_, fun hc => by cases hc⟩
    dsimp only
    rw [Function.update_of_ne (by simp)]
    exact (h.unread hunread).1
  | notSynchronized hpc =>
    exact h.server _ (by simp) rfl (fun hc => by cases hc) fun hc => by cases hc
  | @insert id bridge hpc hinsert =>
    have hb := @bridgeInsert_spec _ _ _ _ 0 (h.bridge .server) hinsert
    have hdone := h.server (.returned (s.fd .server)) (by simp) rfl (fun hc => by cases hc)
      fun hc => by cases hc
    exact hdone.setBridge hb.1 fun hc => by cases hc

theorem connectStep_inv (h : SetUpInv s) (hs : ConnectStep s a t) : SetUpInv t := by
  cases hs with
  | connect hpc =>
    have hrunning : s.client.ended = false := by rw [hpc]; rfl
    have hunread : s.client.unread = true := by rw [hpc]; rfl
    exact h.client _ (fun _ => hrunning) fun _ => hunread
  | usage hpc =>
    have hrunning : s.client.ended = false := by rw [hpc]; rfl
    have hunread : s.client.unread = true := by rw [hpc]; rfl
    exact h.client _ (fun _ => hrunning) fun _ => hunread
  | options hpc hlookup =>
    exact (h.setLookup hlookup).client .receive
      (fun _ => show s.client.ended = false by rw [hpc]; rfl)
      (fun _ => show s.client.unread = true by rw [hpc]; rfl)
  | @received n garbage i hpc =>
    have hrunning : s.client.ended = false := by rw [hpc]; rfl
    have hread : ClientPc.unread (if i = ERROR then .returned ERROR else .attach i) = false := by
      split <;> rfl
    refine ⟨h.bridge, fun side hside => ?_, h.opened, h.accepted, fun hc => ?_, fun hsync => ?_⟩
    · cases side with
      | server => exact h.free .server hside
      | client => exact h.free .client hrunning
    · cases hread.symm.trans hc
    · dsimp only
      rw [Function.update_of_ne (by simp)]
      exact h.unsynchronized hsync
  | notReceived hpc | exited hpc | notAttached hpc | notAcknowledged hpc =>
    exact h.client _ (fun hc => by cases hc) fun hc => by cases hc
  | @attached i segment hpc =>
    have hacknowledge := h.client (.acknowledge i.toNat) (fun _ => by rw [hpc]; rfl)
      fun hc => by cases hc
    exact { hacknowledge with }
  | @acknowledged id n hpc =>
    have hinsert := h.client (.insert id) (fun _ => by rw [hpc]; rfl) fun hc => by cases hc
    exact { hinsert with unread := fun hc => by cases hc }
  | @insert id bridge hpc hinsert =>
    have hb := @bridgeInsert_spec _ _ _ _ 0 (h.bridge .client) hinsert
    have hdone := h.client (.returned SUCCESS) (fun hc => by cases hc) fun hc => by cases hc
    exact hdone.setBridge hb.1 fun hc => by cases hc

theorem step (h : SetUpInv s) (hs : handshakeStep s a = some t)
    (hopen : ∀ side, a ≠ .shutdown side) : SetUpInv t := by
  unfold handshakeStep at hs
  split at hs
  · exact absurd rfl (hopen _)
  · rcases Option.or_eq_some_iff.mp hs with hs | ⟨-, hs⟩
    · exact h.acceptStep_inv (acceptStep hs)
    · exact h.connectStep_inv (connectStep hs)

/-- A call that is not over, and does not wait for the other side, goes on. -/
theorem enabled (h : SetUpInv s) {side : Side} (hrunning : s.ended side = false)
    (hmessage : s.waits side = true → s.stream side ≠ []) :
    ∃ a : HandshakeAction, a.faultless = true ∧ (handshakeStep s a).isSome := by
  have hserver : ∀ a : HandshakeAction, a.faultless = true → (serverStep s a).isSome →
      ∃ a : HandshakeAction, a.faultless = true ∧ (handshakeStep s a).isSome := by
    intro a hfault hs
    refine ⟨a, hfault, ?_⟩
    unfold handshakeStep
    split
    · cases hfault
    · rw [Option.isSome_or, hs]
      rfl
  have hclient : ∀ a : HandshakeAction, a.faultless = true → (clientStep s a).isSome →
      ∃ a : HandshakeAction, a.faultless = true ∧ (handshakeStep s a).isSome := by
    intro a hfault hs
    refine ⟨a, hfault, ?_⟩
    unfold handshakeStep
    split
    · cases hfault
    · rw [Option.isSome_or, hs, Bool.or_true]
  have hread : ∀ size, 1 ≤ size → s.stream side ≠ [] → (s.read side size 1).isSome := by
    intro size hsize hne
    have hlen := List.length_pos_iff.mpr hne
    rw [Handshake.read, if_pos ⟨hsize, hlen, fun hzero => by cases hzero⟩]
    rfl
  have hwrite : ∀ bytes : List UInt8, 1 ≤ bytes.length → (s.write side bytes 1).isSome := by
    intro bytes hbytes
    rw [Handshake.write, if_pos ⟨le_rfl, hbytes, h.opened side⟩]
    rfl
  cases side with
  | server =>
    cases hpc : s.server with
    | accept => exact absurd hpc h.accepted
    | usage => exact hserver (.usage .server 0) rfl (by simp [serverStep, hpc])
    | options =>
      obtain ⟨bridge, hlookup⟩ := h.lookup hrunning
      exact hserver (.options .server) rfl (by simp [serverStep, hpc, hlookup])
    | create => exact hserver (.create false 0) rfl (by simp [serverStep, hpc, createSegment])
    | send id =>
      refine hserver (.send (.count 1)) rfl ?_
      simp only [serverStep, hpc, sendSegmentIdToClient, Option.isSome_map]
      exact hwrite _ (by simp)
    | synchronize id =>
      refine hserver (.synchronize (.count 1)) rfl ?_
      simp only [serverStep, hpc, synchronizeWithClient, Option.isSome_map]
      exact hread 1 le_rfl (hmessage (by rw [Handshake.waits, hpc]; rfl))
    | insert id =>
      obtain ⟨bridge, hinsert⟩ := h.insertable hrunning { connection := some id }
      exact hserver (.insert .server) rfl (by simp [serverStep, hpc, hinsert])
    | returned code =>
      rw [Handshake.ended, hpc] at hrunning
      cases hrunning
  | client =>
    cases hpc : s.client with
    | connect => exact hclient (.connect true) rfl (by simp [clientStep, hpc])
    | usage => exact hclient (.usage .client 0) rfl (by simp [clientStep, hpc])
    | options =>
      obtain ⟨bridge, hlookup⟩ := h.lookup hrunning
      exact hclient (.options .client) rfl (by simp [clientStep, hpc, hlookup])
    | receive =>
      refine hclient (.receive (.count 1) [0, 0, 0, 0]) rfl ?_
      simp only [clientStep, hpc, readSegmentIdFromServer, if_true, List.length_cons,
        List.length_nil, Option.isSome_map]
      exact hread 4 (by decide) (hmessage (by simp [Handshake.waits, hpc]))
    | attach i => exact hclient (.attach false) rfl (by simp [clientStep, hpc])
    | acknowledge id =>
      refine hclient (.acknowledge (.count 1)) rfl ?_
      simp only [clientStep, hpc, synchronizeWithServer, Option.isSome_map]
      exact hwrite _ (by decide)
    | insert id =>
      obtain ⟨bridge, hinsert⟩ := h.insertable hrunning { connection := some id }
      exact hclient (.insert .client) rfl (by simp [clientStep, hpc, hinsert])
    | returned code | exited =>
      rw [Handshake.ended, hpc] at hrunning
      cases hrunning

/-- In a quiet state a call that is not over waits for a message. -/
theorem quiet_waits (h : SetUpInv s) (hquiet : s.quiet) {side : Side}
    (hrunning : s.ended side = false) : s.waits side = true ∧ s.stream side = [] := by
  by_contra hnot
  obtain ⟨a, hfault, hs⟩ := h.enabled hrunning fun hwaits hnil => hnot ⟨hwaits, hnil⟩
  rw [hquiet a hfault] at hs
  cases hs

theorem not_both (h : SetUpInv s) (hserver : s.waits .server = true)
    (hclient : s.waits .client = true) : s.stream .client ≠ [] := by
  have hpc : s.client = .receive := of_decide_eq_true hclient
  exact (h.unread (by rw [hpc]; rfl)).2 hserver

theorem waits_unheard (h : SetUpInv s) {side : Side} (hwaits : s.waits side = true) :
    s.consumed side = 0 := by
  cases side with
  | server =>
    refine h.unsynchronized ?_
    cases hpc : s.server with
    | synchronize id => rfl
    | accept | usage | options | create | send | insert | returned =>
      rw [Handshake.waits, hpc] at hwaits
      cases hwaits
  | client =>
    have hpc : s.client = .receive := of_decide_eq_true hwaits
    exact (h.unread (by rw [hpc]; rfl)).1

theorem acceptStep_running (hs : AcceptStep s a t) : s.ended .server = false := by
  cases hs with
  | refused hpc | accepted hpc | usage hpc | options hpc | created hpc | notCreated hpc | sent hpc
  | notSent hpc | synchronized hpc | notSynchronized hpc | insert hpc =>
    rw [Handshake.ended, hpc]
    rfl

theorem connectStep_running (hs : ConnectStep s a t) : s.ended .client = false := by
  cases hs with
  | connect hpc | usage hpc | options hpc | received hpc | notReceived hpc | attached hpc
  | exited hpc | notAttached hpc | acknowledged hpc | notAcknowledged hpc | insert hpc =>
    rw [Handshake.ended, hpc]
    rfl

/-- A read that finds nothing while the socket is open fails, or does not return. -/
theorem acceptStep_waits (h : SetUpInv s) (hs : AcceptStep s a t) (hwaits : s.waits .server = true)
    (hempty : s.stream .server = []) : a.faultless = false := by
  cases hs with
  | refused hpc | accepted hpc | usage hpc | options hpc | created hpc | notCreated hpc | sent hpc
  | notSent hpc | insert hpc =>
    rw [Handshake.waits, hpc] at hwaits
    cases hwaits
  | synchronized _ _ hlen hend =>
    rw [hempty] at hlen
    have hclosed := (hend (Nat.le_zero.mp hlen)).2
    rw [h.opened .client] at hclosed
    cases hclosed
  | notSynchronized => rfl

theorem connectStep_waits (h : SetUpInv s) (hs : ConnectStep s a t)
    (hwaits : s.waits .client = true) (hempty : s.stream .client = []) : a.faultless = false := by
  have hreceive : s.client = .receive := of_decide_eq_true hwaits
  cases hs with
  | connect hpc | usage hpc | options hpc | attached hpc | exited hpc | notAttached hpc
  | acknowledged hpc | notAcknowledged hpc | insert hpc => cases hreceive.symm.trans hpc
  | received _ _ hlen hend =>
    rw [hempty] at hlen
    have hclosed := (hend (Nat.le_zero.mp hlen)).2
    rw [h.opened .server] at hclosed
    cases hclosed
  | notReceived => rfl

theorem quiet_of (h : SetUpInv s) (hall : ∀ side, s.ended side = true ∨
    s.waits side = true ∧ s.stream side = []) : s.quiet := by
  intro a hfault
  by_contra hne
  obtain ⟨t, ht⟩ := Option.ne_none_iff_exists'.mp hne
  unfold handshakeStep at ht
  split at ht
  · cases hfault
  · rcases Option.or_eq_some_iff.mp ht with ht | ⟨-, ht⟩
    · have hs := acceptStep ht
      rcases hall .server with hended | ⟨hwaits, hempty⟩
      · cases hended.symm.trans (acceptStep_running hs)
      · cases hfault.symm.trans (h.acceptStep_waits hs hwaits hempty)
    · have hs := connectStep ht
      rcases hall .client with hended | ⟨hwaits, hempty⟩
      · cases hended.symm.trans (connectStep_running hs)
      · cases hfault.symm.trans (h.connectStep_waits hs hwaits hempty)

theorem quiet_iff (h : SetUpInv s) : s.quiet ↔ (∀ side, s.ended side = true) ∨
    ∃ side, s.waits side = true ∧ s.ended side.peer = true ∧
      s.stream side = [] ∧ s.consumed side = 0 := by
  constructor
  · intro hquiet
    refine or_iff_not_imp_left.mpr fun hnot => ?_
    obtain ⟨side, hside⟩ := not_forall.mp hnot
    obtain ⟨hwaits, hempty⟩ := h.quiet_waits hquiet (Bool.not_eq_true _ |>.mp hside)
    refine ⟨side, hwaits, ?_, hempty, h.waits_unheard hwaits⟩
    by_contra hpeer
    obtain ⟨hwaits', hempty'⟩ := h.quiet_waits hquiet (Bool.not_eq_true _ |>.mp hpeer)
    cases side with
    | server => exact h.not_both hwaits hwaits' hempty'
    | client => exact h.not_both hwaits' hwaits hempty
  · rintro (hall | ⟨side, hwaits, hended, hempty, -⟩)
    · exact h.quiet_of fun side => .inl (hall side)
    · refine h.quiet_of fun b => ?_
      rcases Side.eq_or_eq_peer b side with rfl | rfl
      · exact .inr ⟨hwaits, hempty⟩
      · exact .inl hended

end SetUpInv

/-- **Which set-ups hang.**  While the socket stays open, `accept` and `connect` make 12 steps at
most, and none is left exactly if both have returned, or one of them has and the other waits for
its message, of which nothing has been sent. -/
theorem setup_hangs_iff {segments : Nat → Option Segment} {bridge : Side → Bridge}
    {fd : Side → Int} {descriptors : Int → Bool} {as : List HandshakeAction} {s : Handshake}
    (hb : ∀ side, BridgeInv (bridge side))
    (hfree : ∀ side, (bridge side).sessionTable.sessions[sizeT (fd side)]? = some {})
    (hopen : ∀ a ∈ as, ∀ side, a ≠ .shutdown side)
    (hrun : Run.run handshakeStep (.begin segments bridge fd descriptors) as = some s) :
    as.length ≤ 12 ∧ (s.quiet ↔ (∀ side, s.ended side = true) ∨
      ∃ side, s.waits side = true ∧ s.ended side.peer = true ∧
        s.stream side = [] ∧ s.consumed side = 0) := by
  have hleft := run_stepsLeft hopen hrun
  have htwelve : Handshake.stepsLeft (.begin segments bridge fd descriptors) = 12 := rfl
  have hinv : SetUpInv s := Run.meets_induct (C := fun _ a => ∀ side, a ≠ .shutdown side)
    (fun _ _ _ h hc hs => h.step hs hc) (setUpInv_begin hb hfree)
    (Run.meets_of_forall fun a ha _ => hopen a ha) hrun
  exact ⟨by omega, hinv.quiet_iff⟩

/-- A server that does not use TSSX, and a client that does. -/
theorem setup_hangs_without_server :
    ∃ s, Run.run handshakeStep
        (.begin (fun _ => none) (fun _ => .initial) (fun _ => 3) fun _ => true)
        [.usage .server 0, .usage .client 1, .options .client] = some s ∧
      s.server = .returned 3 ∧ s.quiet := by
  have hrun : (Run.run handshakeStep
      (.begin (fun _ => none) (fun _ => .initial) (fun _ => 3) fun _ => true)
      [.usage .server 0, .usage .client 1, .options .client]).any (fun s =>
        s.server = .returned 3 && s.waits .client && s.stream .client = [] &&
          s.consumed .client = 0) = true := by
    decide +kernel
  obtain ⟨s, hs, hp⟩ := Option.any_eq_true _ _ |>.mp hrun
  simp only [Bool.and_eq_true, decide_eq_true_eq] at hp
  obtain ⟨⟨⟨hserver, hwaits⟩, hempty⟩, hconsumed⟩ := hp
  refine ⟨s, hs, hserver, (setup_hangs_iff (fun _ => bridgeInv_initial) (fun _ => ?_) ?_ hs).2.mpr
    (.inr ⟨.client, hwaits, ?_, hempty, hconsumed⟩)⟩
  · decide +kernel
  · simp
  · show s.server.ended = true
    rw [hserver]
    rfl

end Tssx
