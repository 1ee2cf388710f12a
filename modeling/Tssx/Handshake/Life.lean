import Tssx.Connection.Ready
import Tssx.Handshake.Agreement
import Tssx.Handshake.Steps

/-!
# The life of a connection

The server's `accept` and the client's `connect`, and the calls that each process makes on its
descriptor from its return on: the server may begin while the client is still inside `connect`.
The calls of a side go to the connection that its session names, and find the `open_count` that
the handshake has left there.

`whole_life`: if the segment number is read whole and both calls return success, then the
connection is in a state that the two sides reach from `Sides.init`, the state after the handshake
of `Connection/Sides.lean`; so what holds of those states holds from the first call to the last.

`close` leaves the session in the table here: nothing looks it up afterwards.
-/

namespace Tssx

structure Life where
  handshake : Handshake
  /-- The connections on the machine, by the numbers of their segments. -/
  connections : Nat → Sides

inductive LifeAction
  | setUp (a : HandshakeAction)
  | call (a : SidesAction)

/-- The segment that a step creates. -/
def HandshakeAction.creates : HandshakeAction → Option Nat
  | .create true id => some id
  | _ => none

/-- `create_connection` initialises the buffers of the new segment. -/
def Life.setUp (s : Life) (buffer : Side → Buffer) (a : HandshakeAction) (handshake : Handshake) :
    Life where
  handshake
  connections :=
    match a.creates with
    | some id => Function.update s.connections id (.init buffer)
    | none => s.connections

/-- The connection `id`, with the segment that is there. -/
def Life.connection (s : Life) (id : Nat) : Option Sides :=
  (s.handshake.segments id).map fun segment => { s.connections id with segment }

def Life.setConnection (s : Life) (id : Nat) (sides : Sides) : Life where
  handshake := s.handshake.setSegment id sides.segment
  connections := Function.update s.connections id sides

instance (s : Handshake) (side : Side) : Decidable (s.succeeded side) :=
  match side with
  | .server =>
    match h : s.server with
    | .returned code => decidable_of_iff (code ≠ ERROR) (by simp [Handshake.succeeded, h])
    | .accept | .usage | .options | .create | .send _ | .synchronize _ | .insert _ =>
      isFalse (by simp [Handshake.succeeded, h])
  | .client =>
    match h : s.client with
    | .returned code => decidable_of_iff (code ≠ ERROR) (by simp [Handshake.succeeded, h])
    | .connect | .usage | .options | .receive | .attach _ | .acknowledge _ | .insert _ | .exited =>
      isFalse (by simp [Handshake.succeeded, h])

/-- The next step of either process. -/
def lifeStep (buffer : Side → Buffer) (s : Life) : LifeAction → Option Life
  | .setUp a => (handshakeStep s.handshake a).map (s.setUp buffer a)
  | .call a =>
    if s.handshake.succeeded a.side then
      (s.handshake.session a.side).bind fun session => session.connection.bind fun id =>
        (s.connection id).bind fun sides => (sidesStep sides a).map (s.setConnection id)
    else none

/-- A segment number is read whole. -/
def LifeAction.Whole : LifeAction → Prop
  | .setUp a => a.Whole
  | .call _ => True

/-! ### Set-ups that do not succeed -/

/-- The client has not written its byte, and has not failed. -/
def ClientPc.silent : ClientPc → Bool
  | .options | .receive | .attach _ | .acknowledge _ => true
  | _ => false

/-- One of the calls will not return success. -/
def Handshake.doomed (s : Handshake) : Prop :=
  s.client.failed = true ∨ s.server = .returned ERROR ∨
    s.closed .client = true ∧ s.client.silent = true

section Steps

variable {s t : Handshake} {a : HandshakeAction}

theorem AcceptStep.frame (h : AcceptStep s a t) :
    t.client = s.client ∧ t.closed = s.closed ∧ t.created = a.creates.or s.created := by
  cases h <;> exact ⟨rfl, rfl, rfl⟩

theorem ConnectStep.frame (h : ConnectStep s a t) :
    t.server = s.server ∧ t.closed = s.closed ∧ t.created = a.creates.or s.created := by
  cases h <;> exact ⟨rfl, rfl, rfl⟩

theorem handshakeStep_created (hs : handshakeStep s a = some t) :
    t.created = a.creates.or s.created := by
  unfold handshakeStep at hs
  split at hs
  · obtain rfl := Option.some.inj hs
    rfl
  · rcases Option.or_eq_some_iff.mp hs with hs | ⟨-, hs⟩
    · exact (acceptStep hs).frame.2.2
    · exact (connectStep hs).frame.2.2

/-- A client that has not written its byte goes on, fails or writes it. -/
theorem ConnectStep.silent (h : ConnectStep s a t) (hsilent : s.client.silent = true) :
    t.client.failed = true ∨ t.client.silent = true ∨
      s.closed .client = false ∧ t.client.acknowledged = true := by
  cases h with
  | connect hpc | usage hpc | insert hpc => rw [hpc] at hsilent; cases hsilent
  | options | attached => exact .inr (.inl rfl)
  | received =>
    dsimp only
    split
    · exact .inl rfl
    · exact .inr (.inl rfl)
  | notReceived | exited | notAttached | notAcknowledged => exact .inl rfl
  | acknowledged _ _ _ hopen => exact .inr (.inr ⟨hopen, rfl⟩)

theorem ConnectStep.running (h : ConnectStep s a t) : s.client.failed = false := by
  cases h with
  | connect hpc | usage hpc | options hpc | received hpc | notReceived hpc | attached hpc
  | exited hpc | notAttached hpc | acknowledged hpc | notAcknowledged hpc | insert hpc =>
    rw [hpc]
    rfl

theorem AcceptStep.running (h : AcceptStep s a t) : s.server ≠ .returned ERROR := by
  cases h with
  | refused hpc | accepted hpc | usage hpc | options hpc | created hpc | notCreated hpc | sent hpc
  | notSent hpc | synchronized hpc | notSynchronized hpc | insert hpc =>
    rw [hpc]
    simp

theorem Handshake.doomed.step (h : s.doomed) (hs : handshakeStep s a = some t) : t.doomed := by
  unfold handshakeStep at hs
  split at hs
  · obtain rfl := Option.some.inj hs
    refine h.imp_right (Or.imp_right fun hclosed => ⟨?_, hclosed.2⟩)
    simp [Function.update_apply, hclosed.1]
  · rcases Option.or_eq_some_iff.mp hs with hs | ⟨-, hs⟩
    · have hmove := acceptStep hs
      obtain ⟨hclient, hclosed, -⟩ := hmove.frame
      rcases h with hfailed | herror | hshut
      · exact .inl (hclient ▸ hfailed)
      · exact absurd herror hmove.running
      · exact .inr (.inr (by rwa [hclosed, hclient]))
    · have hmove := connectStep hs
      obtain ⟨hserver, hclosed, -⟩ := hmove.frame
      rcases h with hfailed | herror | ⟨hshut, hsilent⟩
      · rw [hmove.running] at hfailed
        cases hfailed
      · exact .inr (.inl (hserver.trans herror))
      · rcases hmove.silent hsilent with hfailed | hsilent | ⟨hopen, -⟩
        · exact .inl hfailed
        · exact .inr (.inr ⟨hclosed ▸ hshut, hsilent⟩)
        · rw [hshut] at hopen
          cases hopen

theorem Handshake.doomed.fails (h : s.doomed) : ¬∀ side, s.succeeded side := by
  intro hboth
  obtain ⟨code, hclient, hne⟩ := hboth .client
  obtain ⟨code', hserver, hne'⟩ := hboth .server
  rcases h with hfailed | herror | ⟨-, hsilent⟩
  · rw [hclient] at hfailed
    exact hne (of_decide_eq_true hfailed)
  · rw [hserver] at herror
    exact hne' (ServerPc.returned.inj herror)
  · rw [hclient] at hsilent
    cases hsilent

end Steps

/-! ### The invariant -/

/-- The handshake, with the segment as it was when the client wrote its byte. -/
def Life.restored (s : Life) : Handshake :=
  match s.handshake.created with
  | some id =>
    if s.handshake.client.acknowledged then s.handshake.setSegment id { openCount := 2 }
    else s.handshake
  | none => s.handshake

/-- Both calls may still return success. -/
structure Alive (buffer : Side → Buffer) (s : Life) : Prop where
  handshake : HandshakeInv s.restored
  /-- The buffers are as `create_connection` has left them until the client has written its byte. -/
  fresh : ∀ id, s.handshake.created = some id → s.handshake.client.acknowledged = false →
    s.connections id = .init buffer
  /-- From then on the two sides go on from there. -/
  begun : s.handshake.client.acknowledged = true → ∃ id, s.handshake.created = some id ∧
    Run.Reaches sidesStep (.init buffer) (s.connections id) ∧
      s.handshake.segments id = some (s.connections id).segment

section Alive

variable {buffer : Side → Buffer} {s t : Life} {h : Handshake} {a : HandshakeAction}

theorem restored_unacknowledged (hack : s.handshake.client.acknowledged = false) :
    s.restored = s.handshake := by
  unfold Life.restored
  split
  · rw [hack]
    rfl
  · rfl

theorem restored_acknowledged {id : Nat} (hcreated : s.handshake.created = some id)
    (hack : s.handshake.client.acknowledged = true) :
    s.restored = s.handshake.setSegment id { openCount := 2 } := by
  simp only [Life.restored, hcreated, if_pos hack]

/-- A client that has written its byte knows the number of the server. -/
theorem HandshakeInv.acknowledged_created {u : Handshake} (hu : HandshakeInv u)
    (hack : u.client.acknowledged = true) :
    u.server.unsent = false ∧ ∃ id, u.created = some id ∧ u.client.users = 2 := by
  have hclient := hu.client
  unfold ClientOk at hclient
  refine ⟨?_, ?_⟩
  · by_contra hunsent
    have hreceived := (hu.unsent (Bool.not_eq_false _ |>.mp hunsent)).2
    cases hpc : u.client <;> simp_all [ClientPc.acknowledged, ClientPc.received]
  · cases hpc : u.client with
    | insert id =>
      rw [hpc] at hclient
      exact ⟨id, hclient.2, rfl⟩
    | returned code =>
      rw [hpc] at hclient hack
      obtain ⟨-, id, hcreated, -⟩ := hclient (of_decide_eq_true hack)
      exact ⟨id, hcreated, if_pos hack⟩
    | connect | usage | options | receive | attach | acknowledge | exited =>
      rw [hpc] at hack
      cases hack

theorem Alive.setUp_unacknowledged (hs : Alive buffer s) (hw : a.Whole)
    (hstep : handshakeStep s.handshake a = some h) (hdoomed : ¬h.doomed)
    (hack : s.handshake.client.acknowledged = false) : Alive buffer (s.setUp buffer a h) := by
  have hinv : HandshakeInv s.handshake := by
    rw [← restored_unacknowledged hack]
    exact hs.handshake
  have hnext := hinv.handshakeStep_inv hw hstep
  have hcreated := handshakeStep_created hstep
  have hfresh : ∀ id, h.created = some id → (s.setUp buffer a h).connections id = .init buffer := by
    intro id hid
    simp only [Life.setUp]
    cases hcreates : a.creates with
    | some id' =>
      rw [hcreates, Option.some_or] at hcreated
      obtain rfl := Option.some.inj (hcreated.symm.trans hid)
      exact Function.update_self ..
    | none =>
      rw [hcreates, Option.none_or] at hcreated
      exact hs.fresh id (hcreated ▸ hid) hack
  cases hack' : h.client.acknowledged with
  | false =>
    refine ⟨?_, fun id hid _ => hfresh id hid, fun htrue => ?_⟩
    · rw [restored_unacknowledged hack']
      exact hnext
    · cases hack'.symm.trans htrue
  | true =>
    -- the step that writes the byte
    obtain ⟨-, id, hid, husers⟩ := hnext.acknowledged_created hack'
    have hserver : h.server ≠ .returned ERROR := fun herror => hdoomed (.inr (.inl herror))
    have hfailed : h.client.failed = false :=
      Bool.not_eq_true _ |>.mp fun hfailed => hdoomed (.inl hfailed)
    have hsegment := hnext.counted id hid hserver hfailed
    rw [husers] at hsegment
    refine ⟨?_, fun _ _ hfalse => ?_, fun _ => ⟨id, hid, ?_, ?_⟩⟩
    · rw [@restored_acknowledged (s.setUp buffer a h) id hid hack']
      show HandshakeInv (h.setSegment id { openCount := 2 })
      rw [Handshake.setSegment, ← hsegment, Function.update_eq_self]
      exact hnext
    · cases hack'.symm.trans hfalse
    · rw [hfresh id hid]
      exact .refl _
    · rw [hfresh id hid]
      exact hsegment

/-- The steps that can be left when the client has written its byte. -/
def HandshakeAction.late : HandshakeAction → Bool
  | .shutdown _ | .synchronize _ | .insert _ => true
  | _ => false

theorem late_setSegment {u v : Handshake} (hlate : a.late = true) (hs : handshakeStep u a = some v)
    (id : Nat) (segment : Segment) : v.segments = u.segments ∧
      handshakeStep (u.setSegment id segment) a = some (v.setSegment id segment) := by
  unfold handshakeStep at hs
  split at hs
  · obtain rfl := Option.some.inj hs
    exact ⟨rfl, rfl⟩
  · rcases Option.or_eq_some_iff.mp hs with hs | ⟨hnone, hs⟩
    · cases acceptStep hs with
      | refused | accepted | usage | options | created | notCreated | sent | notSent => cases hlate
      | notSynchronized hpc =>
        refine ⟨rfl, ?_⟩
        simp [handshakeStep, serverStep, Handshake.setSegment, hpc, synchronizeWithClient]
      | @synchronized id' n hpc hle hlen hend =>
        refine ⟨rfl, ?_⟩
        have hread : n ≤ 1 ∧ n ≤ (u.stream .server).length ∧
          (n = 0 → u.stream .server = [] ∧ u.closed Side.server.peer = true) := ⟨hle, hlen, hend⟩
        simp only [handshakeStep, serverStep, Handshake.setSegment, hpc, synchronizeWithClient,
          Handshake.read, if_pos hread, Option.map_some, Option.some_or]
      | insert hpc hinsert =>
        refine ⟨rfl, ?_⟩
        simp only [handshakeStep, serverStep, Handshake.setSegment, hpc, hinsert, Option.map_some,
          Option.some_or, Handshake.setBridge]
    · cases connectStep hs with
      | connect | usage | options | received | notReceived | attached | exited | notAttached
      | acknowledged | notAcknowledged => cases hlate
      | insert hpc hinsert =>
        refine ⟨rfl, ?_⟩
        simp only [handshakeStep, serverStep, clientStep, Handshake.setSegment, hpc, hinsert,
          Option.map_some, Option.none_or, Handshake.setBridge]

theorem Alive.setUp_acknowledged (hs : Alive buffer s) (hw : a.Whole)
    (hstep : handshakeStep s.handshake a = some h)
    (hack : s.handshake.client.acknowledged = true) : Alive buffer (s.setUp buffer a h) := by
  obtain ⟨id, hid, hreaches, hsegment⟩ := hs.begun hack
  have hinv := hs.handshake
  rw [restored_acknowledged hid hack] at hinv
  have hunsent : s.handshake.server.unsent = false := (hinv.acknowledged_created hack).1
  have hlate : a.late = true ∧ h.client.acknowledged = true := by
    have hstep' := hstep
    unfold handshakeStep at hstep'
    split at hstep'
    · obtain rfl := Option.some.inj hstep'
      exact ⟨rfl, hack⟩
    · rcases Option.or_eq_some_iff.mp hstep' with hserver | ⟨-, hclient⟩
      · have hmove := acceptStep hserver
        have hsame := hmove.frame.1
        cases hmove with
        | refused hpc | accepted hpc | usage hpc | options hpc | created hpc | notCreated hpc
        | sent hpc | notSent hpc =>
          rw [hpc] at hunsent
          cases hunsent
        | synchronized | notSynchronized | insert => exact ⟨rfl, hsame ▸ hack⟩
      · cases connectStep hclient with
        | connect hpc | usage hpc | options hpc | received hpc | notReceived hpc | attached hpc
        | exited hpc | notAttached hpc | acknowledged hpc | notAcknowledged hpc =>
          rw [hpc] at hack
          cases hack
        | insert => exact ⟨rfl, rfl⟩
  obtain ⟨hlate, hack'⟩ := hlate
  obtain ⟨hsegments, hrestored⟩ := late_setSegment hlate hstep id { openCount := 2 }
  have hcreates : a.creates = none := by
    cases a with
    | create => cases hlate
    | _ => rfl
  have hid' : h.created = some id := by
    rw [handshakeStep_created hstep, hcreates, Option.none_or, hid]
  refine ⟨?_, fun _ _ hfalse => ?_, fun _ => ⟨id, hid', ?_, ?_⟩⟩
  · rw [@restored_acknowledged (s.setUp buffer a h) id hid' hack']
    exact hinv.handshakeStep_inv hw hrestored
  · cases hack'.symm.trans hfalse
  · simp only [Life.setUp, hcreates]
    exact hreaches
  · simp only [Life.setUp, hcreates, hsegments]
    exact hsegment

theorem Alive.joined (hs : Alive buffer s) (hdoomed : ¬s.handshake.doomed) {side : Side}
    (hsucceeded : s.handshake.succeeded side) :
    s.handshake.client.acknowledged = true ∧ ∃ id, s.handshake.created = some id ∧
      s.handshake.session side = some { connection := some id } := by
  cases hack : s.handshake.client.acknowledged with
  | true =>
    obtain ⟨id, hid, -⟩ := hs.begun hack
    have hinv := hs.handshake
    rw [restored_acknowledged hid hack] at hinv
    have hsame : (s.handshake.setSegment id { openCount := 2 }).succeeded side := by
      cases side <;> exact hsucceeded
    exact ⟨rfl, hinv.agreement.session side hsame⟩
  | false =>
    have hinv := hs.handshake
    rw [restored_unacknowledged hack] at hinv
    refine absurd ?_ hdoomed
    cases side with
    | client =>
      obtain ⟨code, hpc, hne⟩ := hsucceeded
      rw [hpc] at hack
      exact absurd (of_decide_eq_false hack) (not_not_intro hne)
    | server =>
      obtain ⟨code, hpc, hne⟩ := hsucceeded
      by_cases hfailed : s.handshake.client.failed = true
      · exact .inl hfailed
      · have hsync : s.handshake.server.synchronized = true := by
          rw [hpc]
          exact decide_eq_true hne
        have hclosed := (hinv.pending hack (Bool.not_eq_true _ |>.mp hfailed)).2.2 hsync
        refine .inr (.inr ⟨hclosed, ?_⟩)
        have hclient := hinv.client
        unfold ClientOk at hclient
        cases hc : s.handshake.client with
        | connect | usage =>
          rw [hc] at hclient
          exact hclient.elim
        | options | receive | attach | acknowledge => rfl
        | insert =>
          rw [hc] at hack
          cases hack
        | exited =>
          rw [hc] at hfailed
          exact absurd rfl hfailed
        | returned code =>
          rw [hc] at hack hfailed
          exact absurd (decide_eq_true (not_not.mp (of_decide_eq_false hack))) hfailed

theorem Alive.call (hs : Alive buffer s) (hdoomed : ¬s.handshake.doomed) {a : SidesAction}
    (hstep : lifeStep buffer s (.call a) = some t) : Alive buffer t := by
  simp only [lifeStep] at hstep
  split at hstep
  · obtain ⟨hack, id, hid, hsession⟩ := hs.joined hdoomed ‹_›
    obtain ⟨id', hid', hreaches, hsegment⟩ := hs.begun hack
    obtain rfl := Option.some.inj (hid.symm.trans hid')
    rw [hsession, Option.bind_some, Option.bind_some] at hstep
    obtain ⟨sides, hconnection, hstep⟩ := Option.bind_eq_some_iff.mp hstep
    rw [Life.connection, hsegment, Option.map_some, Option.some.injEq] at hconnection
    obtain ⟨sides', hside, rfl⟩ := Option.map_eq_some_iff.mp hstep
    have hinv := hs.handshake
    rw [restored_acknowledged hid hack] at hinv
    refine ⟨?_, fun _ _ hfalse => ?_, fun _ => ⟨id, hid, ?_, ?_⟩⟩
    · rw [@restored_acknowledged (s.setConnection id sides') id hid hack]
      simp only [Life.setConnection, Handshake.setSegment, Function.update_idem] at hinv ⊢
      exact hinv
    · cases hack.symm.trans hfalse
    · simp only [Life.setConnection, Function.update_self]
      refine hreaches.trans (.single (a := a) ?_)
      rw [← hside, ← hconnection]
    · simp [Life.setConnection, Handshake.setSegment]
  · cases hstep

theorem Alive.step {a : LifeAction} (hs : s.handshake.doomed ∨ Alive buffer s) (hw : a.Whole)
    (hstep : lifeStep buffer s a = some t) : t.handshake.doomed ∨ Alive buffer t := by
  by_cases hdoomed : t.handshake.doomed
  · exact .inl hdoomed
  · refine .inr ?_
    cases a with
    | setUp a =>
      obtain ⟨h, hh, rfl⟩ := Option.map_eq_some_iff.mp hstep
      have halive := hs.resolve_left fun hdead => hdoomed (hdead.step hh)
      cases hack : s.handshake.client.acknowledged with
      | false => exact halive.setUp_unacknowledged hw hh hdoomed hack
      | true => exact halive.setUp_acknowledged hw hh hack
    | call a =>
      have hsame : t.handshake.doomed ↔ s.handshake.doomed := by
        simp only [lifeStep] at hstep
        split at hstep
        · obtain ⟨session, -, hstep⟩ := Option.bind_eq_some_iff.mp hstep
          obtain ⟨id, -, hstep⟩ := Option.bind_eq_some_iff.mp hstep
          obtain ⟨sides, -, hstep⟩ := Option.bind_eq_some_iff.mp hstep
          obtain ⟨sides', -, rfl⟩ := Option.map_eq_some_iff.mp hstep
          exact Iff.rfl
        · cases hstep
      have hlives : ¬s.handshake.doomed := fun hdead => hdoomed (hsame.mpr hdead)
      exact (hs.resolve_left hlives).call hlives hstep

end Alive

/-! ### The removal of the segment -/

/-- The segment is removed when both sides have made their decrement, and before both have left. -/
structure Removal (s : Sides) : Prop where
  gone : s.segment.removed = true → ∀ side, s.gone side = true
  removed : (∀ side, s.pc side = .closed) → s.segment.removed = true

section Removal

variable {capacity : Side → Nat} {s t : Sides} {side : Side}

theorem Removal.keep (h : Removal s) (hside : s.gone side = false)
    (hremoved : t.segment.removed = s.segment.removed) (hpc : t.pc side ≠ .closed) : Removal t := by
  refine ⟨fun hr => ?_, fun hall => absurd (hall side) hpc⟩
  have hgone := h.gone (hremoved ▸ hr) side
  rw [hside] at hgone
  cases hgone

theorem SidesInv.removal_test (h : SidesInv capacity s) (hr : Removal s) (hpc : s.pc side = .test)
    (hs : sideStep s side = some t) : Removal t := by
  have hcount := h.count_eq side
  rw [SidePc.share, hpc] at hcount
  simp only [sideStep, hpc] at hs
  split at hs
  · rename_i hzero
    obtain rfl := Option.some.inj hs
    refine ⟨fun _ b => ?_, fun _ => rfl⟩
    rcases Side.eq_or_eq_peer b side with rfl | rfl
    · simp [Sides.goto, Sides.gone, SidePc.gone]
    · rw [hzero, SidePc.share] at hcount
      show (Function.update s.pc side SidePc.closed side.peer).gone = true
      rw [Function.update_of_ne side.peer_ne]
      by_contra hlive
      rw [if_neg hlive] at hcount
      cases hcount
  · rename_i hnonzero
    obtain rfl := Option.some.inj hs
    refine ⟨fun hremoved b => ?_, fun hall => absurd ?_ hnonzero⟩
    · rcases Side.eq_or_eq_peer b side with rfl | rfl
      · simp [Sides.goto, Sides.gone, SidePc.gone]
      · have hgone := hr.gone hremoved side.peer
        simpa [Sides.goto, Sides.gone, side.peer_ne] using hgone
    · have hpeer : s.pc side.peer = .closed := by
        simpa [Sides.goto, side.peer_ne] using hall side.peer
      rw [hcount, hpeer]
      rfl

theorem SidesInv.removal_step (h : SidesInv capacity s) (hr : Removal s) {a : SidesAction}
    (hs : sidesStep s a = some t) : Removal t := by
  have hcall : ∀ side pc, pc ≠ .closed → s.call side pc = some t → Removal t := by
    intro side pc hclosed hs
    unfold Sides.call at hs
    split at hs
    · rename_i hready
      obtain rfl := Option.some.inj hs
      have hlive : s.gone side = false := by rw [Sides.gone, hready]; rfl
      refine hr.keep hlive rfl ?_
      simpa [Sides.goto] using hclosed
    · cases hs
  cases a with
  | read side _ | write side _ | close side => exact hcall side _ (by simp) hs
  | step side =>
    have hstep : sideStep s side = some t := hs
    cases sideStep_cases hstep with
    | destroy hpc | leave hpc => exact h.removal_test hr hpc hstep
    | subtract hpc =>
      have hlive : s.gone side = false := by rw [Sides.gone, hpc]; rfl
      refine hr.keep hlive rfl ?_
      simp [Sides.goto]
    | readGone _ hpc | writeGone _ hpc =>
      have hlive : s.gone side = false := by rw [Sides.gone, hpc]; rfl
      refine hr.keep hlive rfl ?_
      simp [Sides.goto]
    | readCall _ ring hpc | readStep _ ring hpc =>
      have hlive : s.gone side = false := by rw [Sides.gone, hpc]; rfl
      refine hr.keep hlive ?_ ?_
      · unfold Sides.afterRead
        dsimp only
        split <;> rfl
      · unfold Sides.afterRead
        dsimp only
        split <;> simp [Sides.goto]
    | writeCall _ ring hpc | writeStep ring hpc =>
      have hlive : s.gone side = false := by rw [Sides.gone, hpc]; rfl
      refine hr.keep hlive ?_ ?_
      · unfold Sides.afterWrite
        dsimp only
        split <;> rfl
      · unfold Sides.afterWrite
        dsimp only
        split <;> simp [Sides.goto]

end Removal

/-! ### Whole lives -/

/-- What a connection is from the end of the handshake on. -/
structure Established (buffer : Side → Buffer) (s : Life) (id : Nat) : Prop where
  session : ∀ side, s.handshake.session side = some { connection := some id }
  reached : Run.Reaches sidesStep (.init buffer) (s.connections id)
  segment : s.handshake.segments id = some (s.connections id).segment
  /-- `connection_peer_died` is exact for a side that has not made its decrement. -/
  peerDied : ∀ side, (s.connections id).gone side = false →
    connectionPeerDied (s.connections id).segment = (s.connections id).gone side.peer
  /-- A side has read a prefix of what the other has written. -/
  bytes : ∀ side, ((s.connections id).reads side.peer).flatMap ReadRecord.bytes <+:
    ((s.connections id).ring side).accepted
  removal : Removal (s.connections id)

/-- **The life of a connection.**  If the number is read whole and both calls return success, both
processes are on the connection that the server has created, and it is in a state that they reach
from the one after the handshake, also if one of them has begun to use it, and has left it, while
the other was still inside its call. -/
theorem whole_life {buffer : Side → Buffer} {segments : Nat → Option Segment}
    {bridge : Side → Bridge} {fd : Side → Int} {descriptors : Int → Bool}
    {connections : Nat → Sides} {as : List LifeAction} {s : Life}
    (hc : ∀ side, 1 ≤ (buffer side).capacity) (hb : ∀ side, (buffer side).capacity ≤ MAX_CAPACITY)
    (hbridge : ∀ side, BridgeInv (bridge side)) (hw : ∀ a ∈ as, a.Whole)
    (hrun : Run.run (lifeStep buffer)
      { handshake := .init segments bridge fd descriptors, connections } as = some s)
    (hboth : ∀ side, s.handshake.succeeded side) :
    ∃ id, s.handshake.created = some id ∧ Established buffer s id := by
  have hstart : Alive buffer
      { handshake := .init segments bridge fd descriptors, connections } := by
    refine ⟨handshakeInv_init hbridge, ?_, ?_⟩
    · intro id hid
      cases hid
    · intro hack
      cases hack
  have hend : s.handshake.doomed ∨ Alive buffer s :=
    Run.meets_induct (I := fun u : Life => u.handshake.doomed ∨ Alive buffer u)
      (C := fun _ a => a.Whole) (fun _ _ _ hu ha hs => Alive.step hu ha hs) (.inr hstart)
      (Run.meets_of_forall fun a ha _ => hw a ha) hrun
  have hdoomed : ¬s.handshake.doomed := fun hdead => hdead.fails hboth
  have halive := hend.resolve_left hdoomed
  obtain ⟨hack, -⟩ := halive.joined hdoomed (hboth .client)
  obtain ⟨id, hid, hreaches, hsegment⟩ := halive.begun hack
  have hinv : SidesInv (fun side => (buffer side).capacity) (s.connections id) :=
    sidesInv_reaches hc hb hreaches
  refine ⟨id, hid, ?_, hreaches, hsegment, hinv.peerDied_eq, ?_, ?_⟩
  · intro side
    obtain ⟨-, id', hid', hsession⟩ := halive.joined hdoomed (hboth side)
    obtain rfl := Option.some.inj (hid.symm.trans hid')
    exact hsession
  · intro side
    have hread := (hinv.side side.peer).bytes
    rw [Side.peer_peer] at hread
    rw [hread]
    exact (List.prefix_append _ _).trans (hinv.ring side).safe.delivered
  · have hkeep : SidesInv (fun side => (buffer side).capacity) (s.connections id) ∧
        Removal (s.connections id) :=
      hreaches.induct (I := fun u => SidesInv (fun side => (buffer side).capacity) u ∧ Removal u)
        (fun _ _ _ hu hs => ⟨hu.1.sidesStep_inv hs, hu.1.removal_step hu.2 hs⟩)
        ⟨sidesInv_init hc hb, by simp [Sides.init, setupConnection, createConnection],
          fun hall => by cases hall .server⟩
    exact hkeep.2

/-- Buffers of two bytes. -/
private def newBuffers : Side → Buffer := fun _ => .fresh (fun _ => 0) 2 ⟨fun _ => false⟩

private def newcomers : Life where
  handshake := .init (fun id => if id = 0 then some { openCount := 2 } else none)
    (fun _ => .initial) (fun side => if side = .server then 5 else 3) fun _ => false
  connections := fun _ => .init newBuffers

/-- The server writes a byte and leaves before the client has returned. -/
private def earlyServer : List LifeAction :=
  [.setUp (.options .server), .setUp (.options .client), .setUp (.create true 256),
    .setUp (.send (.count 4)), .setUp (.receive (.count 4) [7, 7, 7, 7]), .setUp (.attach true),
    .setUp (.acknowledge (.count 1)), .setUp (.synchronize (.count 1)), .setUp (.insert .server),
    .call (.write .server [9])] ++ List.replicate 10 (.call (.step .server)) ++
    [.call (.close .server), .call (.step .server), .call (.step .server),
      .setUp (.insert .client), .call (.read .client 1), .call (.step .client)]

theorem whole_life_at :
    ∃ s, Run.run (lifeStep newBuffers) newcomers earlyServer = some s ∧
      ∃ id, s.handshake.created = some id ∧ Established newBuffers s id := by
  have hrun : (Run.run (lifeStep newBuffers) newcomers earlyServer).any (fun s =>
      s.handshake.succeeded .server ∧ s.handshake.succeeded .client) = true := by
    decide +kernel
  obtain ⟨s, hs, hp⟩ := Option.any_eq_true _ _ |>.mp hrun
  obtain ⟨hserver, hclient⟩ := of_decide_eq_true hp
  refine ⟨s, hs, whole_life (fun _ => show 1 ≤ 2 by decide)
    (fun _ => show 2 ≤ MAX_CAPACITY by decide) (fun _ => bridgeInv_initial) ?_ hs fun side => ?_⟩
  · simp [earlyServer, LifeAction.Whole, HandshakeAction.Whole]
  · cases side with
    | server => exact hserver
    | client => exact hclient

end Tssx
