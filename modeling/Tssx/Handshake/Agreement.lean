import Tssx.Handshake

/-!
# The agreement of a handshake

`_read_segment_id_from_server` takes any read that does not fail for the whole number.  As
long as it gets all four bytes, a side that returns success has a session for the segment
of the server; when both do, the segment has two users and the socket has carried the
handshake and nothing else (`handshake_agreement`).  A read of fewer bytes makes the client
attach the segment that the bytes of an uninitialised variable name
(`handshake_disagreement`).
-/

namespace Tssx

/-- Both sides at the beginning of `_setup_tssx`. -/
def Handshake.init (segments : Nat → Option Segment) (bridge : Side → Bridge) (fd : Side → Int)
    (descriptors : Int → Bool) : Handshake where
  segments := segments
  stream := fun _ => []
  closed := fun _ => false
  consumed := fun _ => 0
  server := .options
  client := .options
  bridge := bridge
  fd := fd
  descriptors := descriptors
  created := none

/-- The call of a side has returned success. -/
def Handshake.succeeded (s : Handshake) : Side → Prop
  | .server => ∃ code, s.server = .returned code ∧ code ≠ ERROR
  | .client => ∃ code, s.client = .returned code ∧ code ≠ ERROR

theorem Handshake.not_succeeded_server {s : Handshake} {pc : ServerPc} (hpc : s.server = pc)
    (h : ∀ code, pc ≠ .returned code) : ¬ s.succeeded .server := by
  rintro ⟨code, hc, -⟩
  exact h code (hpc.symm.trans hc)

theorem Handshake.not_succeeded_client {s : Handshake} {pc : ClientPc} (hpc : s.client = pc)
    (h : ∀ code, pc ≠ .returned code) : ¬ s.succeeded .client := by
  rintro ⟨code, hc, -⟩
  exact h code (hpc.symm.trans hc)

/-- What success means. -/
structure Agreement (s : Handshake) : Prop where
  session : ∀ side, s.succeeded side →
    ∃ id, s.created = some id ∧ s.session side = some { connection := some id }
  users : (∀ side, s.succeeded side) → ∃ id segment, s.created = some id ∧
    s.segments id = some segment ∧ segment.openCount = 2 ∧ connectionPeerDied segment = false
  bytes : (∀ side, s.succeeded side) → s.consumed .client = 4 ∧ s.consumed .server = 1 ∧
    ∀ side, s.stream side = []

/-- A read of the segment number gets all bytes of it, or fails. -/
def HandshakeAction.Whole : HandshakeAction → Prop
  | .receive (.count n) _ => n = 4
  | _ => True

/-! ### Where the two sides are -/

/-- Nothing has been sent yet. -/
def ServerPc.unsent : ServerPc → Bool
  | .accept | .usage | .options | .create | .send _ => true
  | _ => false

/-- The byte of the client has not been read yet. -/
def ServerPc.unsynchronized : ServerPc → Bool
  | .synchronize _ => true
  | pc => pc.unsent

def ServerPc.synchronized : ServerPc → Bool
  | .insert _ => true
  | .returned code => code ≠ ERROR
  | _ => false

def ClientPc.failed : ClientPc → Bool
  | .returned code => code = ERROR
  | .exited => true
  | _ => false

/-- The number has been read. -/
def ClientPc.received : ClientPc → Bool
  | .attach _ | .acknowledge _ | .insert _ => true
  | .returned code => code ≠ ERROR
  | _ => false

/-- The byte has been written. -/
def ClientPc.acknowledged : ClientPc → Bool
  | .insert _ => true
  | .returned code => code ≠ ERROR
  | _ => false

/-- The users of the segment as long as the client does not fail. -/
def ClientPc.users : ClientPc → Int
  | .acknowledge _ => 2
  | pc => if pc.acknowledged then 2 else 1

/-! ### The invariant -/

def ServerOk (s : Handshake) : Prop :=
  match s.server with
  | .accept | .usage => False
  | .options | .create => s.created = none
  | .send id | .synchronize id | .insert id => s.created = some id
  | .returned code =>
    code ≠ ERROR → ∃ id, s.created = some id ∧ s.session .server = some { connection := some id }

/-- The client has read the number and nothing is left. -/
def Handshake.Received (s : Handshake) : Prop := s.stream .client = [] ∧ s.consumed .client = 4

def ClientOk (s : Handshake) : Prop :=
  match s.client with
  | .connect | .usage => False
  | .options | .receive => s.consumed .client = 0 ∧ (s.stream .client = [] ∨
      ∃ id n, s.created = some id ∧ s.stream .client = (intBytes id).take n)
  | .attach i => s.Received ∧ ∃ id : Nat, s.created = some id ∧ i = id
  | .acknowledge id | .insert id => s.Received ∧ s.created = some id
  | .returned code => code ≠ ERROR → s.Received ∧
      ∃ id, s.created = some id ∧ s.session .client = some { connection := some id }
  | .exited => True

theorem ServerOk.congr {s t : Handshake} (h : ServerOk s) (hpc : t.server = s.server)
    (hcreated : t.created = s.created)
    (hsession : s.succeeded .server → t.session .server = s.session .server) : ServerOk t := by
  unfold ServerOk at *
  rw [hpc, hcreated]
  cases hc : s.server with
  | returned code =>
    rw [hc] at h
    intro hne
    rw [hsession ⟨code, hc, hne⟩]
    exact h hne
  | _ =>
    rw [hc] at h
    exact h

theorem ClientOk.congr {s t : Handshake} (h : ClientOk s) (hpc : t.client = s.client)
    (hcreated : t.created = s.created) (hstream : t.stream .client = s.stream .client)
    (hconsumed : t.consumed .client = s.consumed .client)
    (hsession : s.succeeded .client → t.session .client = s.session .client) : ClientOk t := by
  unfold ClientOk Handshake.Received at *
  rw [hpc, hcreated, hstream, hconsumed]
  cases hc : s.client with
  | returned code =>
    rw [hc] at h
    intro hne
    rw [hsession ⟨code, hc, hne⟩]
    exact h hne
  | _ =>
    rw [hc] at h
    exact h

/-- A client that has not read the number depends on what is on its way. -/
theorem ClientOk.unreceived {s t : Handshake} (h : ClientOk s) (hr : s.client.received = false)
    (hpc : t.client = s.client) (hconsumed : t.consumed .client = s.consumed .client)
    (hstream : t.stream .client = [] ∨
      ∃ id n, t.created = some id ∧ t.stream .client = (intBytes id).take n) : ClientOk t := by
  unfold ClientOk at *
  rw [hpc, hconsumed]
  cases hc : s.client with
  | connect | usage =>
    rw [hc] at h
    exact h
  | options | receive =>
    rw [hc] at h
    exact ⟨h.1, hstream⟩
  | attach | acknowledge | insert =>
    rw [hc] at hr
    cases hr
  | returned code =>
    rw [hc] at hr
    intro hne
    simp [ClientPc.received, hne] at hr
  | exited => trivial

theorem ClientPc.users_unreceived {pc : ClientPc} (hr : pc.received = false) : pc.users = 1 := by
  cases pc with
  | acknowledge | insert => cases hr
  | returned code =>
    have hack : (ClientPc.returned code).acknowledged = false := hr
    simp [ClientPc.users, hack]
  | _ => rfl

theorem Handshake.session_setBridge_peer (s : Handshake) (side : Side) (bridge : Bridge) :
    (s.setBridge side.peer bridge).session side = s.session side := by
  rw [Handshake.session, Handshake.setBridge, Handshake.session]
  dsimp only
  rw [Function.update_of_ne side.peer_ne.symm]

structure HandshakeInv (s : Handshake) : Prop where
  bridge : ∀ side, BridgeInv (s.bridge side)
  number : ∀ id, s.created = some id → id < 2 ^ 31
  server : ServerOk s
  client : ClientOk s
  unsent : s.server.unsent = true → s.stream .client = [] ∧ s.client.received = false
  counted : ∀ id, s.created = some id → s.server ≠ .returned ERROR → s.client.failed = false →
    s.segments id = some { openCount := s.client.users }
  pending : s.client.acknowledged = false → s.client.failed = false →
    s.stream .server = [] ∧ s.consumed .server = 0 ∧
      (s.server.synchronized = true → s.closed .client = true)
  acknowledged : s.client.acknowledged = true →
    (s.server.unsynchronized = true →
      s.stream .server = syncMessage ∧ s.consumed .server = 0) ∧
    (s.server.synchronized = true → s.stream .server = [] ∧ s.consumed .server = 1)

theorem handshakeInv_init {segments : Nat → Option Segment} {bridge : Side → Bridge}
    {fd : Side → Int} {descriptors : Int → Bool} (hb : ∀ side, BridgeInv (bridge side)) :
    HandshakeInv (.init segments bridge fd descriptors) where
  bridge := hb
  number := by simp [Handshake.init]
  server := rfl
  client := ⟨rfl, .inl rfl⟩
  unsent := fun _ => ⟨rfl, rfl⟩
  counted := by simp [Handshake.init]
  pending := fun _ _ => ⟨rfl, rfl, by simp [Handshake.init, ServerPc.synchronized]⟩
  acknowledged := by simp [Handshake.init, ClientPc.acknowledged]

namespace HandshakeInv

variable {s t : Handshake} {id : Nat} {io : Io}

theorem created (h : HandshakeInv s)
    (hpc : s.server = .send id ∨ s.server = .synchronize id ∨ s.server = .insert id) :
    s.created = some id := by
  have hserver := h.server
  unfold ServerOk at hserver
  rcases hpc with hpc | hpc | hpc <;> rw [hpc] at hserver <;> exact hserver

theorem sent (h : HandshakeInv s) (hr : s.client.received = true) : s.server.unsent ≠ true := by
  intro hu
  rw [(h.unsent hu).2] at hr
  cases hr

theorem serverFails (h : HandshakeInv s) : HandshakeInv { s with server := .returned ERROR } where
  bridge := h.bridge
  number := h.number
  server := fun hc => absurd rfl hc
  client := h.client
  unsent := by simp [ServerPc.unsent]
  counted := fun _ _ hc => absurd rfl hc
  pending := fun ha hf => ⟨(h.pending ha hf).1, (h.pending ha hf).2.1,
    by simp [ServerPc.synchronized]⟩
  acknowledged := by simp [ServerPc.unsynchronized, ServerPc.unsent, ServerPc.synchronized]

/-- The call of the client returns an error or the process ends. -/
theorem clientFails (h : HandshakeInv s) {pc : ClientPc} (hpc : pc = .returned ERROR ∨ pc = .exited)
    (hs : s.server.unsent = true → s.stream .client = []) :
    HandshakeInv { s with client := pc } where
  bridge := h.bridge
  number := h.number
  server := h.server
  client := by
    rcases hpc with rfl | rfl
    · exact fun hc => absurd rfl hc
    · exact trivial
  unsent := fun hu => ⟨hs hu, by rcases hpc with rfl | rfl <;> rfl⟩
  counted := by rcases hpc with rfl | rfl <;> simp [ClientPc.failed]
  pending := by rcases hpc with rfl | rfl <;> simp [ClientPc.failed]
  acknowledged := by rcases hpc with rfl | rfl <;> simp [ClientPc.acknowledged]

theorem setBridge (h : HandshakeInv s) {side : Side} {bridge : Bridge} (hb : BridgeInv bridge)
    (hs : ¬ s.succeeded side) : HandshakeInv (s.setBridge side bridge) := by
  have hsession : ∀ b, s.succeeded b → (s.setBridge side bridge).session b = s.session b := by
    intro b hsucc
    rcases Side.eq_or_eq_peer side b with rfl | rfl
    · exact absurd hsucc hs
    · exact s.session_setBridge_peer b bridge
  refine ⟨?_, h.number, h.server.congr rfl rfl (hsession _),
    h.client.congr rfl rfl rfl rfl (hsession _), h.unsent, h.counted, h.pending, h.acknowledged⟩
  intro b
  unfold Handshake.setBridge
  dsimp only
  rcases Side.eq_or_eq_peer b side with rfl | rfl
  · rw [Function.update_self]
    exact hb
  · rw [Function.update_of_ne side.peer_ne]
    exact h.bridge _

theorem createSegment_inv (h : HandshakeInv s) (hpc : s.server = .create) {allocated : Bool}
    (hs : createSegment s allocated id = some t) : HandshakeInv t := by
  unfold createSegment at hs
  split at hs
  · split at hs
    · rename_i hid
      obtain rfl := Option.some.inj hs
      obtain ⟨hstream, hreceived⟩ := h.unsent (by rw [hpc]; rfl)
      refine ⟨h.bridge, ?_, rfl, ?_, fun _ => ⟨hstream, hreceived⟩, ?_, ?_, ?_⟩
      · intro i hi
        obtain rfl := Option.some.inj hi
        exact hid.2
      · exact h.client.unreceived hreceived rfl rfl (.inl hstream)
      · intro i hi _ _
        obtain rfl := Option.some.inj hi
        simp [Handshake.setSegment, createConnection, ClientPc.users_unreceived hreceived]
      · intro ha hf
        exact ⟨(h.pending ha hf).1, (h.pending ha hf).2.1, by simp [ServerPc.synchronized]⟩
      · intro ha
        refine ⟨fun _ => (h.acknowledged ha).1 (by rw [hpc]; rfl), by simp [ServerPc.synchronized]⟩
    · cases hs
  · obtain rfl := Option.some.inj hs
    exact h.serverFails

theorem sendSegmentIdToClient_inv (h : HandshakeInv s) (hpc : s.server = .send id)
    (hs : sendSegmentIdToClient s id io = some t) : HandshakeInv t := by
  obtain ⟨hstream, hreceived⟩ := h.unsent (by rw [hpc]; rfl)
  cases io with
  | error =>
    obtain ⟨segment, -, hs⟩ := Option.bind_eq_some_iff.mp hs
    obtain ⟨segment', -, rfl⟩ := Option.map_eq_some_iff.mp hs
    exact { h.serverFails with counted := fun _ _ hc => absurd rfl hc }
  | count n =>
    obtain ⟨u, hw, rfl⟩ := Option.map_eq_some_iff.mp hs
    obtain ⟨-, -, -, rfl⟩ := Handshake.write_eq hw
    have hcreated := h.created (.inl hpc)
    refine ⟨h.bridge, h.number, hcreated, ?_, by simp [ServerPc.unsent], ?_, ?_, ?_⟩
    · refine h.client.unreceived hreceived rfl rfl (.inr ⟨id, n, hcreated, ?_⟩)
      simp [Side.peer, hstream]
    · intro i hi _ hf
      exact h.counted i hi (by rw [hpc]; simp) hf
    · intro ha hf
      have := h.pending ha hf
      simpa [ServerPc.synchronized, Side.peer] using ⟨this.1, this.2.1⟩
    · intro ha
      have := (h.acknowledged ha).1 (by rw [hpc]; rfl)
      simpa [ServerPc.unsynchronized, ServerPc.synchronized, Side.peer] using this

theorem synchronizeWithClient_inv (h : HandshakeInv s) (hpc : s.server = .synchronize id)
    (hs : synchronizeWithClient s id io = some t) : HandshakeInv t := by
  cases io with
  | error =>
    obtain rfl := Option.some.inj hs
    exact h.serverFails
  | count n =>
    obtain ⟨⟨u, bytes⟩, hr, rfl⟩ := Option.map_eq_some_iff.mp hs
    obtain ⟨hn, hlen, hend, -, rfl⟩ := Handshake.read_eq hr
    have hcreated := h.created (.inr (.inl hpc))
    refine ⟨h.bridge, h.number, hcreated, ?_, by simp [ServerPc.unsent], ?_, ?_, ?_⟩
    · exact h.client.congr rfl rfl (by simp) (by simp) fun _ => rfl
    · intro i hi _ hf
      exact h.counted i hi (by rw [hpc]; simp) hf
    · intro ha hf
      obtain ⟨hempty, hzero, -⟩ := h.pending ha hf
      obtain rfl : n = 0 := by simpa [hempty] using hlen
      exact ⟨by simp [hempty], by simp [hzero], fun _ => (hend rfl).2⟩
    · intro ha
      obtain ⟨hbyte, hzero⟩ := (h.acknowledged ha).1 (by rw [hpc]; rfl)
      obtain rfl : n = 1 := by
        have : n ≠ 0 := by
          intro h0
          have := (hend h0).1
          rw [hbyte] at this
          cases this
        omega
      refine ⟨by simp [ServerPc.unsynchronized, ServerPc.unsent], fun _ => ⟨?_, ?_⟩⟩
      · simp [hbyte, syncMessage]
      · simp [hzero]

theorem session_insert (h : HandshakeInv s) {side : Side} {bridge : Bridge} {session : Session}
    (hs : bridgeInsert (s.bridge side) (s.fd side) session = some bridge) :
    BridgeInv bridge ∧ (s.setBridge side bridge).session side = some session := by
  have hb := (@bridgeInsert_spec _ _ _ _ 0 (h.bridge side) hs).1
  obtain ⟨hfree, htable⟩ := bridgeInsert_table (h.bridge side) hs
  refine ⟨hb, ?_⟩
  rw [Handshake.session, Handshake.setBridge]
  dsimp only
  rw [Function.update_self, htable, List.getElem?_set_self]
  exact (List.getElem?_eq_some_iff.mp hfree).1

theorem insertServer_inv (h : HandshakeInv s) (hpc : s.server = .insert id) {bridge : Bridge}
    (hs : bridgeInsert (s.bridge .server) (s.fd .server) { connection := some id } = some bridge) :
    HandshakeInv { s.setBridge .server bridge with server := .returned (s.fd .server) } := by
  obtain ⟨hb, hsession⟩ := h.session_insert hs
  have hopen := Handshake.not_succeeded_server hpc (by simp)
  have hrun := h.setBridge hb hopen
  have hcreated := h.created (.inr (.inr hpc))
  refine ⟨hrun.bridge, h.number, fun _ => ⟨id, hcreated, hsession⟩,
    hrun.client.congr rfl rfl rfl rfl fun _ => rfl, by simp [ServerPc.unsent], ?_, ?_, ?_⟩
  · intro i hi _ hf
    exact h.counted i hi (by rw [hpc]; simp) hf
  · intro ha hf
    obtain ⟨hempty, hzero, hclosed⟩ := h.pending ha hf
    exact ⟨hempty, hzero, fun _ => hclosed (by rw [hpc]; rfl)⟩
  · intro ha
    exact ⟨by simp [ServerPc.unsynchronized, ServerPc.unsent],
      fun _ => (h.acknowledged ha).2 (by rw [hpc]; rfl)⟩

theorem optionsServer_inv (h : HandshakeInv s) (hpc : s.server = .options) {bridge : Bridge}
    {session : Session}
    (hs : bridgeLookup (s.bridge .server) (s.fd .server) = some (bridge, session)) :
    HandshakeInv { s.setBridge .server bridge with server := .create } := by
  have hcreated : s.created = none := by
    have hserver := h.server
    rwa [ServerOk, hpc] at hserver
  have hopen := Handshake.not_succeeded_server hpc (by simp)
  have hrun := h.setBridge (bridgeLookup_table (h.bridge .server) hs).1 hopen
  refine ⟨hrun.bridge, h.number, hcreated, hrun.client.congr rfl rfl rfl rfl fun _ => rfl,
    fun _ => h.unsent (by rw [hpc]; rfl), ?_, ?_, ?_⟩
  · intro i hi
    exact absurd (Eq.trans hcreated.symm hi) (by simp)
  · intro ha hf
    exact ⟨(h.pending ha hf).1, (h.pending ha hf).2.1, by simp [ServerPc.synchronized]⟩
  · intro ha
    exact ⟨fun _ => (h.acknowledged ha).1 (by rw [hpc]; rfl), by simp [ServerPc.synchronized]⟩

theorem serverStep_inv (h : HandshakeInv s) {a : HandshakeAction} (hs : serverStep s a = some t) :
    HandshakeInv t := by
  have hserver := h.server
  unfold ServerOk at hserver
  have hmove := serverStep_move hs
  clear hs
  cases hmove with
  | accept hpc | usage hpc =>
    rw [hpc] at hserver
    exact hserver.elim
  | options hpc hs => exact h.optionsServer_inv hpc hs
  | create hpc hs => exact h.createSegment_inv hpc hs
  | send hpc hs => exact h.sendSegmentIdToClient_inv hpc hs
  | synchronize hpc hs => exact h.synchronizeWithClient_inv hpc hs
  | insert hpc hs => exact h.insertServer_inv hpc hs

theorem readSegmentIdFromServer_inv (h : HandshakeInv s) (hpc : s.client = .receive)
    {garbage : List UInt8} (hw : (HandshakeAction.receive io garbage).Whole)
    (hs : readSegmentIdFromServer s io garbage = some t) : HandshakeInv t := by
  have hclient := h.client
  rw [ClientOk, hpc] at hclient
  obtain ⟨hzero, hsent⟩ := hclient
  cases io with
  | error =>
    obtain rfl := Option.some.inj hs
    exact h.clientFails (.inl rfl) fun hu => (h.unsent hu).1
  | count n =>
    obtain rfl : n = 4 := hw
    simp only [readSegmentIdFromServer] at hs
    split at hs
    · rename_i hgarbage
      obtain ⟨⟨u, bytes⟩, hr, rfl⟩ := Option.map_eq_some_iff.mp hs
      obtain ⟨-, hlen, -, rfl, rfl⟩ := Handshake.read_eq hr
      -- four bytes on their way are the whole number
      obtain ⟨id, hcreated, hstream⟩ : ∃ id, s.created = some id ∧
          s.stream .client = intBytes id := by
        rcases hsent with hnone | ⟨id, m, hcreated, htake⟩
        · simp [hnone] at hlen
        · refine ⟨id, hcreated, ?_⟩
          rw [htake, List.length_take, length_intBytes] at hlen
          rw [htake, List.take_of_length_le]
          rw [length_intBytes]
          omega
      have hid : intOfBytes ((s.stream .client).take 4 ++ garbage.drop 4) = id := by
        rw [hstream, List.take_of_length_le (by rw [length_intBytes]),
          List.drop_eq_nil_of_le (Nat.le_of_eq hgarbage), List.append_nil,
          intOfBytes_intBytes (h.number id hcreated)]
      have hne : (id : Int) ≠ ERROR := by
        unfold ERROR
        omega
      have hsentAll : s.server.unsent = false := by
        rw [← Bool.not_eq_true]
        intro hu
        have := (h.unsent hu).1
        rw [hstream] at this
        exact absurd (congrArg List.length this) (by simp)
      rw [hid, if_neg hne]
      refine ⟨h.bridge, h.number, h.server.congr rfl rfl fun _ => rfl, ?_, ?_, ?_, ?_, ?_⟩
      · refine ⟨⟨?_, ?_⟩, id, hcreated, rfl⟩
        · simp [hstream]
        · simp [hzero]
      · intro hu
        exact absurd hu (by simp [hsentAll])
      · intro i hi he _
        exact h.counted i hi he (by rw [hpc]; rfl) ▸ by rw [hpc]; rfl
      · intro _ _
        have := h.pending (by rw [hpc]; rfl) (by rw [hpc]; rfl)
        simpa using this
      · intro ha
        cases ha
    · cases hs

theorem attachSegment_inv (h : HandshakeInv s) {i : Int} (hpc : s.client = .attach i)
    (allocated : Bool) : HandshakeInv (attachSegment s i allocated) := by
  have hclient := h.client
  rw [ClientOk, hpc] at hclient
  obtain ⟨hreceived, id, hcreated, rfl⟩ := hclient
  have hstream : s.server.unsent = true → s.stream .client = [] := fun _ => hreceived.1
  unfold attachSegment
  split
  · split
    · rename_i segment hattach
      rw [Int.toNat_natCast]
      have hsent := h.sent (by rw [hpc]; rfl)
      refine ⟨h.bridge, h.number, h.server.congr rfl rfl fun _ => rfl, ⟨hreceived, hcreated⟩,
        fun hu => absurd hu hsent, ?_, ?_, ?_⟩
      · intro j hj he _
        obtain rfl : id = j := Option.some.inj (hcreated.symm.trans hj)
        have hone := h.counted id hcreated he (by rw [hpc]; rfl)
        rw [hpc] at hone
        have hsegment : segment = { openCount := 1 } := by
          rw [Handshake.attachable, if_pos (Int.natCast_nonneg id), Int.toNat_natCast,
            hone] at hattach
          exact (Option.some.inj hattach).symm
        simp [Handshake.setSegment, hsegment, setupConnection, ClientPc.users]
      · intro _ _
        exact h.pending (by rw [hpc]; rfl) (by rw [hpc]; rfl)
      · intro ha
        cases ha
    · exact h.clientFails (.inr rfl) hstream
  · exact h.clientFails (.inl rfl) hstream

theorem synchronizeWithServer_inv (h : HandshakeInv s) (hpc : s.client = .acknowledge id)
    (hs : synchronizeWithServer s id io = some t) : HandshakeInv t := by
  have hclient := h.client
  rw [ClientOk, hpc] at hclient
  obtain ⟨hreceived, hcreated⟩ := hclient
  cases io with
  | error =>
    obtain rfl := Option.some.inj hs
    exact h.clientFails (.inl rfl) fun _ => hreceived.1
  | count n =>
    obtain ⟨u, hw, rfl⟩ := Option.map_eq_some_iff.mp hs
    obtain ⟨hn, hlen, hopen, rfl⟩ := Handshake.write_eq hw
    obtain rfl : n = 1 := Nat.le_antisymm hlen hn
    obtain ⟨hempty, hzero, hclosed⟩ := h.pending (by rw [hpc]; rfl) (by rw [hpc]; rfl)
    refine ⟨h.bridge, h.number, h.server.congr rfl rfl fun _ => rfl, ⟨?_, hcreated⟩, ?_, ?_, ?_, ?_⟩
    · simpa [Handshake.Received, Side.peer] using hreceived
    · exact fun hu => absurd hu (h.sent (by rw [hpc]; rfl))
    · intro i hi he _
      have := h.counted i hi he (by rw [hpc]; rfl)
      rwa [hpc] at this
    · intro ha
      cases ha
    · intro _
      refine ⟨fun _ => ⟨?_, hzero⟩, ?_⟩
      · simp [Side.peer, hempty, syncMessage]
      · intro hsync
        rw [hclosed hsync] at hopen
        cases hopen

theorem insertClient_inv (h : HandshakeInv s) (hpc : s.client = .insert id) {bridge : Bridge}
    (hs : bridgeInsert (s.bridge .client) (s.fd .client) { connection := some id } = some bridge) :
    HandshakeInv { s.setBridge .client bridge with client := .returned SUCCESS } := by
  have hclient := h.client
  rw [ClientOk, hpc] at hclient
  obtain ⟨hreceived, hcreated⟩ := hclient
  obtain ⟨hb, hsession⟩ := h.session_insert hs
  have hopen := Handshake.not_succeeded_client hpc (by simp)
  have hrun := h.setBridge hb hopen
  refine ⟨hrun.bridge, h.number, hrun.server.congr rfl rfl fun _ => rfl,
    fun _ => ⟨hreceived, id, hcreated, hsession⟩, ?_, ?_, ?_, ?_⟩
  · exact fun hu => absurd hu (h.sent (by rw [hpc]; rfl))
  · intro i hi he _
    have := h.counted i hi he (by rw [hpc]; rfl)
    rwa [hpc] at this
  · intro ha
    cases ha
  · intro _
    exact h.acknowledged (by rw [hpc]; rfl)

theorem optionsClient_inv (h : HandshakeInv s) (hpc : s.client = .options) {bridge : Bridge}
    {session : Session}
    (hs : bridgeLookup (s.bridge .client) (s.fd .client) = some (bridge, session)) :
    HandshakeInv { s.setBridge .client bridge with client := .receive } := by
  have hclient := h.client
  rw [ClientOk, hpc] at hclient
  have hopen := Handshake.not_succeeded_client hpc (by simp)
  have hrun := h.setBridge (bridgeLookup_table (h.bridge .client) hs).1 hopen
  refine ⟨hrun.bridge, h.number, hrun.server.congr rfl rfl fun _ => rfl, hclient,
    fun hu => ⟨(h.unsent hu).1, rfl⟩, ?_, ?_, by simp [ClientPc.acknowledged]⟩
  · intro i hi he _
    have hcount := h.counted i hi he (by rw [hpc]; rfl)
    rwa [hpc] at hcount
  · intro _ _
    exact h.pending (by rw [hpc]; rfl) (by rw [hpc]; rfl)

theorem clientStep_inv (h : HandshakeInv s) {a : HandshakeAction} (hw : a.Whole)
    (hs : clientStep s a = some t) : HandshakeInv t := by
  have hclient := h.client
  unfold ClientOk at hclient
  have hmove := clientStep_move hs
  clear hs
  cases hmove with
  | connect hpc | usage hpc =>
    rw [hpc] at hclient
    exact hclient.elim
  | options hpc hs => exact h.optionsClient_inv hpc hs
  | receive hpc hs => exact h.readSegmentIdFromServer_inv hpc hw hs
  | attach hpc => exact h.attachSegment_inv hpc _
  | acknowledge hpc hs => exact h.synchronizeWithServer_inv hpc hs
  | insert hpc hs => exact h.insertClient_inv hpc hs

theorem handshakeStep_inv (h : HandshakeInv s) {a : HandshakeAction} (hw : a.Whole)
    (hs : handshakeStep s a = some t) : HandshakeInv t := by
  unfold handshakeStep at hs
  split at hs
  · obtain rfl := Option.some.inj hs
    refine { h with pending := ?_ }
    intro ha hf
    obtain ⟨hempty, hzero, hclosed⟩ := h.pending ha hf
    refine ⟨hempty, hzero, ?_⟩
    intro hsync
    simp [Function.update_apply, hclosed hsync]
  · rcases Option.or_eq_some_iff.mp hs with hs | ⟨-, hs⟩
    · exact h.serverStep_inv hs
    · exact h.clientStep_inv hw hs

/-- The invariant says what success is to mean. -/
theorem agreement (h : HandshakeInv s) : Agreement s := by
  have hserver : s.succeeded .server → s.server.synchronized = true ∧
      s.server ≠ .returned ERROR ∧
      ∃ id, s.created = some id ∧ s.session .server = some { connection := some id } := by
    rintro ⟨code, hpc, hne⟩
    have := h.server
    rw [ServerOk, hpc] at this
    exact ⟨by simp [hpc, ServerPc.synchronized, hne], by simpa [hpc] using hne, this hne⟩
  have hclient : s.succeeded .client → s.client.acknowledged = true ∧ s.client.failed = false ∧
      s.Received ∧
      ∃ id, s.created = some id ∧ s.session .client = some { connection := some id } := by
    rintro ⟨code, hpc, hne⟩
    have := h.client
    rw [ClientOk, hpc] at this
    exact ⟨by simp [hpc, ClientPc.acknowledged, hne], by simp [hpc, ClientPc.failed, hne],
      this hne⟩
  refine ⟨?_, ?_, ?_⟩
  · intro side hs
    cases side with
    | server => exact (hserver hs).2.2
    | client => exact (hclient hs).2.2.2
  · intro hboth
    obtain ⟨-, hrunning, id, hcreated, -⟩ := hserver (hboth .server)
    obtain ⟨hack, hlive, -⟩ := hclient (hboth .client)
    have hcount := h.counted id hcreated hrunning hlive
    have htwo : s.client.users = 2 := by
      unfold ClientPc.users
      split
      · rfl
      · rw [if_pos hack]
    refine ⟨id, _, hcreated, hcount, htwo, ?_⟩
    simp [connectionPeerDied, htwo]
  · intro hboth
    obtain ⟨hsync, -⟩ := hserver (hboth .server)
    obtain ⟨hack, -, hreceived, -⟩ := hclient (hboth .client)
    obtain ⟨hempty, hone⟩ := (h.acknowledged hack).2 hsync
    refine ⟨hreceived.2, hone, ?_⟩
    intro side
    cases side with
    | server => exact hempty
    | client => exact hreceived.1

end HandshakeInv

/-- **The two sides of a handshake agree** at every moment of a run in which the segment number
is never read in part. -/
theorem handshake_agreement {segments : Nat → Option Segment} {bridge : Side → Bridge}
    {fd : Side → Int} {descriptors : Int → Bool} {as : List HandshakeAction} {t : Handshake}
    (hb : ∀ side, BridgeInv (bridge side)) (hw : ∀ a ∈ as, a.Whole)
    (h : Run.Visits handshakeStep (.init segments bridge fd descriptors) as t) : Agreement t := by
  have hmeets : Run.Meets handshakeStep (fun _ a => a.Whole)
      (.init segments bridge fd descriptors) as := Run.meets_of_forall fun a ha _ => hw a ha
  have hinv : HandshakeInv t := Run.visits_induct
    (fun _ _ _ hi hwhole hs => hi.handshakeStep_inv hwhole hs) (handshakeInv_init hb) hmeets h
  exact hinv.agreement

/-- Fresh processes on a machine where segment 0 belongs to another connection. -/
private def strangers : Handshake :=
  .init (fun id => if id = 0 then some { openCount := 2 } else none) (fun _ => .initial)
    (fun side => if side = .server then 5 else 3) fun _ => false

/-- A handshake about segment 256, whose number the client reads with `receive`. -/
private def acquaintance (receive : HandshakeAction) : List HandshakeAction :=
  [.options .server, .options .client, .create true 256, .send (.count 4), receive,
    .attach true, .acknowledge (.count 1), .insert .client, .synchronize (.count 1),
    .insert .server]

theorem handshake_agreement_at :
    ∃ t, Run.run handshakeStep strangers
        (acquaintance (.receive (.count 4) [7, 7, 7, 7])) = some t ∧
      t.server = .returned 5 ∧ t.client = .returned SUCCESS ∧ Agreement t := by
  have hrun : (Run.run handshakeStep strangers
      (acquaintance (.receive (.count 4) [7, 7, 7, 7]))).any (fun t =>
        t.server = .returned 5 && t.client = .returned SUCCESS) = true := by
    decide +kernel
  obtain ⟨t, ht, hp⟩ := Option.any_eq_true _ _ |>.mp hrun
  obtain ⟨hserver, hclient⟩ := Bool.and_eq_true_iff.mp hp
  refine ⟨t, ht, of_decide_eq_true hserver, of_decide_eq_true hclient, ?_⟩
  refine handshake_agreement (fun _ => bridgeInv_initial) ?_ (Run.visits_self ht)
  simp [acquaintance, HandshakeAction.Whole]

/-- **A part of the number names another segment**: one byte of the four reaches the client in
its read, and both calls return success. -/
theorem handshake_disagreement :
    ∃ t, Run.run handshakeStep strangers
        (acquaintance (.receive (.count 1) [7, 0, 0, 0])) = some t ∧
      t.server = .returned 5 ∧ t.client = .returned SUCCESS ∧ ¬ Agreement t := by
  have hrun : (Run.run handshakeStep strangers
      (acquaintance (.receive (.count 1) [7, 0, 0, 0]))).any (fun t =>
        t.server = .returned 5 && t.client = .returned SUCCESS && t.created = some 256 &&
          t.session .client = some { connection := some 0 }) = true := by
    decide +kernel
  obtain ⟨t, ht, hp⟩ := Option.any_eq_true _ _ |>.mp hrun
  simp only [Bool.and_eq_true, decide_eq_true_eq] at hp
  obtain ⟨⟨⟨hserver, hclient⟩, hcreated⟩, hsession⟩ := hp
  refine ⟨t, ht, hserver, hclient, ?_⟩
  intro h
  obtain ⟨id, hid, hfound⟩ := h.session .client ⟨_, hclient, by decide⟩
  rw [hcreated] at hid
  rw [hsession] at hfound
  cases hid
  cases hfound

end Tssx
