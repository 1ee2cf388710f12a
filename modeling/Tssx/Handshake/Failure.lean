import Tssx.Handshake

/-!
# A set-up that fails

One call of `accept` or `connect` that returns `ERROR`, from any state of its process: what
it leaves of its resources.  `accept` never closes the descriptor of `real_accept` and, when
the byte of the client cannot be read, does not disconnect the segment that it has made.
`connect` remains a user of the segment when its own byte cannot be written.  The other
failures leave nothing (`failed_setup_iff`).
-/

namespace Tssx

/-- The segments that have not been removed, with their users. -/
def Handshake.existing (s : Handshake) (id : Nat) : Option Int :=
  ((s.segments id).filter fun segment => !segment.removed).map Segment.openCount

/-- The state after a call of `side` is the one before in all that the call acquires. -/
structure LeftNothing (side : Side) (s t : Handshake) : Prop where
  sessions : (t.bridge side).sessionTable = (s.bridge side).sessionTable
  segments : ∀ id, t.existing id = s.existing id
  descriptors : side = .server → t.descriptors = s.descriptors

/-- One step of the call of a side. -/
def setupStep : Side → Handshake → HandshakeAction → Option Handshake
  | .server => serverStep
  | .client => clientStep

/-- The call of a side begins. -/
def Handshake.begins (s : Handshake) : Side → Prop
  | .server => s.server = .accept
  | .client => s.client = .connect

def Handshake.failed (s : Handshake) : Side → Prop
  | .server => s.server = .returned ERROR
  | .client => s.client = .returned ERROR

/-- The failure is one that the call undoes, or needs not to: of `accept` that of
`real_accept`, of `connect` any but that of the byte. -/
def FailsClean : Side → List HandshakeAction → Prop
  | .server, as => .accept none ∈ as
  | .client, as => .acknowledge .error ∉ as

/-! ### The server -/

/-- The segments before a step of `accept`, those at its beginning being `s`'s. -/
def ServerPc.Acquired (s u : Handshake) : ServerPc → Prop
  | .send id | .synchronize id => s.segments id = none ∧
      u.segments = Function.update s.segments id (some createConnection)
  | .insert _ => True
  | .returned code => code = ERROR → ∀ id, u.existing id = s.existing id
  | _ => u.segments = s.segments

/-- What `accept` has acquired at a step. -/
structure ServerTrail (s u : Handshake) : Prop where
  bridge : BridgeInv (u.bridge .server)
  sessions : (∀ code, u.server = .returned code → code = ERROR) →
    (u.bridge .server).sessionTable = (s.bridge .server).sessionTable
  descriptors :
    if u.server = .accept then u.descriptors = s.descriptors
    else ∃ fd, s.descriptors fd = false ∧ u.descriptors fd = true
  segments : u.server.Acquired s u

theorem serverTrail_begins {s : Handshake} (hb : BridgeInv (s.bridge .server))
    (h : s.begins .server) : ServerTrail s s := by
  have hpc : s.server = .accept := h
  refine ⟨hb, fun _ => rfl, ?_, ?_⟩
  · rw [if_pos hpc]
  · rw [hpc]
    rfl

theorem existing_congr {s u : Handshake} (h : u.segments = s.segments) (id : Nat) :
    u.existing id = s.existing id := by
  rw [Handshake.existing, h, Handshake.existing]

theorem bridgeInsert_ne_error {bridge bridge' : Bridge} {fd : Int} {session : Session}
    (hb : BridgeInv bridge) (h : bridgeInsert bridge fd session = some bridge') : fd ≠ ERROR := by
  rintro rfl
  have hfree := (bridgeInsert_table hb h).1
  have hlt := (List.getElem?_eq_some_iff.mp hfree).1
  rw [bridge.sessionTable.size] at hlt
  exact absurd hlt (by decide)

namespace ServerTrail

variable {s u t : Handshake} {io : Io}

theorem goto (h : ServerTrail s u) {pc : ServerPc} (hopen : u.server ≠ .accept)
    (hpc : pc ≠ .accept) (hrunning : ∀ code, u.server = .returned code → code = ERROR)
    (hsegments : pc.Acquired s u) : ServerTrail s { u with server := pc } := by
  have hdescriptors := h.descriptors
  rw [if_neg hopen] at hdescriptors
  refine ⟨h.bridge, fun _ => h.sessions hrunning, ?_, ?_⟩
  · rw [if_neg hpc]
    exact hdescriptors
  · cases pc <;> exact hsegments

theorem accept_trail (h : ServerTrail s u) (hpc : u.server = .accept) {fd : Int}
    (hs : accept u (some fd) = some t) : ServerTrail s t := by
  have hsegments := h.segments
  have hdescriptors := h.descriptors
  rw [if_pos hpc] at hdescriptors
  rw [hpc] at hsegments
  simp only [accept] at hs
  split at hs
  · rename_i hfd
    obtain rfl := Option.some.inj hs
    refine ⟨h.bridge, fun _ => h.sessions (by simp [hpc]), ⟨fd, ?_, ?_⟩, hsegments⟩
    · rw [← hdescriptors]
      exact hfd.2
    · simp
  · cases hs

theorem opened (h : ServerTrail s u) (hopen : u.server ≠ .accept) :
    ∃ fd, s.descriptors fd = false ∧ u.descriptors fd = true := by
  have hdescriptors := h.descriptors
  rwa [if_neg hopen] at hdescriptors

theorem options_trail (h : ServerTrail s u) (hpc : u.server = .options) {bridge : Bridge}
    {session : Session}
    (hs : bridgeLookup (u.bridge .server) (u.fd .server) = some (bridge, session)) :
    ServerTrail s { u.setBridge .server bridge with server := .create } := by
  obtain ⟨hb, htable, -⟩ := bridgeLookup_table h.bridge hs
  have hsegments := h.segments
  rw [hpc] at hsegments
  refine ⟨?_, fun _ => ?_, h.opened (by simp [hpc]), hsegments⟩
  · simpa [Handshake.setBridge] using hb
  · simpa [Handshake.setBridge, htable] using h.sessions (by simp [hpc])

theorem create_trail (h : ServerTrail s u) (hpc : u.server = .create) {allocated : Bool}
    {id : Nat} (hs : createSegment u allocated id = some t) : ServerTrail s t := by
  have hsegments := h.segments
  rw [hpc] at hsegments
  unfold createSegment at hs
  split at hs
  · split at hs
    · rename_i hid
      obtain rfl := Option.some.inj hs
      have hnew : u.segments = s.segments := hsegments
      refine ⟨h.bridge, fun _ => h.sessions (by simp [hpc]), h.opened (by simp [hpc]), ?_⟩
      dsimp only [Handshake.setSegment]
      rw [hnew] at hid ⊢
      exact ⟨hid.1, rfl⟩
    · cases hs
  · obtain rfl := Option.some.inj hs
    exact h.goto (by simp [hpc]) (by simp) (by simp [hpc]) fun _ => existing_congr hsegments

theorem send_trail (h : ServerTrail s u) {id : Nat} (hpc : u.server = .send id)
    (hs : sendSegmentIdToClient u id io = some t) : ServerTrail s t := by
  have hsegments := h.segments
  rw [hpc] at hsegments
  obtain ⟨hfresh, hcreated⟩ := hsegments
  cases io with
  | error =>
    simp only [sendSegmentIdToClient, hcreated, Function.update_self] at hs
    obtain rfl := Option.some.inj hs
    refine ⟨h.bridge, fun _ => h.sessions (by simp [hpc]), h.opened (by simp [hpc]), ?_⟩
    -- `disconnect` has removed the only segment that was new
    intro _ i
    simp only [Handshake.existing, Handshake.setSegment, hcreated]
    by_cases hi : i = id
    · subst hi
      simp [hfresh, Segment.fetchSub, createConnection]
    · simp [Function.update_of_ne hi]
  | count n =>
    obtain ⟨v, hw, rfl⟩ := Option.map_eq_some_iff.mp hs
    obtain ⟨-, -, -, rfl⟩ := Handshake.write_eq hw
    have hgoto : ServerTrail s { u with server := .synchronize id } :=
      h.goto (by simp [hpc]) (by simp) (by simp [hpc]) ⟨hfresh, hcreated⟩
    exact ⟨hgoto.bridge, hgoto.sessions, hgoto.descriptors, hgoto.segments⟩

theorem synchronize_trail (h : ServerTrail s u) {id n : Nat} (hpc : u.server = .synchronize id)
    (hs : synchronizeWithClient u id (.count n) = some t) : ServerTrail s t := by
  obtain ⟨⟨v, bytes⟩, hr, rfl⟩ := Option.map_eq_some_iff.mp hs
  obtain ⟨-, -, -, -, rfl⟩ := Handshake.read_eq hr
  have hgoto : ServerTrail s { u with server := .insert id } :=
    h.goto (by simp [hpc]) (by simp) (by simp [hpc]) trivial
  exact ⟨hgoto.bridge, hgoto.sessions, hgoto.descriptors, trivial⟩

theorem insert_trail (h : ServerTrail s u) {id : Nat} (hpc : u.server = .insert id)
    {bridge : Bridge}
    (hs : bridgeInsert (u.bridge .server) (u.fd .server) { connection := some id } =
      some bridge) :
    ServerTrail s
      { u.setBridge .server bridge with server := .returned (u.fd .server) } := by
  have hfd := bridgeInsert_ne_error h.bridge hs
  refine ⟨?_, fun herror => absurd (herror _ rfl) hfd, h.opened (by simp [hpc]),
    fun herror => absurd herror hfd⟩
  have hb := (@bridgeInsert_spec _ _ _ _ 0 h.bridge hs).1
  simpa [Handshake.setBridge] using hb

theorem serverStep_trail (h : ServerTrail s u) {a : HandshakeAction} (haccept : a ≠ .accept none)
    (hsync : a ≠ .synchronize .error) (hs : serverStep u a = some t) : ServerTrail s t := by
  have hmove := serverStep_move hs
  clear hs
  cases hmove with
  | @accept result _ hpc hs =>
    cases result with
    | none => exact absurd rfl haccept
    | some fd => exact h.accept_trail hpc hs
  | usage hpc =>
    have hsegments := h.segments
    rw [hpc] at hsegments
    apply h.goto (by simp [hpc]) (by split_ifs <;> simp) (by simp [hpc])
    split_ifs
    · exact fun _ => existing_congr hsegments
    · exact fun _ => existing_congr hsegments
    · exact hsegments
  | options hpc hs => exact h.options_trail hpc hs
  | create hpc hs => exact h.create_trail hpc hs
  | send hpc hs => exact h.send_trail hpc hs
  | @synchronize id io _ hpc hs =>
    cases io with
    | error => exact absurd rfl hsync
    | count n => exact h.synchronize_trail hpc hs
  | insert hpc hs => exact h.insert_trail hpc hs

end ServerTrail

/-! ### The client -/

/-- The segments before a step of `connect`. -/
def ClientPc.Acquired (s u : Handshake) : ClientPc → Prop
  | .acknowledge id => ∃ n, s.existing id = some n ∧ u.existing id = some (n + 1)
  | .insert _ | .exited => True
  | .returned code => code = ERROR → u.segments = s.segments
  | _ => u.segments = s.segments

/-- What `connect` has acquired at a step. -/
structure ClientTrail (s u : Handshake) : Prop where
  bridge : BridgeInv (u.bridge .client)
  sessions : (∀ code, u.client = .returned code → code = ERROR) →
    (u.bridge .client).sessionTable = (s.bridge .client).sessionTable
  segments : u.client.Acquired s u

theorem clientTrail_begins {s : Handshake} (hb : BridgeInv (s.bridge .client))
    (h : s.begins .client) : ClientTrail s s := by
  have hpc : s.client = .connect := h
  refine ⟨hb, fun _ => rfl, ?_⟩
  rw [hpc]
  rfl

namespace ClientTrail

variable {s u t : Handshake} {io : Io}

theorem goto (h : ClientTrail s u) {pc : ClientPc}
    (hrunning : ∀ code, u.client = .returned code → code = ERROR)
    (hsegments : pc.Acquired s u) : ClientTrail s { u with client := pc } := by
  refine ⟨h.bridge, fun _ => h.sessions hrunning, ?_⟩
  cases pc <;> exact hsegments

theorem options_trail (h : ClientTrail s u) (hpc : u.client = .options) {bridge : Bridge}
    {session : Session}
    (hs : bridgeLookup (u.bridge .client) (u.fd .client) = some (bridge, session)) :
    ClientTrail s { u.setBridge .client bridge with client := .receive } := by
  obtain ⟨hb, htable, -⟩ := bridgeLookup_table h.bridge hs
  have hsegments := h.segments
  rw [hpc] at hsegments
  refine ⟨?_, fun _ => ?_, hsegments⟩
  · simpa [Handshake.setBridge] using hb
  · simpa [Handshake.setBridge, htable] using h.sessions (by simp [hpc])

theorem receive_trail (h : ClientTrail s u) (hpc : u.client = .receive) {garbage : List UInt8}
    (hs : readSegmentIdFromServer u io garbage = some t) : ClientTrail s t := by
  have hsegments := h.segments
  rw [hpc] at hsegments
  cases io with
  | error =>
    obtain rfl := Option.some.inj hs
    exact h.goto (by simp [hpc]) fun _ => hsegments
  | count n =>
    simp only [readSegmentIdFromServer] at hs
    split at hs
    · obtain ⟨⟨v, bytes⟩, hr, rfl⟩ := Option.map_eq_some_iff.mp hs
      obtain ⟨-, -, -, -, rfl⟩ := Handshake.read_eq hr
      refine ⟨h.bridge, fun _ => h.sessions (by simp [hpc]), ?_⟩
      generalize intOfBytes _ = id
      by_cases herror : id = ERROR
      · rw [if_pos herror]
        exact fun _ => hsegments
      · rw [if_neg herror]
        exact hsegments
    · cases hs

theorem attach_trail (h : ClientTrail s u) {i : Int} (hpc : u.client = .attach i)
    (allocated : Bool) : ClientTrail s (attachSegment u i allocated) := by
  have hsegments := h.segments
  rw [hpc] at hsegments
  unfold attachSegment
  split
  · split
    · rename_i segment hattach
      refine ⟨h.bridge, fun _ => h.sessions (by simp [hpc]), segment.openCount, ?_⟩
      unfold Handshake.attachable at hattach
      split at hattach
      · obtain ⟨hfound, hlive⟩ := Option.filter_eq_some_iff.mp hattach
        have hbefore : s.segments i.toNat = some segment := hsegments ▸ hfound
        constructor
        · simp [Handshake.existing, hbefore, Option.filter, hlive]
        · rw [Handshake.existing]
          dsimp only [Handshake.setSegment]
          rw [Function.update_self, Option.filter, setupConnection, if_pos hlive]
          rfl
      · cases hattach
    · exact h.goto (by simp [hpc]) trivial
  · exact h.goto (by simp [hpc]) fun _ => hsegments

theorem acknowledge_trail (h : ClientTrail s u) {id n : Nat} (hpc : u.client = .acknowledge id)
    (hs : synchronizeWithServer u id (.count n) = some t) : ClientTrail s t := by
  obtain ⟨v, hw, rfl⟩ := Option.map_eq_some_iff.mp hs
  obtain ⟨-, -, -, rfl⟩ := Handshake.write_eq hw
  exact ⟨h.bridge, fun _ => h.sessions (by simp [hpc]), trivial⟩

theorem insert_trail (h : ClientTrail s u) {id : Nat} {bridge : Bridge}
    (hs : bridgeInsert (u.bridge .client) (u.fd .client) { connection := some id } =
      some bridge) :
    ClientTrail s { u.setBridge .client bridge with client := .returned SUCCESS } := by
  refine ⟨?_, fun herror => absurd (herror _ rfl) (by decide),
    fun herror => absurd herror (by decide)⟩
  have hb := (@bridgeInsert_spec _ _ _ _ 0 h.bridge hs).1
  simpa [Handshake.setBridge] using hb

theorem clientStep_trail (h : ClientTrail s u) {a : HandshakeAction}
    (hack : a ≠ .acknowledge .error) (hs : clientStep u a = some t) : ClientTrail s t := by
  have hmove := clientStep_move hs
  clear hs
  have hsegments := h.segments
  cases hmove with
  | connect hpc =>
    rw [hpc] at hsegments
    apply h.goto (by simp [hpc])
    split_ifs
    · exact hsegments
    · exact fun _ => hsegments
  | usage hpc =>
    rw [hpc] at hsegments
    apply h.goto (by simp [hpc])
    split_ifs
    · exact fun _ => hsegments
    · exact fun _ => hsegments
    · exact hsegments
  | options hpc hs => exact h.options_trail hpc hs
  | receive hpc hs => exact h.receive_trail hpc hs
  | attach hpc => exact h.attach_trail hpc _
  | @acknowledge id io _ hpc hs =>
    cases io with
    | error => exact absurd rfl hack
    | count n => exact h.acknowledge_trail hpc hs
  | insert hpc hs => exact h.insert_trail hs

end ClientTrail

/-! ### The two calls -/

section Calls

variable {s t : Handshake} {as : List HandshakeAction}

theorem serverStep_failed (h : s.server = .returned ERROR) (a : HandshakeAction) :
    serverStep s a = none := by
  cases a with
  | usage side _ | options side | insert side => cases side <;> simp [serverStep, h]
  | _ => simp [serverStep, h]

theorem clientStep_failed (h : s.client = .returned ERROR) (a : HandshakeAction) :
    clientStep s a = none := by
  cases a with
  | usage side _ | options side | insert side => cases side <;> simp [clientStep, h]
  | _ => simp [clientStep, h]

theorem accept_fails (h : serverStep s (.accept none) = some t) :
    s.server = .accept ∧ t = { s with server := .returned ERROR } := by
  cases serverStep_move h with
  | accept hpc hs => exact ⟨hpc, (Option.some.inj hs).symm⟩

theorem synchronize_fails (h : serverStep s (.synchronize .error) = some t) :
    ∃ id, s.server = .synchronize id ∧ t = { s with server := .returned ERROR } := by
  cases serverStep_move h with
  | synchronize hpc hs => exact ⟨_, hpc, (Option.some.inj hs).symm⟩

theorem acknowledge_fails (h : clientStep s (.acknowledge .error) = some t) :
    ∃ id, s.client = .acknowledge id ∧ t = { s with client := .returned ERROR } := by
  cases clientStep_move h with
  | acknowledge hpc hs => exact ⟨_, hpc, (Option.some.inj hs).symm⟩

/-- **What a failed `accept` leaves**: never a session, the descriptor unless `real_accept`
failed, and the segment exactly if the byte of the client could not be read. -/
theorem failed_accept (hb : BridgeInv (s.bridge .server)) (hbegin : s.begins .server)
    (hrun : Run.run serverStep s as = some t) (herror : t.failed .server) :
    (t.bridge .server).sessionTable = (s.bridge .server).sessionTable ∧
      (t.descriptors = s.descriptors ↔ .accept none ∈ as) ∧
      ((∀ id, t.existing id = s.existing id) ↔ .synchronize .error ∉ as) ∧
      (.accept none ∈ as → .synchronize .error ∉ as) := by
  have hpc : t.server = .returned ERROR := herror
  have htrail : ∀ {bs u}, (∀ b ∈ bs, ¬ (b = .accept none ∨ b = .synchronize .error)) →
      Run.run serverStep s bs = some u → ServerTrail s u := by
    intro bs u hbs hu
    refine Run.meets_induct (fun _ _ _ hi hne hstep => ?_) (serverTrail_begins hb hbegin)
      (Run.meets_of_forall fun a ha _ => hbs a ha) hu
    exact hi.serverStep_trail (fun he => hne (.inl he)) (fun he => hne (.inr he)) hstep
  have hends : ∀ u v (a b : HandshakeAction), (a = .accept none ∨ a = .synchronize .error) →
      serverStep u a = some v → serverStep v b = none := by
    rintro u v a b (rfl | rfl) hstep
    · obtain ⟨-, rfl⟩ := accept_fails hstep
      exact serverStep_failed rfl b
    · obtain ⟨id, -, rfl⟩ := synchronize_fails hstep
      exact serverStep_failed rfl b
  have hopen : ∀ {fd} {u : Handshake}, s.descriptors fd = false → u.descriptors fd = true →
      u.descriptors ≠ s.descriptors := by
    intro fd u hfree hused he
    rw [he, hfree] at hused
    cases hused
  rcases Run.run_ends hends hrun with hnone | ⟨bs, a, u, rfl, ha, hbs, hu, hlast⟩
  · have h := htrail hnone hrun
    have hdescriptors := h.descriptors
    have hsegments := h.segments
    rw [hpc] at hdescriptors hsegments
    obtain ⟨fd, hfree, hused⟩ := hdescriptors
    have hread : .synchronize .error ∉ as := fun hmem => hnone _ hmem (.inr rfl)
    refine ⟨h.sessions (by simp [hpc]), ?_, iff_of_true (hsegments rfl) hread, fun _ => hread⟩
    exact iff_of_false (hopen hfree hused) fun hmem => hnone _ hmem (.inl rfl)
  · have h := htrail hbs hu
    have hdescriptors := h.descriptors
    have hsegments := h.segments
    rcases ha with rfl | rfl
    · obtain ⟨hu', rfl⟩ := accept_fails hlast
      rw [if_pos hu'] at hdescriptors
      rw [hu'] at hsegments
      have hread : .synchronize .error ∉ bs ++ [.accept none] := by
        intro hmem
        rcases List.mem_append.mp hmem with hmem | hmem
        · exact hbs _ hmem (.inr rfl)
        · simp at hmem
      exact ⟨h.sessions (by simp [hu']), iff_of_true hdescriptors (by simp),
        iff_of_true (existing_congr hsegments) hread, fun _ => hread⟩
    · obtain ⟨id, hu', rfl⟩ := synchronize_fails hlast
      rw [hu'] at hdescriptors hsegments
      obtain ⟨fd, hfree, hused⟩ := hdescriptors
      obtain ⟨hfresh, hcreated⟩ := hsegments
      have haccept : .accept none ∉ bs ++ [.synchronize .error] := by
        intro hmem
        rcases List.mem_append.mp hmem with hmem | hmem
        · exact hbs _ hmem (.inl rfl)
        · simp at hmem
      refine ⟨h.sessions (by simp [hu']), iff_of_false (hopen hfree hused) haccept, ?_,
        fun hmem => absurd hmem haccept⟩
      refine iff_of_false ?_ (by simp)
      intro hsame
      have he := hsame id
      simp [Handshake.existing, hcreated, hfresh, createConnection, Option.filter] at he

/-- **What a failed `connect` leaves**: never a session, and a user of the segment exactly if
the byte could not be written. -/
theorem failed_connect (hb : BridgeInv (s.bridge .client)) (hbegin : s.begins .client)
    (hrun : Run.run clientStep s as = some t) (herror : t.failed .client) :
    (t.bridge .client).sessionTable = (s.bridge .client).sessionTable ∧
      ((∀ id, t.existing id = s.existing id) ↔ .acknowledge .error ∉ as) := by
  have hpc : t.client = .returned ERROR := herror
  have htrail : ∀ {bs u}, (∀ b ∈ bs, ¬ b = .acknowledge .error) →
      Run.run clientStep s bs = some u → ClientTrail s u := by
    intro bs u hbs hu
    exact Run.meets_induct (fun _ _ _ hi hne hstep => hi.clientStep_trail hne hstep)
      (clientTrail_begins hb hbegin) (Run.meets_of_forall fun a ha _ => hbs a ha) hu
  have hends : ∀ u v (a b : HandshakeAction), a = .acknowledge .error →
      clientStep u a = some v → clientStep v b = none := by
    rintro u v a b rfl hstep
    obtain ⟨id, -, rfl⟩ := acknowledge_fails hstep
    exact clientStep_failed rfl b
  rcases Run.run_ends hends hrun with hnone | ⟨bs, a, u, rfl, rfl, hbs, hu, hlast⟩
  · have h := htrail hnone hrun
    have hsegments := h.segments
    rw [hpc] at hsegments
    refine ⟨h.sessions (by simp [hpc]), ?_⟩
    exact iff_of_true (existing_congr (hsegments rfl)) fun hmem => hnone _ hmem rfl
  · have h := htrail hbs hu
    obtain ⟨id, hu', rfl⟩ := acknowledge_fails hlast
    have hsegments := h.segments
    rw [hu'] at hsegments
    obtain ⟨n, hbefore, hafter⟩ := hsegments
    refine ⟨h.sessions (by simp [hu']), iff_of_false ?_ (by simp)⟩
    intro hsame
    have he : u.existing id = s.existing id := hsame id
    rw [hbefore, hafter] at he
    exact absurd (Option.some.inj he) (by omega)

end Calls

/-- **A failed set-up leaves nothing behind** only if `real_accept` has failed, or in a
`connect` whose byte was not the failure. -/
theorem failed_setup_iff {side : Side} {s t : Handshake} {as : List HandshakeAction}
    (hb : BridgeInv (s.bridge side)) (hbegin : s.begins side)
    (hrun : Run.run (setupStep side) s as = some t) (herror : t.failed side) :
    LeftNothing side s t ↔ FailsClean side as := by
  cases side with
  | server =>
    obtain ⟨hsessions, hdescriptors, hsegments, hread⟩ := failed_accept hb hbegin hrun herror
    refine ⟨fun h => hdescriptors.mp (h.descriptors rfl), ?_⟩
    intro hclean
    exact ⟨hsessions, hsegments.mpr (hread hclean), fun _ => hdescriptors.mpr hclean⟩
  | client =>
    obtain ⟨hsessions, hsegments⟩ := failed_connect hb hbegin hrun herror
    refine ⟨fun h => hsegments.mp h.segments, ?_⟩
    intro hclean
    exact ⟨hsessions, hsegments.mpr hclean, fun hc => by cases hc⟩

/-- Two processes before their calls; the number of segment 7 has been sent. -/
private def callers : Handshake where
  segments := fun id => if id = 7 then some { openCount := 1 } else none
  stream := fun side => if side = .client then intBytes 7 else []
  closed := fun _ => false
  consumed := fun _ => 0
  server := .accept
  client := .connect
  bridge := fun _ => .initial
  fd := fun _ => 3
  descriptors := fun fd => fd == 4
  created := none

/-- The number cannot be read. -/
private def unread : List HandshakeAction :=
  [.connect true, .usage .client 1, .options .client, .receive .error []]

theorem failed_setup_iff_at :
    ∃ t, Run.run (setupStep .client) callers unread = some t ∧ t.failed .client ∧
      (LeftNothing .client callers t ↔ FailsClean .client unread) := by
  have hrun : (Run.run clientStep callers unread).any
      (fun t => t.client = .returned ERROR) = true := by
    decide +kernel
  obtain ⟨t, ht, hp⟩ := Option.any_eq_true _ _ |>.mp hrun
  have herror : t.client = .returned ERROR := of_decide_eq_true hp
  exact ⟨t, ht, herror, failed_setup_iff bridgeInv_initial rfl ht herror⟩

/-- **The byte of the client cannot be read**: `accept` returns an error, and its descriptor is
open and its segment has a user. -/
theorem failed_setup_leaks :
    ∃ t, Run.run (setupStep .server) callers
        [.accept (some 5), .usage .server 1, .options .server, .create true 0, .send (.count 4),
          .synchronize .error] = some t ∧ t.failed .server ∧ t.descriptors 5 = true ∧
      t.existing 0 = some 1 ∧ ¬ LeftNothing .server callers t := by
  have hrun : (Run.run serverStep callers
      [.accept (some 5), .usage .server 1, .options .server, .create true 0, .send (.count 4),
        .synchronize .error]).any (fun t => t.server = .returned ERROR && t.descriptors 5 &&
          t.existing 0 = some 1) = true := by
    decide +kernel
  obtain ⟨t, ht, hp⟩ := Option.any_eq_true _ _ |>.mp hrun
  simp only [Bool.and_eq_true, decide_eq_true_eq] at hp
  obtain ⟨⟨herror, hopen⟩, hsegment⟩ := hp
  refine ⟨t, ht, herror, hopen, hsegment, ?_⟩
  intro h
  have := h.segments 0
  rw [hsegment] at this
  exact absurd this (by decide)

end Tssx
