import Tssx.Bridge
import Tssx.Epoll.Instance
import Tssx.Lib.Run

/-!
# Descriptors, sessions and epoll entries

One process sets up connections, closes descriptors and registers them with epoll instances.
An epoll entry has a pointer to the connection of its descriptor.  `close` of a descriptor
releases the connection, and no epoll instance hears of it: the entries are live throughout a
run if and only if no descriptor is closed while an instance has an entry for it.
-/

namespace Tssx

/-- The global tables of a process, after `epoll_create`. -/
structure Tables where
  memory : Memory
  bridge : Bridge
  /-- `_epoll_instances`. -/
  epolls : Nat → EpollInstance
  /-- The number of connections set up so far, which names the next one. -/
  nextConnection : Nat

def Tables.init : Tables where
  memory := { segment := fun _ => { openCount := 0 } }
  bridge := .initial
  epolls := fun _ => .zero
  nextConnection := 0

def epollInstanceSize (s : Tables) (epfd : Int) : Option Int :=
  if 2 < epfd ∧ epfd < NUMBER_OF_EPOLL_INSTANCES then
    let epoll := s.epolls epfd.toNat
    some (int32 (epoll.tssxCount + epoll.normalCount))
  else none

def hasEpollInstanceAssociated (s : Tables) (epfd : Int) : Option Bool :=
  if 0 < epfd then (epollInstanceSize s epfd).map fun size => decide (0 < size) else none

def closeEpollInstance (s : Tables) (epfd : Int) : Option Tables :=
  if 0 < epfd ∧ epfd < NUMBER_OF_EPOLL_INSTANCES then
    some { s with
      epolls := Function.update s.epolls epfd.toNat (s.epolls epfd.toNat).close }
  else none

/-- `close`, up to `real_close`. -/
def close (s : Tables) (fd : Int) : Option Tables :=
  (hasEpollInstanceAssociated s fd).bind fun associated =>
    if associated then closeEpollInstance s fd
    else
      (bridgeErase s.memory s.bridge fd).map fun (memory, bridge) => { s with memory, bridge }

/-- `epoll_ctl`; `real` is what `real_epoll_ctl` returns if it is called. -/
def epollCtl (allocated : Bool) (real : Int) (s : Tables) (epfd operation fd : Int)
    (event : EpollEvent) : Option (Int × Tables) :=
  if fd < 0 then some (ERROR, s)
  else
    (bridgeLookup s.bridge fd).bind fun (bridge, session) =>
      if 0 ≤ epfd ∧ epfd < NUMBER_OF_EPOLL_INSTANCES then
        let epoll := s.epolls epfd.toNat
        (match session.connection with
          | some connection =>
            epollTssxControlOperation allocated epoll operation fd event connection
          | none => epollNormalControlOperation real epoll operation).map fun (code, epoll) =>
            (code, { s with bridge, epolls := Function.update s.epolls epfd.toNat epoll })
      else none

/-- The end of `accept` or `connect`: a new connection for a new descriptor. -/
def setUp (s : Tables) (fd : Int) : Option Tables :=
  (bridgeInsert s.bridge fd { connection := some s.nextConnection }).map fun bridge =>
    { s with
      memory := s.memory.set s.nextConnection (setupConnection createConnection)
      bridge
      nextConnection := s.nextConnection + 1 }

inductive TablesAction
  | setUp (fd : CInt)
  | close (fd : CInt)
  | control (epfd operation fd : CInt) (event : EpollEvent) (allocated : Bool) (real : CInt)

/-- The control operations are those that succeed. -/
def tablesStep (s : Tables) : TablesAction → Option Tables
  | .setUp fd => setUp s fd
  | .close fd => close s fd
  | .control epfd operation fd event allocated real =>
    (epollCtl allocated real s epfd operation fd event).bind fun (code, s) =>
      if code = SUCCESS then some s else none

/-- The connection of a descriptor. -/
def Tables.connection (s : Tables) (fd : Int) : Option Nat :=
  s.bridge.sessionTable.sessions[sizeT fd]?.bind Session.connection

/-- Every entry of every instance belongs to the connection of its descriptor, which has not
been released. -/
def LiveEntries (s : Tables) : Prop :=
  ∀ epfd < NUMBER_OF_EPOLL_INSTANCES, ∀ entry ∈ (s.epolls epfd).held,
    s.connection entry.fd = some entry.connection ∧ entry.connection ∉ s.memory.freed

/-- If the action is a `close` that reaches the bridge, no instance has an entry for the
descriptor. -/
def NotRegistered (s : Tables) : TablesAction → Prop
  | .close fd => hasEpollInstanceAssociated s fd = some false →
    ∀ epfd < NUMBER_OF_EPOLL_INSTANCES, ∀ entry ∈ (s.epolls epfd).held, entry.fd ≠ fd
  | _ => True

instance (s : Tables) : Decidable (LiveEntries s) :=
  inferInstanceAs (Decidable (∀ epfd < NUMBER_OF_EPOLL_INSTANCES, ∀ entry ∈ _, _))

instance (s : Tables) : ∀ a, Decidable (NotRegistered s a)
  | .close _ => inferInstanceAs
    (Decidable (_ → ∀ epfd < NUMBER_OF_EPOLL_INSTANCES, ∀ entry ∈ _, _))
  | .setUp _ | .control .. => inferInstanceAs (Decidable True)

/-! ### The invariant of the session table -/

structure TablesInv (s : Tables) : Prop where
  bridge : BridgeInv s.bridge
  freed : ∀ c ∈ s.memory.freed, c < s.nextConnection
  fresh : ∀ (i c : Nat), s.bridge.sessionTable.sessions[i]? = some { connection := some c } →
    c < s.nextConnection ∧ c ∉ s.memory.freed
  distinct : ∀ i j c : Nat, s.bridge.sessionTable.sessions[i]? = some { connection := some c } →
    s.bridge.sessionTable.sessions[j]? = some { connection := some c } → i = j
  /-- The descriptors of the entries are of type `int`. -/
  descriptor : ∀ epfd < NUMBER_OF_EPOLL_INSTANCES, ∀ entry ∈ (s.epolls epfd).held,
    ∃ fd : CInt, entry.fd = fd

theorem tablesInv_init : TablesInv .init where
  bridge := bridgeInv_initial
  freed := fun c hc => by cases hc
  fresh := by
    intro i c h
    have := List.eq_of_mem_replicate (List.mem_of_getElem? h)
    cases this
  distinct := by
    intro i j c h
    have := List.eq_of_mem_replicate (List.mem_of_getElem? h)
    cases this
  descriptor := by
    intro epfd _ entry h
    simp [Tables.init, EpollInstance.zero, EpollInstance.held, Vector.zero, Vector.elements] at h

variable {s t : Tables}

theorem connection_eq_some {fd : Int} {c : Nat} :
    s.connection fd = some c ↔
      s.bridge.sessionTable.sessions[sizeT fd]? = some { connection := some c } := by
  rw [Tables.connection, Option.bind_eq_some_iff]
  constructor
  · rintro ⟨⟨_⟩, h, rfl⟩
    exact h
  · intro h
    exact ⟨_, h, rfl⟩

namespace TablesInv

theorem setUp_step (h : TablesInv s) (hl : LiveEntries s) {fd : Int} (hs : setUp s fd = some t) :
    TablesInv t ∧ LiveEntries t := by
  obtain ⟨bridge, hinsert, rfl⟩ := Option.map_eq_some_iff.mp hs
  obtain ⟨hfree, htable⟩ := bridgeInsert_table h.bridge hinsert
  have hnew : ∀ i c : Nat, bridge.sessionTable.sessions[i]? = some { connection := some c } →
      (i = sizeT fd ∧ c = s.nextConnection) ∨
        (i ≠ sizeT fd ∧ s.bridge.sessionTable.sessions[i]? = some { connection := some c }) := by
    intro i c hi
    rw [htable, List.getElem?_set] at hi
    by_cases he : sizeT fd = i
    · rw [if_pos he] at hi
      split at hi
      · exact .inl ⟨he.symm, by simpa [eq_comm] using hi⟩
      · cases hi
    · rw [if_neg he] at hi
      exact .inr ⟨Ne.symm he, hi⟩
  refine ⟨⟨(@bridgeInsert_spec _ _ _ _ 0 h.bridge hinsert).1, ?_, ?_, ?_, h.descriptor⟩, ?_⟩
  · intro c hc
    exact Nat.lt_succ_of_lt (h.freed c hc)
  · intro i c hi
    rcases hnew i c hi with ⟨-, rfl⟩ | ⟨-, hi⟩
    · exact ⟨Nat.lt_succ_self _, fun hc => absurd (h.freed _ hc) (Nat.lt_irrefl _)⟩
    · exact ⟨Nat.lt_succ_of_lt (h.fresh i c hi).1, (h.fresh i c hi).2⟩
  · intro i j c hi hj
    rcases hnew i c hi with ⟨rfl, rfl⟩ | ⟨-, hi⟩
    · rcases hnew j _ hj with ⟨rfl, -⟩ | ⟨-, hj⟩
      · rfl
      · exact absurd (h.fresh j _ hj).1 (Nat.lt_irrefl _)
    · rcases hnew j c hj with ⟨rfl, rfl⟩ | ⟨-, hj⟩
      · exact absurd (h.fresh i _ hi).1 (Nat.lt_irrefl _)
      · exact h.distinct i j c hi hj
  · intro epfd he entry hm
    obtain ⟨hc, hf⟩ := hl epfd he entry hm
    refine ⟨connection_eq_some.mpr ?_, hf⟩
    rw [connection_eq_some] at hc
    show bridge.sessionTable.sessions[sizeT entry.fd]? = _
    rw [htable, List.getElem?_set_ne]
    · exact hc
    · intro he
      rw [← he, hfree] at hc
      cases hc

/-- A `close` that reaches the bridge keeps the entries live if and only if none of them is
for the descriptor. -/
theorem erase_step (h : TablesInv s) (hl : LiveEntries s) {fd : CInt} {memory : Memory}
    {bridge : Bridge} (hs : bridgeErase s.memory s.bridge fd = some (memory, bridge)) :
    TablesInv { s with memory, bridge } ∧ (LiveEntries { s with memory, bridge } ↔
      ∀ epfd < NUMBER_OF_EPOLL_INSTANCES, ∀ entry ∈ (s.epolls epfd).held, entry.fd ≠ fd) := by
  obtain ⟨session, hget, htable, hfreed⟩ := bridgeErase_table h.bridge hs
  have hold : ∀ i c : Nat, bridge.sessionTable.sessions[i]? = some { connection := some c } →
      i ≠ sizeT fd ∧ s.bridge.sessionTable.sessions[i]? = some { connection := some c } := by
    intro i c hi
    rw [htable, List.getElem?_set] at hi
    by_cases he : sizeT fd = i
    · rw [if_pos he] at hi
      split at hi <;> cases hi
    · rw [if_neg he] at hi
      exact ⟨Ne.symm he, hi⟩
  have hother : ∀ i c : Nat, i ≠ sizeT fd →
      s.bridge.sessionTable.sessions[i]? = some { connection := some c } → c ∉ memory.freed := by
    intro i c hne hi hc
    rw [hfreed, List.mem_append] at hc
    rcases hc with hc | hc
    · exact (h.fresh i c hi).2 hc
    · obtain ⟨ref⟩ := session
      cases ref with
      | none => cases hc
      | some ref =>
        obtain rfl : c = ref := by simpa using hc
        exact hne (h.distinct i _ c hi hget)
  refine ⟨⟨(@bridgeErase_spec _ _ _ _ _ 0 h.bridge hs).1, ?_, ?_, ?_, h.descriptor⟩, ?_, ?_⟩
  · intro c hc
    rw [hfreed, List.mem_append] at hc
    rcases hc with hc | hc
    · exact h.freed c hc
    · obtain ⟨ref⟩ := session
      cases ref with
      | none => cases hc
      | some ref =>
        obtain rfl : c = ref := by simpa using hc
        exact (h.fresh _ c hget).1
  · intro i c hi
    obtain ⟨hne, hi⟩ := hold i c hi
    exact ⟨(h.fresh i c hi).1, hother i c hne hi⟩
  · intro i j c hi hj
    exact h.distinct i j c (hold i c hi).2 (hold j c hj).2
  · intro hlive epfd he entry hm hfd
    have hc := connection_eq_some.mp (hlive epfd he entry hm).1
    exact (hold _ _ hc).1 (by rw [hfd])
  · intro hne epfd he entry hm
    have hc := connection_eq_some.mp (hl epfd he entry hm).1
    obtain ⟨fd', hfd'⟩ := h.descriptor epfd he entry hm
    have hindex : sizeT entry.fd ≠ sizeT fd := by
      intro heq
      rw [hfd'] at heq
      exact hne epfd he entry hm (by rw [hfd', sizeT_inj heq])
    refine ⟨connection_eq_some.mpr ?_, hother _ _ hindex hc⟩
    show bridge.sessionTable.sessions[sizeT entry.fd]? = _
    rw [htable, List.getElem?_set_ne (Ne.symm hindex)]
    exact hc

theorem epoll_step (h : TablesInv s) (hl : LiveEntries s) {bridge : Bridge} {index : Nat}
    {epoll : EpollInstance} (hb : BridgeInv bridge)
    (htable : bridge.sessionTable = s.bridge.sessionTable)
    (hheld : index < NUMBER_OF_EPOLL_INSTANCES → ∀ entry ∈ epoll.held,
      (∃ old ∈ (s.epolls index).held, entry.fd = old.fd ∧ entry.connection = old.connection) ∨
        (∃ fd : CInt, entry.fd = fd) ∧ s.connection entry.fd = some entry.connection) :
    TablesInv { s with bridge, epolls := Function.update s.epolls index epoll } ∧
      LiveEntries { s with bridge, epolls := Function.update s.epolls index epoll } := by
  have hentry : ∀ epfd < NUMBER_OF_EPOLL_INSTANCES,
      ∀ entry ∈ (Function.update s.epolls index epoll epfd).held,
        (∃ fd : CInt, entry.fd = fd) ∧ s.connection entry.fd = some entry.connection ∧
          entry.connection ∉ s.memory.freed := by
    intro epfd he entry hm
    by_cases hi : epfd = index
    · subst hi
      rw [Function.update_self] at hm
      rcases hheld he entry hm with ⟨old, hold, hfd, hc⟩ | ⟨hfd, hc⟩
      · rw [hfd, hc]
        exact ⟨h.descriptor epfd he old hold, hl epfd he old hold⟩
      · exact ⟨hfd, hc, (h.fresh _ _ (connection_eq_some.mp hc)).2⟩
    · rw [Function.update_of_ne hi] at hm
      exact ⟨h.descriptor epfd he entry hm, hl epfd he entry hm⟩
  refine ⟨⟨hb, h.freed, ?_, ?_, fun epfd he entry hm => (hentry epfd he entry hm).1⟩, ?_⟩
  · show ∀ i c : Nat, bridge.sessionTable.sessions[i]? = _ → _
    rw [htable]
    exact h.fresh
  · show ∀ i j c : Nat, bridge.sessionTable.sessions[i]? = _ →
      bridge.sessionTable.sessions[j]? = _ → _
    rw [htable]
    exact h.distinct
  · intro epfd he entry hm
    rw [connection_eq_some]
    show bridge.sessionTable.sessions[sizeT entry.fd]? = _ ∧ _
    rw [htable, ← connection_eq_some]
    exact (hentry epfd he entry hm).2

theorem control_step (h : TablesInv s) (hl : LiveEntries s) {allocated : Bool} {real code : Int}
    {epfd operation : Int} {fd : CInt} {event : EpollEvent}
    (hs : epollCtl allocated real s epfd operation fd event = some (code, t)) :
    TablesInv t ∧ LiveEntries t := by
  unfold epollCtl at hs
  split at hs
  · obtain ⟨-, rfl⟩ := Prod.mk.inj (Option.some.inj hs)
    exact ⟨h, hl⟩
  · obtain ⟨⟨bridge, session⟩, hlookup, hs⟩ := Option.bind_eq_some_iff.mp hs
    obtain ⟨hb, htable, hget⟩ := bridgeLookup_table h.bridge hlookup
    dsimp only at hs
    split at hs
    · obtain ⟨⟨code₁, epoll⟩, hop, he⟩ := Option.map_eq_some_iff.mp hs
      obtain ⟨-, rfl⟩ := Prod.mk.inj he
      apply h.epoll_step hl hb htable
      intro _ entry hm
      obtain ⟨ref⟩ := session
      cases ref with
      | none =>
        rw [held_normal hop] at hm
        exact .inl ⟨entry, hm, rfl, rfl⟩
      | some connection =>
        rcases held_control hop hm with hold | rfl
        · exact .inl hold
        · exact .inr ⟨⟨fd, rfl⟩, connection_eq_some.mpr hget⟩
    · cases hs

theorem closeEpollInstance_step (h : TablesInv s) (hl : LiveEntries s) {epfd : Int}
    (hs : closeEpollInstance s epfd = some t) : TablesInv t ∧ LiveEntries t := by
  unfold closeEpollInstance at hs
  split at hs
  · obtain rfl := Option.some.inj hs
    apply h.epoll_step hl h.bridge rfl
    intro _ entry hm
    exact .inl ⟨entry, held_close hm, rfl, rfl⟩
  · cases hs

theorem tables_step (h : TablesInv s) (hl : LiveEntries s) {a : TablesAction}
    (hs : tablesStep s a = some t) : TablesInv t ∧ (LiveEntries t ↔ NotRegistered s a) := by
  cases a with
  | setUp fd =>
    obtain ⟨ht, hlt⟩ := h.setUp_step hl hs
    exact ⟨ht, iff_of_true hlt trivial⟩
  | control epfd operation fd event allocated real =>
    obtain ⟨⟨code, t'⟩, hctl, hs⟩ := Option.bind_eq_some_iff.mp hs
    dsimp only at hs
    split at hs
    · obtain rfl := Option.some.inj hs
      obtain ⟨ht, hlt⟩ := h.control_step hl hctl
      exact ⟨ht, iff_of_true hlt trivial⟩
    · cases hs
  | close fd =>
    obtain ⟨associated, hassoc, hs⟩ := Option.bind_eq_some_iff.mp hs
    cases associated with
    | true =>
      obtain ⟨ht, hlt⟩ := h.closeEpollInstance_step hl hs
      refine ⟨ht, iff_of_true hlt ?_⟩
      intro hfalse
      rw [hassoc] at hfalse
      cases hfalse
    | false =>
      obtain ⟨⟨memory, bridge⟩, herase, rfl⟩ := Option.map_eq_some_iff.mp hs
      obtain ⟨ht, hiff⟩ := h.erase_step hl herase
      refine ⟨ht, hiff.trans ?_⟩
      exact ⟨fun hne _ => hne, fun hc => hc hassoc⟩

end TablesInv

/-- **The entries are live in every state of a run** if and only if no `close` of the run
releases a connection whose descriptor an instance has an entry for. -/
theorem live_entries_iff {actions : List TablesAction}
    (h : (Run.run tablesStep .init actions).isSome) :
    (∀ t, Run.Visits tablesStep .init actions t → LiveEntries t) ↔
      Run.Meets tablesStep NotRegistered .init actions := by
  have hlive : LiveEntries .init := by
    intro epfd _ entry hm
    simp [Tables.init, EpollInstance.zero, EpollInstance.held, Vector.zero, Vector.elements] at hm
  exact Run.visits_iff_meets (fun _ _ _ hj hl hs => (hj.tables_step hl hs).1)
    (fun _ _ _ hj hl hs => (hj.tables_step hl hs).2) tablesInv_init hlive h

/-- A descriptor is registered, taken out, and closed. -/
private def removeThenClose : List TablesAction :=
  [.setUp ⟨5, by decide⟩,
    .control ⟨4, by decide⟩ ⟨1, by decide⟩ ⟨5, by decide⟩ { events := EPOLLIN, data := 5 } true
      ⟨0, by decide⟩,
    .control ⟨4, by decide⟩ ⟨2, by decide⟩ ⟨5, by decide⟩ { events := 0, data := 0 } true
      ⟨0, by decide⟩,
    .close ⟨5, by decide⟩]

theorem live_entries_iff_at :
    (Run.run tablesStep .init removeThenClose).isSome = true ∧
      ∀ t, Run.Visits tablesStep .init removeThenClose t → LiveEntries t := by
  have hrun : (Run.run tablesStep .init removeThenClose).isSome = true := by decide +kernel
  exact ⟨hrun, (live_entries_iff hrun).mpr (by decide +kernel)⟩

/-- **An entry outlives its connection**: the descriptor is closed while it is registered. -/
theorem entry_dangles :
    ∃ t, Run.run tablesStep .init
        [.setUp ⟨5, by decide⟩,
          .control ⟨4, by decide⟩ ⟨1, by decide⟩ ⟨5, by decide⟩ { events := EPOLLIN, data := 5 }
            true ⟨0, by decide⟩,
          .close ⟨5, by decide⟩] = some t ∧ ¬ LiveEntries t := by
  have hrun : (Run.run tablesStep .init
        [.setUp ⟨5, by decide⟩,
          .control ⟨4, by decide⟩ ⟨1, by decide⟩ ⟨5, by decide⟩ { events := EPOLLIN, data := 5 }
            true ⟨0, by decide⟩,
          .close ⟨5, by decide⟩]).any (fun t => !decide (LiveEntries t)) = true := by
    decide +kernel
  obtain ⟨t, ht, hl⟩ := (Option.any_eq_true _ _).mp hrun
  exact ⟨t, ht, by simpa using hl⟩

end Tssx
