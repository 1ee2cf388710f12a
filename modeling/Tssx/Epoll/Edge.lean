import Tssx.Epoll.Entry

/-!
# Edge-triggered entries

`edges` is what an edge-triggered entry should report: an operation that is ready now and was
not at the check before.  `_is_edge_for` is false for all flags, so an edge-triggered entry
never reports anything, and the law holds of the histories in which there is nothing to
report.
-/

namespace Tssx

/-- A call of `_check_epoll_event` with what `_ready_for` returns, or its report. -/
abbrev Checks := List (Operation × Bool)

/-- The checks of one operation. -/
def Checks.of (checks : Checks) (operation : Operation) : List Bool :=
  (checks.filter fun check => check.1 = operation).map Prod.snd

/-- Ready, and not ready before. -/
def edgesFrom (before : Bool) : List Bool → List Bool
  | [] => []
  | ready :: rest => (ready && !before) :: edgesFrom ready rest

/-- There is no check before the first. -/
def edges (history : List Bool) : List Bool := edgesFrom false history

/-- The reports of successive checks of an entry. -/
def reports (entry : EpollEntry) : Checks → Checks
  | [] => []
  | (operation, ready) :: rest =>
    let check := checkEpollEvent ready entry { events := 0, data := 0 } operation
    (operation, check.reported) :: reports check.entry rest

/-- The reports of each operation are its edges, whatever the other one's history is. -/
def EdgeSemantics (entry : EpollEntry) (history : Checks) : Prop :=
  ∀ operation, epollOperationRegistered entry operation = true →
    (reports entry history).of operation = edges (history.of operation) ∧
      (reports entry history).of operation =
        (reports entry (history.filter fun check => check.1 = operation)).of operation

variable {entry : EpollEntry} {history : Checks}

/-- The misplaced parenthesis. -/
theorem isEdgeFor_eq_false (entry : EpollEntry) (operation : Operation) :
    isEdgeFor entry operation = false := by
  have hedge : ∀ condition : BitVec 16,
      (if condition ≠ 0 then READ_EDGE else WRITE_EDGE) ≠ 0 := by
    intro condition
    split <;> decide
  exact beq_eq_false_iff_ne.mpr (hedge _)

theorem isEdgeTriggered_congr {entry entry' : EpollEntry} (h : entry'.event = entry.event) :
    isEdgeTriggered entry' = isEdgeTriggered entry := by
  unfold isEdgeTriggered
  rw [h]

theorem checkEpollEvent_edge {ready : Bool} {output : EpollEvent} {operation : Operation}
    (h : isEdgeTriggered entry = true) :
    (checkEpollEvent ready entry output operation).reported = false := by
  unfold checkEpollEvent
  rw [isEdgeFor_eq_false, isLevelTriggered, h]
  split
  · split <;> rfl
  · rfl

/-- **An edge-triggered entry never reports.** -/
theorem reports_edge (h : isEdgeTriggered entry = true) (operation : Operation) :
    (reports entry history).of operation = (history.of operation).map fun _ => false := by
  induction history generalizing entry with
  | nil => rfl
  | cons check rest ih =>
    obtain ⟨op, ready⟩ := check
    have hnext := @ih (checkEpollEvent ready entry { events := 0, data := 0 } op).entry
      (by rw [isEdgeTriggered_congr (checkEpollEvent_entry ..).1, h])
    have hreport := @checkEpollEvent_edge entry ready { events := 0, data := 0 } op h
    simp only [reports, Checks.of, hreport] at hnext ⊢
    by_cases he : op = operation
    · simpa [List.filter_cons, he] using hnext
    · simpa [List.filter_cons, he] using hnext

/-- There is no edge if and only if nothing was ever ready. -/
theorem edges_eq_none_iff {observed : List Bool} :
    edges observed = observed.map (fun _ => false) ↔ ∀ ready ∈ observed, ready = false := by
  induction observed with
  | nil => simp [edges, edgesFrom]
  | cons ready rest ih =>
    cases ready with
    | true => simp [edges, edgesFrom]
    | false =>
      rw [edges] at ih
      simpa [edges, edgesFrom] using ih

/-- **The edge law holds of exactly those histories in which no registered operation was
ready.** -/
theorem edge_semantics_iff (h : isEdgeTriggered entry = true) :
    EdgeSemantics entry history ↔
      ∀ check ∈ history, epollOperationRegistered entry check.1 = true → check.2 = false := by
  have hone : ∀ operation, ((reports entry history).of operation = edges (history.of operation) ∧
      (reports entry history).of operation =
        (reports entry (history.filter fun check => check.1 = operation)).of operation) ↔
      ∀ ready ∈ history.of operation, ready = false := by
    intro operation
    rw [reports_edge h, reports_edge h, ← edges_eq_none_iff]
    constructor
    · rintro ⟨he, -⟩
      exact he.symm
    · intro he
      refine ⟨he.symm, ?_⟩
      rw [Checks.of, Checks.of, List.filter_filter]
      simp
  constructor
  · rintro hs ⟨operation, ready⟩ hc hr
    refine (hone operation).mp (hs operation hr) ready ?_
    exact List.mem_map.mpr ⟨(operation, ready), List.mem_filter.mpr ⟨hc, by simp⟩, rfl⟩
  · intro hall operation hr
    apply (hone operation).mpr
    intro ready hm
    obtain ⟨⟨op, _⟩, hc, rfl⟩ := List.mem_map.mp hm
    obtain ⟨hmem, he⟩ := List.mem_filter.mp hc
    obtain rfl : op = operation := by simpa using he
    exact hall _ hmem hr

/-- Two checks of a descriptor with nothing to read. -/
theorem edge_semantics_iff_at :
    EdgeSemantics (.new 5 { events := EPOLLIN ||| EPOLLET, data := 0 } 0)
      [(.read, false), (.write, true), (.read, false)] :=
  (edge_semantics_iff (by decide)).mpr (by decide)

/-- **The first readiness is not reported.** -/
theorem edge_missed :
    let entry := EpollEntry.new 5 { events := EPOLLIN ||| EPOLLET, data := 0 } 0
    isEnabled entry = true ∧ isOneshot entry = false ∧ isEdgeTriggered entry = true ∧
      epollOperationRegistered entry .read = true ∧ ¬ EdgeSemantics entry [(.read, true)] := by
  refine ⟨by decide, by decide, by decide, by decide, ?_⟩
  intro h
  exact absurd (h .read (by decide)).1 (by decide)

end Tssx
