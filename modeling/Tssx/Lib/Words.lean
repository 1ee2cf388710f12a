import Mathlib.Data.List.TakeWhile
import Mathlib.Tactic.Common

/-!
# The words of a list

The words of a list are its longest runs of elements that do not separate: `IsWord` says it of
a word with what stands before and after it.  `next` skips separators and takes one word, with
the separator after it, and `words` are the words that are taken so one after the other.
-/

namespace Words

variable {α : Type} {sep : α → Bool} {s t w rest : List α} {c : α} {fuel : Nat}

/-- A nonempty run without separators that cannot be extended. -/
structure IsWord (sep : α → Bool) (s t : List α) : Prop where
  nonempty : t ≠ []
  inside : ∀ c ∈ t, sep c = false
  maximal : ∃ before after, s = before ++ (t ++ after) ∧ (∀ c ∈ before.getLast?, sep c = true) ∧
    ∀ c ∈ after.head?, sep c = true

/-- The next word, and what is left after the separator that ends it. -/
def next (sep : α → Bool) (s : List α) : Option (List α × List α) :=
  match s.dropWhile sep with
  | [] => none
  | c :: cs => some ((c :: cs).takeWhile (!sep ·), ((c :: cs).dropWhile (!sep ·)).drop 1)

/-- At most `fuel` words. -/
def words (sep : α → Bool) : Nat → List α → List (List α)
  | 0, _ => []
  | fuel + 1, s =>
    match next sep s with
    | none => []
    | some (t, rest) => t :: words sep fuel rest

theorem isWord_cons (hc : sep c = true) : IsWord sep (c :: s) t ↔ IsWord sep s t := by
  constructor
  · rintro ⟨hne, hin, before, after, heq, hbefore, hafter⟩
    refine ⟨hne, hin, ?_⟩
    cases before with
    | nil =>
      cases t with
      | nil => exact absurd rfl hne
      | cons d t =>
        obtain ⟨rfl, -⟩ := List.cons.inj heq
        rw [hin c List.mem_cons_self] at hc
        cases hc
    | cons d before =>
      obtain ⟨rfl, rfl⟩ := List.cons.inj heq
      refine ⟨before, after, rfl, ?_, hafter⟩
      intro e he
      cases before with
      | nil => cases he
      | cons f before => exact hbefore e (by rwa [List.getLast?_cons_cons])
  · rintro ⟨hne, hin, before, after, rfl, hbefore, hafter⟩
    refine ⟨hne, hin, c :: before, after, rfl, ?_, hafter⟩
    intro e he
    cases before with
    | nil =>
      obtain rfl : c = e := by simpa using he
      exact hc
    | cons f before => exact hbefore e (by rwa [List.getLast?_cons_cons] at he)

theorem not_isWord_nil : ¬ IsWord sep [] t := by
  rintro ⟨hne, -, before, after, heq, -⟩
  have hnil := (List.append_eq_nil_iff.mp heq.symm).2
  exact hne (List.append_eq_nil_iff.mp hnil).1

/-- A run without separators that cannot be extended to the right is the first word. -/
theorem isWord_append (hne : w ≠ []) (hw : ∀ c ∈ w, sep c = false)
    (hrest : ∀ c ∈ rest.head?, sep c = true) :
    IsWord sep (w ++ rest) t ↔ t = w ∨ IsWord sep rest t := by
  constructor
  · rintro ⟨htne, hin, before, after, heq, hbefore, hafter⟩
    rcases List.append_eq_append_iff.mp heq with ⟨mid, rfl, hmid⟩ | ⟨mid, rfl, hmid⟩
    · -- the word begins after `w`
      refine .inr ⟨htne, hin, mid, after, hmid, ?_, hafter⟩
      intro c hc
      refine hbefore c ?_
      rw [Option.mem_def] at hc ⊢
      rw [List.getLast?_append, hc]
      rfl
    · cases hlast : before.getLast? with
      | some c =>
        have hsep := hbefore c hlast
        rw [hw c (List.mem_append_left _ (List.mem_of_getLast? hlast))] at hsep
        cases hsep
      | none =>
        obtain rfl := List.getLast?_eq_none_iff.mp hlast
        rw [List.nil_append] at *
        refine .inl ?_
        rcases List.append_eq_append_iff.mp hmid with ⟨more, rfl, hmore⟩ | ⟨more, rfl, hmore⟩
        · cases more with
          | nil => rw [List.append_nil]
          | cons d more =>
            have hsep := hafter d (by rw [hmore]; rfl)
            rw [hw d (List.mem_append_right _ List.mem_cons_self)] at hsep
            cases hsep
        · cases more with
          | nil => rw [List.append_nil]
          | cons d more =>
            have hsep := hrest d (by rw [hmore]; rfl)
            rw [hin d (List.mem_append_right _ List.mem_cons_self)] at hsep
            cases hsep
  · rintro (rfl | ⟨htne, hin, before, after, rfl, hbefore, hafter⟩)
    · exact ⟨hne, hw, [], rest, rfl, by simp, hrest⟩
    · refine ⟨htne, hin, w ++ before, after, by rw [List.append_assoc], ?_, hafter⟩
      intro c hc
      cases before with
      | nil =>
        cases t with
        | nil => exact absurd rfl htne
        | cons d t =>
          have hsep := hrest d rfl
          rw [hin d List.mem_cons_self] at hsep
          cases hsep
      | cons f before =>
        refine hbefore c ?_
        rw [Option.mem_def, List.getLast?_append] at hc
        rw [Option.mem_def]
        cases hl : (f :: before).getLast? with
        | none => simp at hl
        | some d =>
          rw [hl] at hc
          exact hc

theorem isWord_dropWhile (s : List α) : IsWord sep (s.dropWhile sep) t ↔ IsWord sep s t := by
  induction s with
  | nil => exact Iff.rfl
  | cons c s ih =>
    rw [List.dropWhile_cons]
    split
    · rw [ih, isWord_cons ‹_›]
    · exact Iff.rfl

theorem forall_mem_takeWhile (s : List α) : ∀ c ∈ s.takeWhile (!sep ·), sep c = false := by
  intro c hc
  simpa using List.mem_takeWhile_imp hc

theorem forall_head_dropWhile (sep : α → Bool) (s : List α) :
    ∀ c ∈ (s.dropWhile (!sep ·)).head?, sep c = true := by
  intro c hc
  have hstop := List.head?_dropWhile_not (!sep ·) s
  rw [Option.mem_def] at hc
  rw [hc] at hstop
  simpa using hstop

theorem next_none (h : next sep s = none) : ¬ IsWord sep s t := by
  unfold next at h
  split at h
  · rename_i hnil
    rw [← isWord_dropWhile, hnil]
    exact not_isWord_nil
  · cases h

/-- **The next word is one**, and the others are those of the rest. -/
theorem next_some (h : next sep s = some (w, rest)) :
    (∀ t, IsWord sep s t ↔ t = w ∨ IsWord sep rest t) ∧ rest.length < s.length := by
  unfold next at h
  split at h
  · cases h
  · rename_i c cs hcons
    obtain ⟨rfl, rfl⟩ := Prod.mk.inj (Option.some.inj h)
    have hc : sep c = false := by
      have hstop := List.head?_dropWhile_not sep s
      rw [hcons] at hstop
      simpa using hstop
    have hw : (c :: cs).takeWhile (!sep ·) ≠ [] := by
      rw [List.takeWhile_cons, hc]
      simp
    constructor
    · intro t
      rw [← isWord_dropWhile, hcons]
      conv_lhs => rw [← List.takeWhile_append_dropWhile (p := (!sep ·)) (l := c :: cs)]
      rw [isWord_append hw (forall_mem_takeWhile _) (forall_head_dropWhile sep _)]
      refine or_congr_right ?_
      have hhead := forall_head_dropWhile sep (c :: cs)
      cases hrest : (c :: cs).dropWhile (!sep ·) with
      | nil => exact Iff.rfl
      | cons d rest =>
        rw [List.drop_one, List.tail_cons]
        exact isWord_cons (hhead d (by rw [hrest]; rfl))
    · have hdrop : (c :: cs).length ≤ s.length := by
        rw [← hcons]
        exact (List.dropWhile_sublist sep).length_le
      have hpos : 0 < ((c :: cs).takeWhile (!sep ·)).length := List.length_pos_iff.mpr hw
      have hsum := congrArg List.length
        (List.takeWhile_append_dropWhile (p := (!sep ·)) (l := c :: cs))
      rw [List.length_append] at hsum
      rw [List.length_drop]
      omega

/-- **The words that are taken one after the other are all words.** -/
theorem mem_words (hfuel : s.length < fuel) : t ∈ words sep fuel s ↔ IsWord sep s t := by
  induction fuel generalizing s with
  | zero => omega
  | succ fuel ih =>
    rw [words]
    cases hn : next sep s with
    | none => exact iff_of_false List.not_mem_nil (next_none hn)
    | some wr =>
      obtain ⟨w, rest⟩ := wr
      obtain ⟨hiff, hlt⟩ := next_some hn
      rw [hiff, List.mem_cons, ih (by omega)]

end Words
