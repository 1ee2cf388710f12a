import Tssx.Selective
import Tssx.StringSet.Members

/-!
# What `USE_TSSX` says

The tokens of the variable are its longest runs of characters that are no spaces
(`Words.IsWord`).  Where every copy has a byte for its NUL, and with `DEBUG` no token is repeated,
the selective set is the set of the tokens.
-/

namespace Tssx

open ChainedTable

/-- A path is a longest part of the value without spaces. -/
def IsToken (value path : CString) : Prop := Words.IsWord isSpace value.bytes path.bytes

/-- The paths that the loop over `strtok` finds. -/
def tokensOf (value : CString) : List CString :=
  (Words.words isSpace (value.length + 1) value.bytes).map CString.ofBytes

/-- Each path that is not among those `seen` gets a block with a spare byte, and with `DEBUG`
there is no other. -/
def PathsFit (debug : Bool) (memory : SelectiveMemory) : List CString → List CString → Prop
  | _, [] => True
  | seen, path :: paths =>
    (path ∉ seen → STRING_NODE_SIZE + path.length < (memory.block seen.length).room) ∧
      (debug = true → path ∉ seen) ∧ PathsFit debug memory (seen ++ [path]) paths

instance decidablePathsFit (debug : Bool) (memory : SelectiveMemory) :
    ∀ seen paths, Decidable (PathsFit debug memory seen paths)
  | _, [] => isTrue trivial
  | seen, path :: paths =>
    have := decidablePathsFit debug memory (seen ++ [path]) paths
    inferInstanceAs (Decidable ((path ∉ seen →
        STRING_NODE_SIZE + path.length < (memory.block seen.length).room) ∧
      (debug = true → path ∉ seen) ∧ PathsFit debug memory (seen ++ [path]) paths))

/-- The memory that the initialisation needs is there. -/
def InitializationFits (debug : Bool) (memory : SelectiveMemory) : Option CString → Prop
  | none => True
  | some value => value.length < memory.buffer ∧ PathsFit debug memory [] (tokensOf value)

instance (debug : Bool) (memory : SelectiveMemory) :
    ∀ useTssx, Decidable (InitializationFits debug memory useTssx)
  | none => isTrue trivial
  | some value => inferInstanceAs
      (Decidable (value.length < memory.buffer ∧ PathsFit debug memory [] (tokensOf value)))

/-- The blocks that are in use at the same time are different. -/
def BlocksDistinct (memory : SelectiveMemory) (count : Nat) : Prop :=
  ∀ m < count, ∀ n < count, (memory.block m).address = (memory.block n).address → m = n

instance (memory : SelectiveMemory) (count : Nat) : Decidable (BlocksDistinct memory count) :=
  inferInstanceAs (Decidable (∀ m < count, ∀ n < count, _ → m = n))

/-- The insertions of the loop of `_parse_tssx_variable`. -/
def insertPaths (debug : Bool) (memory : SelectiveMemory) :
    Nat → List CString → StringSet → Option StringSet
  | _, [], set => some set
  | n, path :: paths, set =>
    (ssInsert set path (memory.block n)).bind fun (inserted, set) =>
      if debug && !inserted then none else insertPaths debug memory (n + 1) paths set

variable {debug : Bool} {memory : SelectiveMemory} {set : StringSet}
  {seen : List CString} {value path : CString}

/-! ### The tokens -/

theorem ofBytes_bytes {bytes : List UInt8} (h : 0 ∉ bytes) :
    (CString.ofBytes bytes).bytes = bytes := by
  apply List.takeWhile_eq_self_iff.mpr
  intro c hc
  simp only [bne_iff_ne, ne_eq]
  rintro rfl
  exact h hc

theorem ofBytes_self (string : CString) : CString.ofBytes string.bytes = string := by
  have hbytes := ofBytes_bytes string.terminated
  obtain ⟨bytes, h⟩ := string
  unfold CString.ofBytes at hbytes ⊢
  simp only [CString.mk.injEq]
  exact hbytes

/-- **The loop over `strtok` finds the tokens.** -/
theorem mem_tokensOf : path ∈ tokensOf value ↔ IsToken value path := by
  have hword : ∀ bytes, bytes ∈ Words.words isSpace (value.length + 1) value.bytes ↔
      Words.IsWord isSpace value.bytes bytes := fun bytes => Words.mem_words (Nat.lt_succ_self _)
  have hclean : ∀ bytes, Words.IsWord isSpace value.bytes bytes → 0 ∉ bytes := by
    rintro bytes ⟨-, -, before, after, heq, -⟩ hmem
    apply value.terminated
    rw [heq]
    exact List.mem_append_right _ (List.mem_append_left _ hmem)
  rw [tokensOf, List.mem_map]
  constructor
  · rintro ⟨bytes, hm, rfl⟩
    have hw := (hword bytes).mp hm
    rw [IsToken, ofBytes_bytes (hclean bytes hw)]
    exact hw
  · intro h
    exact ⟨path.bytes, (hword path.bytes).mpr h, ofBytes_self path⟩

theorem parsePaths_eq {fuel n : Nat} {buffer : List UInt8} (hfuel : buffer.length < fuel) :
    parsePaths debug memory fuel n buffer set =
      insertPaths debug memory n ((Words.words isSpace fuel buffer).map CString.ofBytes) set := by
  induction fuel generalizing n buffer set with
  | zero => omega
  | succ fuel ih =>
    rw [parsePaths, Words.words]
    unfold strtok
    cases hn : Words.next isSpace buffer with
    | none => rfl
    | some wr =>
      obtain ⟨word, rest⟩ := wr
      have hlt := (Words.next_some hn).2
      have hrest : ∀ n set, parsePaths debug memory fuel n rest set =
          insertPaths debug memory n ((Words.words isSpace fuel rest).map CString.ofBytes) set :=
        fun n set => ih (by omega)
      simp only [List.map_cons, insertPaths, hrest]

/-! ### The set -/

/-- The blocks of the nodes are those of the paths so far. -/
def BlocksSeen (memory : SelectiveMemory) (n : Nat) (set : StringSet) : Prop :=
  ∀ node ∈ set.held, ∃ m < n, node.address = (memory.block m).address

theorem BlocksSeen.fresh {n count : Nat} (h : BlocksSeen memory n set)
    (hdistinct : BlocksDistinct memory count) (hn : n < count) :
    ∀ node ∈ set.held, node.address ≠ (memory.block n).address := by
  intro node hnode heq
  obtain ⟨m, hm, ha⟩ := h node hnode
  have hmn := hdistinct m (by omega) n hn (ha.symm.trans heq)
  omega

/-- **The loop makes the set of its paths**, exactly if there is memory for them. -/
theorem insertPaths_iff (debug : Bool) (paths : List CString) {count : Nat}
    (h : RepresentsSet set seen.toFinset)
    (hblocks : BlocksSeen memory seen.length set) (hdistinct : BlocksDistinct memory count)
    (hcount : seen.length + paths.length ≤ count) :
    (PathsFit debug memory seen paths → ∃ set',
        insertPaths debug memory seen.length paths set = some set' ∧
          RepresentsSet set' (seen ++ paths).toFinset) ∧
      (¬ PathsFit debug memory seen paths →
        insertPaths debug memory seen.length paths set = none) := by
  induction paths generalizing seen set with
  | nil =>
    refine ⟨fun _ => ⟨set, rfl, ?_⟩, fun hno => absurd trivial hno⟩
    rwa [List.append_nil]
  | cons path paths ih =>
    rw [List.length_cons] at hcount
    have hmem : path ∈ seen.toFinset ↔ path ∈ seen := List.mem_toFinset
    have hlength : (seen ++ [path]).length = seen.length + 1 := by simp
    have happend : seen ++ path :: paths = seen ++ [path] ++ paths := by simp
    rw [insertPaths, PathsFit, happend]
    rcases h.insert_cases path (hblocks.fresh hdistinct (by omega)) with
      ⟨hin, set₁, hi, hr, hperm⟩ | ⟨hin, hroom, set₁, hi, hr, hperm⟩ | ⟨hin, hroom, hi⟩
    · -- the path is repeated
      have hseen := hmem.mp hin
      have hsame : (seen ++ [path]).toFinset = seen.toFinset := by
        simp [List.toFinset_append, hseen]
      have hr₁ : RepresentsSet set₁ (seen ++ [path]).toFinset := hsame ▸ hr
      have hblocks₁ : BlocksSeen memory (seen ++ [path]).length set₁ := by
        intro node hnode
        obtain ⟨m, hm, ha⟩ := hblocks node (hperm.mem_iff.mp hnode)
        exact ⟨m, by omega, ha⟩
      obtain ⟨hfit, hnot⟩ := ih hr₁ hblocks₁ (by omega)
      rw [hlength] at hfit hnot
      cases debug with
      | true =>
        refine ⟨fun hpf => absurd hseen (hpf.2.1 rfl), fun _ => ?_⟩
        rw [hi]
        rfl
      | false =>
        rw [hi]
        refine ⟨fun hpf => hfit hpf.2.2, fun hno => hnot fun hpf => hno ⟨?_, ?_, hpf⟩⟩
        · exact fun hnew => absurd hseen hnew
        · exact fun hd => absurd hd Bool.false_ne_true
    · have hnew : path ∉ seen := mt hmem.mpr hin
      have hinsert : (seen ++ [path]).toFinset = insert path seen.toFinset := by
        ext other
        simp
      have hr₁ : RepresentsSet set₁ (seen ++ [path]).toFinset := hinsert ▸ hr
      have hblocks₁ : BlocksSeen memory (seen ++ [path]).length set₁ := by
        intro node hnode
        rcases List.mem_cons.mp (hperm.mem_iff.mp hnode) with rfl | hold
        · exact ⟨seen.length, by omega, rfl⟩
        · obtain ⟨m, hm, ha⟩ := hblocks node hold
          exact ⟨m, by omega, ha⟩
      obtain ⟨hfit, hnot⟩ := ih hr₁ hblocks₁ (by omega)
      rw [hlength] at hfit hnot
      have hflag : (debug && !SS_INSERTED) = false := by cases debug <;> rfl
      rw [hi, Option.bind_some]
      simp only [hflag]
      exact ⟨fun hpf => hfit hpf.2.2,
        fun hno => hnot fun hpf => hno ⟨fun _ => hroom, fun _ => hnew, hpf⟩⟩
    · exact ⟨fun hfit => absurd (hfit.1 (mt hmem.mpr hin)) hroom, fun _ => by rw [hi]; rfl⟩

/-- The paths of the variable. -/
def selectedPaths : Option CString → List CString
  | none => []
  | some value => tokensOf value

/-- **The initialisation makes the set of the tokens**, or does not come to its end. -/
theorem initializeSelectiveSet_iff (debug : Bool) {useTssx : Option CString}
    (hdistinct : BlocksDistinct memory (selectedPaths useTssx).length) :
    (InitializationFits debug memory useTssx → ∃ set,
        initializeSelectiveSet debug memory useTssx .zero = some set ∧
          RepresentsSet set (selectedPaths useTssx).toFinset) ∧
      (¬ InitializationFits debug memory useTssx →
        initializeSelectiveSet debug memory useTssx .zero = none) := by
  have hempty : RepresentsSet .zero ([] : List CString).toFinset := .of_empty (.inl rfl) rfl rfl
  cases useTssx with
  | none => exact ⟨fun _ => ⟨.zero, rfl, hempty⟩, fun hno => absurd trivial hno⟩
  | some value =>
    obtain ⟨hfit, hnot⟩ := insertPaths_iff debug (tokensOf value) hempty
      (fun node hn => absurd hn List.not_mem_nil) hdistinct (by simp [selectedPaths])
    have hparse : parsePaths debug memory (value.length + 1) 0 value.bytes .zero =
        insertPaths debug memory 0 (tokensOf value) .zero := parsePaths_eq (Nat.lt_succ_self _)
    rw [initializeSelectiveSet, parseTssxVariable, InitializationFits, hparse]
    by_cases hbuffer : value.length < memory.buffer
    · rw [if_neg (by omega)]
      exact ⟨fun h => hfit h.2, fun hno => hnot fun h => hno ⟨hbuffer, h⟩⟩
    · rw [if_pos (by omega)]
      exact ⟨fun h => absurd h.1 hbuffer, fun _ => rfl⟩

/-- After the initialisation a path is in the set exactly if it is a token of the variable. -/
def SelectsTokens (debug : Bool) (memory : SelectiveMemory) (useTssx : Option CString) : Prop :=
  ∃ set, initializeSelectiveSet debug memory useTssx .zero = some set ∧
    ∀ path, ∃ found, ssContains set path = some found ∧
      (found = SS_FOUND ↔ ∃ value ∈ useTssx, IsToken value path)

/-- **`USE_TSSX` means what it says** exactly if the buffer and every new path have a byte for the
NUL, and with `DEBUG` no path is repeated. -/
theorem useTssx_selects_tokens (debug : Bool) (memory : SelectiveMemory)
    (useTssx : Option CString)
    (hdistinct : BlocksDistinct memory (selectedPaths useTssx).length) :
    SelectsTokens debug memory useTssx ↔ InitializationFits debug memory useTssx := by
  obtain ⟨hfit, hnot⟩ := initializeSelectiveSet_iff debug hdistinct
  constructor
  · rintro ⟨set, hi, -⟩
    by_contra hno
    rw [hnot hno] at hi
    cases hi
  · intro h
    obtain ⟨set, hi, hr⟩ := hfit h
    refine ⟨set, hi, fun path => ⟨_, hr.contains path, ?_⟩⟩
    have hmem : path ∈ (selectedPaths useTssx).toFinset ↔
        ∃ value ∈ useTssx, IsToken value path := by
      rw [List.mem_toFinset]
      cases useTssx with
      | none => simp [selectedPaths]
      | some value => simp [selectedPaths, mem_tokensOf]
    rw [← hmem]
    by_cases hin : path ∈ (selectedPaths useTssx).toFinset
    · exact iff_of_true (if_pos hin) hin
    · rw [if_neg hin]
      exact iff_of_false Bool.false_ne_true hin

/-- Blocks of 24 bytes, one after the other. -/
private def smallBlocks : SelectiveMemory where
  buffer := 24
  block := fun n => ⟨⟨n % 100 + 1, by omega⟩, 24⟩

/-- `"/a  /b "`. -/
private def twoPaths : CString := ⟨[47, 97, 32, 32, 47, 98, 32], by decide⟩

/-- `"/a /a"`. -/
private def repeatedPath : CString := ⟨[47, 97, 32, 47, 97], by decide⟩

/-- Two paths with `DEBUG`. -/
theorem twoPaths_selected : SelectsTokens true smallBlocks (some twoPaths) :=
  (useTssx_selects_tokens true smallBlocks (some twoPaths) (by decide)).mpr (by decide +kernel)

/-- **A path that is repeated** fails the assertion of `DEBUG`. -/
theorem repeatedPath_fails :
    ¬ ∀ (debug : Bool) (memory : SelectiveMemory) (useTssx : Option CString),
      BlocksDistinct memory (selectedPaths useTssx).length →
        SelectsTokens debug memory useTssx := by
  intro h
  have hdistinct : BlocksDistinct smallBlocks (selectedPaths (some repeatedPath)).length := by
    decide
  obtain ⟨set, hi, -⟩ := h true smallBlocks (some repeatedPath) hdistinct
  have hnone : initializeSelectiveSet true smallBlocks (some repeatedPath) .zero = none := by
    decide +kernel
  rw [hnone] at hi
  cases hi

end Tssx
