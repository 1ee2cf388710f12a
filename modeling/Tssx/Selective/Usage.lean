import Tssx.Selective.Tokens

/-!
# The answer of `check_tssx_usage`

`check_tssx_usage` asks for the address of a socket and, for a local one, for its type.  It
looks at neither failure: an address that could not be found is whatever was on the stack, with a
length of `(size_t)-1`, and `&&` makes an error in the second query a `true`.  `UsageEstablished`
says when its answer is right all the same.
-/

namespace Tssx

/-- A query that the answer needs fails. -/
def UsageFails (queries : UsageQueries) : Prop :=
  queries.address = none ∨
    ∃ address length, queries.address = some (address, length) ∧ address.family = AF_LOCAL ∧
      queries.soType = none

/-- The path in an address with its length. -/
def socketPath (address : SocketStorage) (length : BitVec 32) : CString :=
  .ofBytes (address.path.take (length.toInt - SUN_PATH_OFFSET).toNat)

/-- A local stream socket whose path is one of the `selected`. -/
def IsSelected (selected : Finset CString) (queries : UsageQueries) : Prop :=
  ∃ address length option, queries.address = some (address, length) ∧
    queries.soType = some option ∧ address.family = AF_LOCAL ∧ option.toInt = SOCK_STREAM ∧
    socketPath address length ∈ selected

/-- A side that has asked goes on with the set-up of a connection. -/
def Handshake.Begun (s : Handshake) : Side → Prop
  | .server => s.server = .options
  | .client => s.client = .options

/-- The paths that the set holds once it has been made. -/
def selection (set : StringSet) (strings : Finset CString) (useTssx : Option CString) :
    Finset CString :=
  if ssIsInitialized set then strings else (selectedPaths useTssx).toFinset

/-- The answer is an error if a query fails, and otherwise whether the socket uses TSSX; so
`accept` and `connect` go on with such a socket only. -/
def PropagatesFailures (debug : Bool) (memory : SelectiveMemory) (useTssx : Option CString)
    (queries : UsageQueries) (set : StringSet) (selected : Finset CString) : Prop :=
  ∃ answer set', checkTssxUsage debug memory useTssx queries set = some (answer, set') ∧
    (UsageFails queries → answer = ERROR) ∧
    (¬ UsageFails queries → (answer = 1 ∨ answer = 0) ∧
      (answer = 1 ↔ IsSelected selected queries)) ∧
    ∀ (side : Side) (s t : Handshake), handshakeStep s (.usage side answer) = some t →
      t.Begun side → IsSelected selected queries

/-- The address is found; if it is local, the type is found as well; and if the type is that of a
stream, or `-1`, the path is inside the address, the set can be made, and `-1` does not
matter for the path. -/
def UsageEstablished (debug : Bool) (memory : SelectiveMemory) (useTssx : Option CString)
    (queries : UsageQueries) (set : StringSet) (selected : Finset CString) : Prop :=
  ∃ address length, queries.address = some (address, length) ∧
    (address.family = AF_LOCAL → ∃ option, queries.soType = some option ∧
      (option.toInt = SOCK_STREAM ∨ option.toInt = ERROR →
        (2 ≤ length.toInt ∧ length.toInt < 128) ∧
        (ssIsInitialized set = false → InitializationFits debug memory useTssx) ∧
        (option.toInt = ERROR → socketPath address length ∉ selected)))

variable {debug : Bool} {memory : SelectiveMemory} {useTssx : Option CString}
  {queries : UsageQueries} {set : StringSet} {strings selected : Finset CString}
  {address : SocketStorage} {length option : BitVec 32} {answer : Int}

/-- `accept` and `connect` go on with an answer that is neither an error nor zero. -/
theorem begun_usage {side : Side} {s t : Handshake}
    (h : handshakeStep s (.usage side answer) = some t) (hb : t.Begun side) :
    answer ≠ ERROR ∧ answer ≠ 0 := by
  cases side with
  | server =>
    simp only [handshakeStep, serverStep, clientStep, Option.or_none] at h
    split at h
    · obtain rfl := Option.some.inj h
      unfold Handshake.Begun at hb
      simp only at hb
      split at hb
      · cases hb
      · split at hb
        · cases hb
        · exact ⟨‹_›, ‹_›⟩
    · cases h
  | client =>
    simp only [handshakeStep, serverStep, clientStep, Option.none_or] at h
    split at h
    · obtain rfl := Option.some.inj h
      unfold Handshake.Begun at hb
      simp only at hb
      split at hb
      · cases hb
      · split at hb
        · cases hb
        · exact ⟨‹_›, ‹_›⟩
    · cases h

/-! ### The path -/

theorem takeWhile_set {p : UInt8 → Bool} {c : UInt8} (hc : p c = false) {bytes : List UInt8}
    {i : Nat} (hi : i < bytes.length) :
    (bytes.set i c).takeWhile p = (bytes.take i).takeWhile p := by
  induction bytes generalizing i with
  | nil => exact absurd hi (Nat.not_lt_zero i)
  | cons b bytes ih =>
    cases i with
    | zero => simp [hc]
    | succ i =>
      rw [List.length_cons] at hi
      rw [List.set_cons_succ, List.take_succ_cons, List.takeWhile_cons, List.takeWhile_cons,
        ih (by omega)]

/-- The terminator is written inside the address for a length from 2 to 127 only. -/
theorem insertNullTerminator_eq (address : SocketStorage) (length : BitVec 32) :
    insertNullTerminator address (sizeT length.toInt) =
      if 2 ≤ length.toInt ∧ length.toInt < 128 then
        some (address.path.set (length.toInt - SUN_PATH_OFFSET).toNat 0)
      else none := by
  have hlow := BitVec.le_toInt length
  have hhigh := BitVec.toInt_lt (x := length)
  unfold insertNullTerminator SUN_PATH_OFFSET
  by_cases hin : 2 ≤ length.toInt ∧ length.toInt < 128
  · have hindex : sizeT ((sizeT length.toInt : Int) - 2) = (length.toInt - 2).toNat := by
      unfold sizeT
      omega
    rw [if_pos hin, hindex, if_pos (by omega)]
  · have hout : ¬ sizeT ((sizeT length.toInt : Int) - 2) < 126 := by
      unfold sizeT
      omega
    rw [if_neg hin, if_neg hout]

theorem ofBytes_terminated (hin : 2 ≤ length.toInt ∧ length.toInt < 128) :
    CString.ofBytes (address.path.set (length.toInt - SUN_PATH_OFFSET).toNat 0) =
      socketPath address length := by
  have hi : (length.toInt - SUN_PATH_OFFSET).toNat < address.path.length := by
    rw [address.size, SUN_PATH_OFFSET]
    omega
  unfold socketPath CString.ofBytes
  simp only [CString.mk.injEq]
  exact takeWhile_set (by decide) hi

theorem inSelectiveSet_eq (h : RepresentsSet set strings) :
    inSelectiveSet address (sizeT length.toInt) set =
      if 2 ≤ length.toInt ∧ length.toInt < 128 then
        some (if socketPath address length ∈ strings then 1 else 0)
      else none := by
  rw [inSelectiveSet, insertNullTerminator_eq]
  split
  · rename_i hin
    rw [Option.bind_some, ofBytes_terminated hin, h.contains, Option.map_some]
    split <;> rfl
  · rfl

/-! ### The answer -/

theorem checkTssxUsage_proceeds (debug : Bool) (h : RepresentsSet set strings)
    (hdistinct : BlocksDistinct memory (selectedPaths useTssx).length)
    (hlength : (getSocketAddress queries).2 = length.toInt)
    (hcode : isDomainAndStreamSocket queries.soType (getSocketAddress queries).1 = 1) :
    ((2 ≤ length.toInt ∧ length.toInt < 128) ∧
        (ssIsInitialized set = false → InitializationFits debug memory useTssx) → ∃ set',
      checkTssxUsage debug memory useTssx queries set =
        some (if socketPath (getSocketAddress queries).1 length ∈ selection set strings useTssx
          then 1 else 0, set')) ∧
    (¬ ((2 ≤ length.toInt ∧ length.toInt < 128) ∧
        (ssIsInitialized set = false → InitializationFits debug memory useTssx)) →
      checkTssxUsage debug memory useTssx queries set = none) := by
  unfold checkTssxUsage selection
  simp only [hcode, hlength, ne_eq, not_true_eq_false, if_false]
  rcases Bool.eq_false_or_eq_true (ssIsInitialized set) with hinit | hinit
  · simp only [hinit, if_true, Option.bind_some, inSelectiveSet_eq h]
    constructor
    · rintro ⟨hin, -⟩
      exact ⟨set, by rw [if_pos hin]; rfl⟩
    · intro hno
      rw [if_neg fun hin => hno ⟨hin, fun hf => absurd hf (by decide)⟩]
      rfl
  · have hzero : set = .zero := by
      rcases h.valid with rfl | hs
      · rfl
      · obtain ⟨nodes, hn, -, -⟩ := hs.nodes
        rw [ssIsInitialized, hn] at hinit
        cases hinit
    subst hzero
    obtain ⟨hfit, hnot⟩ := initializeSelectiveSet_iff debug hdistinct
    simp only [hinit, Bool.false_eq_true, if_false]
    constructor
    · rintro ⟨hin, hfits⟩
      obtain ⟨set', hi, hr⟩ := hfit (hfits trivial)
      exact ⟨set', by rw [hi, Option.bind_some, inSelectiveSet_eq hr, if_pos hin]; rfl⟩
    · intro hno
      by_cases hfits : InitializationFits debug memory useTssx
      · obtain ⟨set', hi, hr⟩ := hfit hfits
        rw [hi, Option.bind_some, inSelectiveSet_eq hr,
          if_neg fun hin => hno ⟨hin, fun _ => hfits⟩]
        rfl
      · rw [hnot hfits]
        rfl

/-- A failed query for the address: the answer is no error, or the terminator is written outside
the variable. -/
theorem checkTssxUsage_noAddress (haddress : queries.address = none) (set' : StringSet) :
    checkTssxUsage debug memory useTssx queries set ≠ some (ERROR, set') := by
  intro heq
  unfold checkTssxUsage at heq
  have hget : getSocketAddress queries = (queries.garbage, ERROR) := by
    rw [getSocketAddress, haddress]
  have hin : ∀ set, inSelectiveSet queries.garbage (sizeT ERROR) set = none := fun _ => rfl
  simp only [hget] at heq
  split at heq
  · obtain ⟨hcode, -⟩ := Prod.mk.inj (Option.some.inj heq)
    unfold isDomainAndStreamSocket ERROR at hcode
    split at hcode <;> cases hcode
  · obtain ⟨made, -, heq⟩ := Option.bind_eq_some_iff.mp heq
    rw [hin] at heq
    cases heq

theorem isDomainAndStreamSocket_eq (soType : Option (BitVec 32)) (address : SocketStorage) :
    isDomainAndStreamSocket soType address =
      if address.family = AF_LOCAL ∧
        ∀ option, soType = some option → option.toInt = SOCK_STREAM ∨ option.toInt = ERROR
      then 1 else 0 := by
  have hstream : isStreamSocket soType ≠ 0 ↔
      ∀ option, soType = some option → option.toInt = SOCK_STREAM ∨ option.toInt = ERROR := by
    cases soType with
    | none => simp [isStreamSocket, getSocketOption, ERROR]
    | some option =>
      simp only [isStreamSocket, getSocketOption, Option.some.injEq, forall_eq']
      by_cases herror : option.toInt = ERROR
      · simp [herror, ERROR]
      · by_cases hsock : option.toInt = SOCK_STREAM
        · simp [hsock, SOCK_STREAM, ERROR]
        · simp [herror, hsock]
  have hdomain : isDomainSocket address ≠ 0 ↔ address.family = AF_LOCAL := by
    unfold isDomainSocket
    split <;> simp [*]
  unfold isDomainAndStreamSocket
  simp only [hstream, hdomain]

theorem propagates_iff {set' : StringSet} (hno : ¬ UsageFails queries)
    (hc : checkTssxUsage debug memory useTssx queries set = some (answer, set'))
    (htwo : answer = 1 ∨ answer = 0) :
    PropagatesFailures debug memory useTssx queries set selected ↔
      (answer = 1 ↔ IsSelected selected queries) := by
  constructor
  · rintro ⟨answer', set'', hc', -, hright, -⟩
    obtain ⟨rfl, -⟩ := Prod.mk.inj (Option.some.inj (hc.symm.trans hc'))
    exact (hright hno).2
  · intro hiff
    refine ⟨answer, set', hc, fun hf => absurd hf hno, fun _ => ⟨htwo, hiff⟩, ?_⟩
    intro side s t hstep hb
    exact hiff.mp (htwo.resolve_right (begun_usage hstep hb).2)

theorem propagates_of_other (haddress : queries.address = some (address, length))
    (hother : ¬ (address.family = AF_LOCAL ∧ ∀ option, queries.soType = some option →
      option.toInt = SOCK_STREAM ∨ option.toInt = ERROR)) :
    PropagatesFailures debug memory useTssx queries set selected := by
  have hget : getSocketAddress queries = (address, length.toInt) := by
    rw [getSocketAddress, haddress]
  have hc : checkTssxUsage debug memory useTssx queries set = some (0, set) := by
    unfold checkTssxUsage
    simp only [hget, isDomainAndStreamSocket_eq, if_neg hother]
    rfl
  have hno : ¬ UsageFails queries := by
    rintro (hnone | ⟨address', length', ha, hlocal, htype⟩)
    · rw [haddress] at hnone
      cases hnone
    · obtain ⟨rfl, rfl⟩ := Prod.mk.inj (Option.some.inj (haddress.symm.trans ha))
      exact hother ⟨hlocal, fun option ho => by rw [htype] at ho; cases ho⟩
  refine (propagates_iff hno hc (.inr rfl)).mpr (iff_of_false (by decide) ?_)
  rintro ⟨address', length', option, ha, htype, hlocal, hstream, -⟩
  obtain ⟨rfl, rfl⟩ := Prod.mk.inj (Option.some.inj (haddress.symm.trans ha))
  refine hother ⟨hlocal, fun option' ho => .inl ?_⟩
  rw [← Option.some.inj (htype.symm.trans ho)]
  exact hstream

theorem isSelected_iff (haddress : queries.address = some (address, length))
    (htype : queries.soType = some option) (hlocal : address.family = AF_LOCAL) :
    IsSelected selected queries ↔
      option.toInt = SOCK_STREAM ∧ socketPath address length ∈ selected := by
  constructor
  · rintro ⟨address', length', option', ha, ht, -, hstream, hpath⟩
    obtain ⟨rfl, rfl⟩ := Prod.mk.inj (Option.some.inj (haddress.symm.trans ha))
    obtain rfl := Option.some.inj (htype.symm.trans ht)
    exact ⟨hstream, hpath⟩
  · rintro ⟨hstream, hpath⟩
    exact ⟨address, length, option, haddress, htype, hlocal, hstream, hpath⟩

theorem usageEstablished_iff (haddress : queries.address = some (address, length)) :
    UsageEstablished debug memory useTssx queries set selected ↔
      (address.family = AF_LOCAL → ∃ option,
        queries.soType = some option ∧ (option.toInt = SOCK_STREAM ∨ option.toInt = ERROR →
          (2 ≤ length.toInt ∧ length.toInt < 128) ∧
          (ssIsInitialized set = false → InitializationFits debug memory useTssx) ∧
          (option.toInt = ERROR → socketPath address length ∉ selected))) := by
  unfold UsageEstablished
  simp [haddress]

theorem propagates_of_local {set' : StringSet} {option : BitVec 32}
    (haddress : queries.address = some (address, length)) (hlocal : address.family = AF_LOCAL)
    (htype : queries.soType = some option)
    (hcode : option.toInt = SOCK_STREAM ∨ option.toInt = ERROR)
    (hc : checkTssxUsage debug memory useTssx queries set =
      some (if socketPath address length ∈ selected then 1 else 0, set')) :
    PropagatesFailures debug memory useTssx queries set selected ↔
      (option.toInt = ERROR → socketPath address length ∉ selected) := by
  have hno : ¬ UsageFails queries := by
    rintro (hnone | ⟨_, _, -, -, hnone⟩)
    · rw [haddress] at hnone
      cases hnone
    · rw [htype] at hnone
      cases hnone
  have hone : ((if socketPath address length ∈ selected then (1 : Int) else 0) = 1) ↔
      socketPath address length ∈ selected := by
    split <;> simp [*]
  rw [propagates_iff hno hc (by split <;> simp), isSelected_iff haddress htype hlocal, hone]
  constructor
  · intro hiff herror hpath
    have hstream := (hiff.mp hpath).1
    rw [herror] at hstream
    cases hstream
  · intro herror
    refine ⟨fun hpath => ⟨?_, hpath⟩, And.right⟩
    exact hcode.resolve_right fun he => herror he hpath

/-- **`check_tssx_usage` propagates failures** exactly where its answer is established without
looking at them. -/
theorem checkTssxUsage_propagates (debug : Bool) (memory : SelectiveMemory)
    (useTssx : Option CString) (queries : UsageQueries) (set : StringSet)
    (strings : Finset CString) (h : RepresentsSet set strings)
    (hdistinct : BlocksDistinct memory (selectedPaths useTssx).length) :
    PropagatesFailures debug memory useTssx queries set (selection set strings useTssx) ↔
      UsageEstablished debug memory useTssx queries set (selection set strings useTssx) := by
  cases haddress : queries.address with
  | none =>
    refine iff_of_false ?_ ?_
    · rintro ⟨answer, set', hc, hfails, -⟩
      rw [hfails (.inl haddress)] at hc
      exact checkTssxUsage_noAddress haddress set' hc
    · rintro ⟨address, length, ha, -⟩
      rw [haddress] at ha
      cases ha
  | some found =>
    obtain ⟨address, length⟩ := found
    have hget : getSocketAddress queries = (address, length.toInt) := by
      rw [getSocketAddress, haddress]
    rw [usageEstablished_iff haddress]
    by_cases hgoes : address.family = AF_LOCAL ∧ ∀ option, queries.soType = some option →
        option.toInt = SOCK_STREAM ∨ option.toInt = ERROR
    · obtain ⟨hlocal, htypes⟩ := hgoes
      obtain ⟨hmade, hcrash⟩ := checkTssxUsage_proceeds debug h hdistinct
        (congrArg Prod.snd hget)
        (by rw [hget, isDomainAndStreamSocket_eq, if_pos ⟨hlocal, htypes⟩])
      rw [hget] at hmade
      by_cases hfits : (2 ≤ length.toInt ∧ length.toInt < 128) ∧
          (ssIsInitialized set = false → InitializationFits debug memory useTssx)
      · obtain ⟨set', hc⟩ := hmade hfits
        cases htype : queries.soType with
        | none =>
          refine iff_of_false ?_ fun hall => ?_
          · rintro ⟨answer, set'', hc', hfails, -⟩
            obtain ⟨hanswer, -⟩ := Prod.mk.inj (Option.some.inj (hc.symm.trans hc'))
            rw [hfails (.inr ⟨address, length, haddress, hlocal, htype⟩)] at hanswer
            split at hanswer <;> cases hanswer
          · obtain ⟨option, ho, -⟩ := hall hlocal
            cases ho
        | some option =>
          have hcode := htypes option htype
          rw [propagates_of_local haddress hlocal htype hcode hc]
          constructor
          · exact fun herror _ => ⟨option, rfl, fun _ => ⟨hfits.1, hfits.2, herror⟩⟩
          · intro hall
            obtain ⟨option', ho, hrest⟩ := hall hlocal
            obtain rfl := Option.some.inj ho
            exact (hrest hcode).2.2
      · refine iff_of_false ?_ fun hall => ?_
        · rintro ⟨answer, set', hc, -⟩
          rw [hcrash hfits] at hc
          cases hc
        · obtain ⟨option, ho, hrest⟩ := hall hlocal
          obtain ⟨hin, hinit, -⟩ := hrest (htypes option ho)
          exact hfits ⟨hin, hinit⟩
    · refine iff_of_true (propagates_of_other haddress hgoes) fun hlocal => ?_
      have hother : ¬ ∀ option, queries.soType = some option →
          option.toInt = SOCK_STREAM ∨ option.toInt = ERROR := fun hall => hgoes ⟨hlocal, hall⟩
      push Not at hother
      obtain ⟨option, ho, hstream, herror⟩ := hother
      refine ⟨option, ho, ?_⟩
      rintro (hs | he)
      · exact absurd hs hstream
      · exact absurd he herror

/-- A local address with the path `/a`. -/
private def localAddress : SocketStorage where
  family := AF_LOCAL
  path := [47, 97] ++ List.replicate 124 0
  size := rfl

/-- The queries for a socket with the path `/a`. -/
private def localQueries (soType : Option (BitVec 32)) : UsageQueries where
  garbage := localAddress
  address := some (localAddress, 4)
  soType := soType

/-- One block that is large enough. -/
private def oneBlock : SelectiveMemory where
  buffer := 24
  block := fun _ => firstBlock

/-- A local stream socket. -/
theorem stream_propagates :
    PropagatesFailures false oneBlock (some slashA) (localQueries (some 1)) .zero
      (selection .zero ∅ (some slashA)) :=
  (checkTssxUsage_propagates false oneBlock (some slashA) (localQueries (some 1)) .zero ∅
    (.of_empty (.inl rfl) rfl rfl) (by decide)).mpr
    ⟨localAddress, 4, rfl, fun _ => ⟨1, rfl, fun _ => ⟨by decide, fun _ => by decide +kernel,
      fun herror => absurd herror (by decide)⟩⟩⟩

/-- **A socket whose type could not be found** uses TSSX if its path is selected. -/
theorem typeError_ignored :
    ¬ ∀ (debug : Bool) (memory : SelectiveMemory) (useTssx : Option CString)
      (queries : UsageQueries) (set : StringSet) (strings : Finset CString),
      RepresentsSet set strings → BlocksDistinct memory (selectedPaths useTssx).length →
        PropagatesFailures debug memory useTssx queries set (selection set strings useTssx) := by
  intro h
  have hdistinct : BlocksDistinct oneBlock (selectedPaths (some slashA)).length := by decide
  obtain ⟨answer, set', hc, hfails, -⟩ := h false oneBlock (some slashA) (localQueries none) .zero
    ∅ (.of_empty (.inl rfl) rfl rfl) hdistinct
  have hone : (checkTssxUsage false oneBlock (some slashA) (localQueries none) .zero).map
      Prod.fst = some 1 := by decide +kernel
  rw [hc, Option.map_some, hfails (.inr ⟨localAddress, 4, rfl, rfl, rfl⟩)] at hone
  cases hone

end Tssx
