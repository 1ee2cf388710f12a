import Tssx.Experiment.Ends

/-!
# The experiment runs through

The client and the server of the experiment play the script of one byte and `count` rounds of a
message and its answer.  `ping_pong`: if no message crosses the end of the memory of its buffer,
no interleaving makes a program throw before a check finds the peer gone, and none makes both
wait.  `ping_pong_ends`: every weakly fair schedule brings both to their end.

Neither condition can be dropped.  A message that crosses the end is published in two parts, and
a server that finds the first one throws (`ping_pong_cut`); with messages of 4096 bytes and
buffers of 1000000 that is the 245th.  And a server that has sent its last answer closes, upon
which the client's last read returns nothing (`ping_pong_last`).
-/

namespace Tssx

/-- The rounds of the experiment. -/
def rounds (args : Arguments) : Nat → Script
  | 0 => []
  | count + 1 => (.client, args.message) :: (.server, args.message) :: rounds args count

def experimentScript (first : UInt8) (args : Arguments) : Script :=
  (.client, [first]) :: rounds args args.count.toNat

/-- A program that throws nothing else than `message` after a read. -/
def ReadThrows (message : String) : Program → Prop
  | .read _ next => ∀ returned, (∀ thrown, next returned = .throw thrown → thrown = message) ∧
      ReadThrows message (next returned)
  | .write _ next => ∀ returned, ReadThrows message (next returned)
  | .throw _ | .cleanup => True

def Control.ReadThrows (message : String) : Control → Prop
  | .run program => Tssx.ReadThrows message program
  | .writing next => ∀ returned, Tssx.ReadThrows message (next returned)
  | .reading next => ∀ returned, (∀ thrown, next returned = .throw thrown → thrown = message) ∧
      Tssx.ReadThrows message (next returned)
  | .exiting _ => True

/-- A message of `n` bytes behind `start` others does not cross the end of the memory. -/
def Uncut (c start n : Nat) : Prop := start % c + n ≤ c

instance (c start n : Nat) : Decidable (Uncut c start n) := inferInstanceAs (Decidable (_ ≤ _))

section Script

variable {first : UInt8} {args : Arguments} {n count i j : Nat} {x : Side × List UInt8}

theorem careful_ne {size : Int} {message : String} {next : Program} (hsize : (n : Int) = size) :
    Careful n fun returned => if returned ≠ size then .throw message else next := by
  intro returned hlt
  exact ⟨message, if_pos (by omega)⟩

theorem careful_lt {message : String} {next : Program} :
    Careful 1 fun returned => if returned < 1 then .throw message else next := by
  intro returned hlt
  exact ⟨message, if_pos hlt⟩

theorem plays_client (hsize : (args.message.length : Int) = args.size)
    (hrequested : sizeT args.size = args.message.length) (count : Nat) :
    Plays .client (rounds args count) (clientLoop args count) := by
  induction count with
  | zero => rfl
  | succ count ih =>
    refine ⟨_, rfl, careful_ne hsize, ?_⟩
    rw [hsize, if_neg (not_not_intro rfl), hrequested]
    refine ⟨_, rfl, careful_ne hsize, ?_⟩
    rw [hsize, if_neg (not_not_intro rfl)]
    exact ih

theorem plays_server (hsize : (args.message.length : Int) = args.size)
    (hrequested : sizeT args.size = args.message.length) (hcount : 0 < args.count)
    (count : Nat) : Plays .server (rounds args count) (serverLoop args count) := by
  induction count with
  | zero => exact if_pos hcount
  | succ count ih =>
    unfold serverLoop
    rw [hrequested]
    refine ⟨_, rfl, careful_ne hsize, ?_⟩
    rw [hsize, if_neg (not_not_intro rfl)]
    refine ⟨_, rfl, careful_ne hsize, ?_⟩
    rw [hsize, if_neg (not_not_intro rfl)]
    exact ih

theorem plays_communicate (hsize : (args.message.length : Int) = args.size)
    (hrequested : sizeT args.size = args.message.length) (hcount : 0 < args.count)
    (side : Side) : Plays side (experimentScript first args) (communicate first args side) := by
  cases side with
  | client => exact ⟨_, rfl, careful_lt, plays_client hsize hrequested _⟩
  | server => exact ⟨_, rfl, careful_lt, plays_server hsize hrequested hcount _⟩

theorem rounds_getElem? (hx : (rounds args count)[j]? = some x) :
    ∃ i < count, (j = 2 * i ∧ x = (.client, args.message)) ∨
      j = 2 * i + 1 ∧ x = (.server, args.message) := by
  induction count generalizing j with
  | zero => cases hx
  | succ count ih =>
    rcases j with _ | _ | j
    · exact ⟨0, count.succ_pos, .inl ⟨rfl, (Option.some.inj hx).symm⟩⟩
    · exact ⟨0, count.succ_pos, .inr ⟨rfl, (Option.some.inj hx).symm⟩⟩
    · obtain ⟨i, hi, h⟩ := ih (j := j) hx
      refine ⟨i + 1, Nat.succ_lt_succ hi, ?_⟩
      rcases h with ⟨hj, hmessage⟩ | ⟨hj, hmessage⟩
      · exact .inl ⟨by omega, hmessage⟩
      · exact .inr ⟨by omega, hmessage⟩

theorem experimentScript_getElem? (hx : (experimentScript first args)[j]? = some x) :
    (j = 0 ∧ x = (.client, [first])) ∨ ∃ i < args.count.toNat,
      (j = 2 * i + 1 ∧ x = (.client, args.message)) ∨
        j = 2 * i + 2 ∧ x = (.server, args.message) := by
  cases j with
  | zero => exact .inl ⟨rfl, (Option.some.inj hx).symm⟩
  | succ j =>
    obtain ⟨i, hi, h⟩ := rounds_getElem? (j := j) hx
    refine .inr ⟨i, hi, ?_⟩
    rcases h with ⟨hj, hmessage⟩ | ⟨hj, hmessage⟩
    · exact .inl ⟨by omega, hmessage⟩
    · exact .inr ⟨by omega, hmessage⟩

theorem rounds_client (hi : i < count) :
    (rounds args count)[2 * i]? = some (.client, args.message) := by
  induction i generalizing count with
  | zero =>
    cases count with
    | zero => exact absurd hi (Nat.lt_irrefl 0)
    | succ count => rfl
  | succ i ih =>
    cases count with
    | zero => exact absurd hi (Nat.not_lt_zero _)
    | succ count => exact ih (Nat.lt_of_succ_lt_succ hi)

theorem rounds_server (hi : i < count) :
    (rounds args count)[2 * i + 1]? = some (.server, args.message) := by
  induction i generalizing count with
  | zero =>
    cases count with
    | zero => exact absurd hi (Nat.lt_irrefl 0)
    | succ count => rfl
  | succ i ih =>
    cases count with
    | zero => exact absurd hi (Nat.not_lt_zero _)
    | succ count => exact ih (Nat.lt_of_succ_lt_succ hi)

theorem sent_rounds (hi : i ≤ args.count.toNat) :
    sent (experimentScript first args) .client (2 * i + 1) = 1 + i * args.message.length ∧
      sent (experimentScript first args) .server (2 * i + 1) = i * args.message.length := by
  induction i with
  | zero => simp [sent, experimentScript]
  | succ i ih =>
    obtain ⟨hclient, hserver⟩ := ih (Nat.le_of_succ_le hi)
    have hask : (experimentScript first args)[2 * i + 1]? = some (.client, args.message) :=
      rounds_client hi
    have hanswer : (experimentScript first args)[2 * i + 1 + 1]? = some (.server, args.message) :=
      rounds_server hi
    rw [show 2 * (i + 1) + 1 = 2 * i + 1 + 1 + 1 by omega, sent_self hanswer,
      sent_succ hanswer .client, sent_self hask, sent_succ hask .server, hclient, hserver]
    simp only [reduceCtorEq, if_false, Nat.add_zero, Nat.succ_mul, Nat.add_assoc, and_self]

theorem sent_answer (hi : i < args.count.toNat) :
    sent (experimentScript first args) .server (2 * i + 2) = i * args.message.length := by
  have hask : (experimentScript first args)[2 * i + 1]? = some (.client, args.message) :=
    rounds_client hi
  rw [sent_succ hask .server, (sent_rounds hi.le).2]
  rfl

theorem rounds_length (args : Arguments) (count : Nat) :
    (rounds args count).length = 2 * count := by
  induction count with
  | zero => rfl
  | succ count ih => simp only [rounds, List.length_cons, ih]; omega

theorem sent_end (hj : (experimentScript first args).length ≤ j) :
    sent (experimentScript first args) .server j = args.count.toNat * args.message.length := by
  have hlength : (experimentScript first args).length = 2 * args.count.toNat + 1 := by
    simp [experimentScript, rounds_length]
  rw [← (@sent_rounds first args _ le_rfl).2, sent, sent, List.take_of_length_le hj,
    List.take_of_length_le hlength.le]

theorem LastRead.client {side : Side} (h : LastRead (experimentScript first args) side j)
    (hcount : 0 < args.count) :
    side = .client ∧ ∃ i, i + 1 = args.count.toNat ∧ j = 2 * i + 2 := by
  obtain ⟨⟨data, hread⟩, hnone⟩ := h
  have hserver : ∀ i, j ≤ 2 * i + 2 → i < args.count.toNat → side ≠ .server := by
    rintro i hle hi rfl
    exact hnone _ hle _ (rounds_server hi)
  have hclient : ∀ i, j ≤ 2 * i + 1 → i < args.count.toNat → side ≠ .client := by
    rintro i hle hi rfl
    exact hnone _ hle _ (rounds_client hi)
  rcases experimentScript_getElem? hread with ⟨h0, -⟩ | ⟨i, hi, ⟨hji, heq⟩ | ⟨hji, heq⟩⟩
  · -- an answer is still to come
    have hside := hserver 0 (by omega) (by omega)
    exact absurd (hclient 0 (by omega) (by omega)) (by cases side <;> simp_all)
  · obtain ⟨hpeer, -⟩ := Prod.mk.inj heq
    refine absurd ?_ (hserver i (by omega) hi)
    cases side <;> simp_all [Side.peer]
  · obtain ⟨hpeer, -⟩ := Prod.mk.inj heq
    obtain rfl : side = .client := by cases side <;> simp_all [Side.peer]
    refine ⟨rfl, i, ?_, hji⟩
    by_contra hne
    exact hclient (i + 1) (by omega) (by omega) rfl

end Script

/-! ### What the client throws -/

section Messages

variable {message : String} {first : UInt8} {args : Arguments} {s t : Experiment}
  {actions : List Side} {side : Side}

theorem readThrows_clientLoop (args : Arguments) (count : Nat) :
    ReadThrows "Error reading on client-side" (clientLoop args count) := by
  induction count with
  | zero => trivial
  | succ count ih =>
    intro written
    dsimp only
    split
    · trivial
    · intro received
      dsimp only
      split
      · exact ⟨fun thrown h => (Program.throw.inj h).symm, trivial⟩
      · refine ⟨fun thrown h => ?_, ih⟩
        cases count <;> cases h

theorem readThrows_client (first : UInt8) (args : Arguments) :
    ReadThrows "Error reading on client-side" (clientCommunicate first args) := by
  intro written
  dsimp only
  split
  · trivial
  · exact readThrows_clientLoop args _

theorem Control.readThrows_step (h : (s.control side).ReadThrows message)
    (hs : experimentStep s side = some t) : (t.control side).ReadThrows message := by
  have hcall : ∀ a control, s.call side a control = some t → control.ReadThrows message →
      (t.control side).ReadThrows message := by
    intro a control hs hcontrol
    obtain ⟨sides, -, rfl⟩ := Option.map_eq_some_iff.mp hs
    simpa only [Experiment.goto, Function.update_self] using hcontrol
  unfold experimentStep at hs
  cases hcontrol : s.control side with
  | run program =>
    rw [hcontrol] at h
    cases program with
    | write data next | read requestedBytes next =>
      simp only [hcontrol] at hs
      exact hcall _ _ hs h
    | throw thrown | cleanup =>
      simp only [hcontrol] at hs
      exact hcall _ _ hs trivial
  | writing next =>
    rw [hcontrol] at h
    simp only [hcontrol] at hs
    split at hs
    · obtain ⟨record, -, rfl⟩ := Option.map_eq_some_iff.mp hs
      simp only [Experiment.goto, Function.update_self]
      exact h _
    · exact hcall _ _ hs h
  | reading next =>
    rw [hcontrol] at h
    simp only [hcontrol] at hs
    split at hs
    · obtain ⟨record, -, rfl⟩ := Option.map_eq_some_iff.mp hs
      simp only [Experiment.goto, Function.update_self]
      exact (h _).2
    · exact hcall _ _ hs h
  | exiting thrown =>
    simp only [hcontrol] at hs
    exact hcall _ _ hs trivial

/-- **Wherever the client is**, a read that fails makes it throw the same. -/
theorem readThrows_run {buffer : Side → Buffer}
    (hrun : Run.run experimentStep (.start buffer (communicate first args)) actions = some s) :
    (s.control .client).ReadThrows "Error reading on client-side" := by
  refine Run.run_induct
    (I := fun s => (s.control .client).ReadThrows "Error reading on client-side") ?_ ?_ hrun
  · intro s side t h hs
    cases side with
    | client => exact Control.readThrows_step h hs
    | server =>
      have hpeer : t.control .client = s.control .client := (experimentStep_own hs).1
      rwa [hpeer]
  · exact readThrows_client first args

end Messages

/-- What the experiment asks of its buffers. -/
structure Suits (buffer : Side → Buffer) (args : Arguments) : Prop where
  /-- The assertion of `evaluate`. -/
  count_pos : 0 < args.count
  size_pos : 0 < args.size
  size_lt : args.size < 2 ^ 31
  two_le : ∀ side, 2 ≤ (buffer side).capacity
  le_max : ∀ side, (buffer side).capacity ≤ MAX_CAPACITY
  blocking : ∀ side operation, (buffer side).timeouts.nonBlocking operation = false
  /-- The messages come after the first byte. -/
  client : ∀ i < args.count.toNat,
    Uncut (buffer .client).capacity (1 + i * args.size.toNat) args.size.toNat
  server : ∀ i < args.count.toNat,
    Uncut (buffer .server).capacity (i * args.size.toNat) args.size.toNat

namespace Suits

variable {buffer : Side → Buffer} {first : UInt8} {args : Arguments} {actions : List Side}
  {s t : Experiment}

theorem requested_eq (h : Suits buffer args) : sizeT args.size = args.size.toNat := by
  have hpos := h.size_pos
  have hlt := h.size_lt
  exact sizeT_eq (by omega) (by omega)

theorem length_eq (h : Suits buffer args) : args.message.length = args.size.toNat := by
  rw [Arguments.message, List.length_replicate, h.requested_eq]

theorem whole (h : Suits buffer args) {j : Nat} {sender : Side} {data : List UInt8}
    (hj : (experimentScript first args)[j]? = some (sender, data)) :
    Uncut (buffer sender).capacity (sent (experimentScript first args) sender j) data.length := by
  have htwo := h.two_le .client
  rcases experimentScript_getElem? hj with ⟨rfl, heq⟩ | ⟨i, hi, ⟨rfl, heq⟩ | ⟨rfl, heq⟩⟩ <;>
    obtain ⟨rfl, rfl⟩ := Prod.mk.inj heq
  · show 0 % (buffer .client).capacity + 1 ≤ (buffer .client).capacity
    rw [Nat.zero_mod]
    omega
  · rw [(sent_rounds hi.le).1, h.length_eq]
    exact h.client i hi
  · rw [sent_answer hi, h.length_eq]
    exact h.server i hi

/-- The first byte and the first message are the only transfers of one sender in a row. -/
theorem room (h : Suits buffer args) {j m : Nat} {sender : Side} {data : List UInt8}
    (hj : (experimentScript first args)[j]? = some (sender, data)) (hm : m ≤ j)
    (hown : ∀ i, m ≤ i → i < j →
      ∃ d, (experimentScript first args)[i]? = some (sender, d)) :
    sent (experimentScript first args) sender j + data.length ≤
      sent (experimentScript first args) sender m + (buffer sender).capacity := by
  have hwhole := h.whole hj
  unfold Uncut at hwhole
  rcases Nat.eq_or_lt_of_le hm with rfl | hlt
  · omega
  · obtain ⟨d, hd⟩ := hown (j - 1) (by omega) (by omega)
    rcases experimentScript_getElem? hj with ⟨rfl, -⟩ | ⟨i, hi, ⟨rfl, heq⟩ | ⟨rfl, heq⟩⟩
    · omega
    · obtain ⟨rfl, rfl⟩ := Prod.mk.inj heq
      rcases experimentScript_getElem? hd with ⟨hfirst, -⟩ | ⟨k, -, ⟨hk, -⟩ | ⟨-, hk⟩⟩
      · obtain rfl : i = 0 := by omega
        have htwo := h.two_le .client
        rw [(sent_rounds (Nat.zero_le _)).1, Nat.zero_mul, Nat.add_zero] at hwhole ⊢
        rw [Nat.mod_eq_of_lt (by omega)] at hwhole
        omega
      · omega
      · cases hk
    · obtain ⟨rfl, rfl⟩ := Prod.mk.inj heq
      rcases experimentScript_getElem? hd with ⟨hfirst, -⟩ | ⟨k, -, ⟨-, hk⟩ | ⟨hk, -⟩⟩
      · omega
      · cases hk
      · omega

theorem fits (h : Suits buffer args) (first : UInt8) :
    Fits (fun side => (buffer side).capacity) (experimentScript first args) where
  nonempty := by
    intro x hx
    obtain ⟨j, hj⟩ := List.mem_iff_getElem?.mp hx
    have hpos := h.size_pos
    have hmessage : args.message ≠ [] := by
      refine List.ne_nil_of_length_pos ?_
      rw [h.length_eq]
      omega
    rcases experimentScript_getElem? hj with ⟨-, rfl⟩ | ⟨i, -, ⟨-, rfl⟩ | ⟨-, rfl⟩⟩
    · exact List.cons_ne_nil _ _
    · exact hmessage
    · exact hmessage
  whole := h.whole
  room := fun hj _ hm hown => h.room hj hm hown

theorem exchangeInv_start (h : Suits buffer args) (first : UInt8) :
    ExchangeInv (fun side => (buffer side).capacity) (experimentScript first args)
      (.start buffer (communicate first args)) fun _ => 0 where
  sides := sidesInv_init (fun side => le_trans (by decide) (h.two_le side)) h.le_max
  blocking := h.blocking
  track := by
    intro side
    have hpos := h.size_pos
    refine .run rfl (plays_communicate ?_ ?_ h.count_pos side) rfl rfl
    · rw [h.length_eq]
      omega
    · rw [h.length_eq, h.requested_eq]
  answered := fun side => ⟨0, le_rfl, fun i _ hi => absurd hi (Nat.not_lt_zero i), le_rfl⟩

theorem run_inv (h : Suits buffer args)
    (hmeets : Run.Meets experimentStep FindsPeer (.start buffer (communicate first args)) actions)
    (hrun : Run.run experimentStep (.start buffer (communicate first args)) actions = some s) :
    (∃ j, ExchangeInv (fun side => (buffer side).capacity) (experimentScript first args) s j) ∧
      ∀ side, Engaged s.sides side := by
  refine Run.meets_induct (I := fun s => (∃ j, ExchangeInv (fun side => (buffer side).capacity)
    (experimentScript first args) s j) ∧ ∀ side, Engaged s.sides side) ?_ ?_ hmeets hrun
  · rintro s side t ⟨⟨j, hj⟩, he⟩ hfinds ht
    obtain ⟨j', hj', -⟩ := hj.step (h.fits first) hfinds ht
    exact ⟨⟨j', hj'⟩, hj.step_engaged he ht⟩
  · exact ⟨⟨_, h.exchangeInv_start first⟩, fun side => ⟨by simp [Experiment.start, Sides.init],
      by simp [Experiment.start, Sides.init]⟩⟩

end Suits

private def twoByteBuffers : Side → Buffer := fun _ => .fresh (fun _ => 0) 2 ⟨fun _ => false⟩

private theorem twoByteBuffers_suits : Suits twoByteBuffers ⟨1, 1⟩ where
  count_pos := by decide
  size_pos := by decide
  size_lt := by decide
  two_le := fun _ => le_rfl
  le_max := fun _ => show 2 ≤ MAX_CAPACITY by decide
  blocking := fun _ _ => rfl
  client := by decide
  server := by decide

/-- **No interleaving of the two programs goes wrong** before a call finds its peer gone: neither
throws, and they never both wait. -/
theorem ping_pong {buffer : Side → Buffer} {first : UInt8} {args : Arguments}
    {actions : List Side} {s : Experiment} (h : Suits buffer args)
    (hmeets : Run.Meets experimentStep FindsPeer (.start buffer (communicate first args)) actions)
    (hrun : Run.run experimentStep (.start buffer (communicate first args)) actions = some s) :
    (∀ side, s.thrown side = none) ∧
      ((∀ side, s.finished side = true) ∨
        ∃ side t, experimentStep s side = some t ∧ s.sides.starved side = false) := by
  obtain ⟨⟨j, hj⟩, he⟩ := h.run_inv hmeets hrun
  exact ⟨hj.thrown_eq, hj.goes_on (h.fits first) he⟩

/-- Both programs come to their end. -/
theorem ping_pong_at :
    ∃ s, Run.run experimentStep (.start twoByteBuffers (communicate 0 ⟨1, 1⟩))
        (List.replicate 30 .client ++ List.replicate 43 .server ++ List.replicate 12 .client) =
          some s ∧
      (∀ side, s.thrown side = none) ∧
      ((∀ side, s.finished side = true) ∨
        ∃ side t, experimentStep s side = some t ∧ s.sides.starved side = false) := by
  obtain ⟨s, hs⟩ := Option.isSome_iff_exists.mp (show (Run.run experimentStep
    (.start twoByteBuffers (communicate 0 ⟨1, 1⟩)) (List.replicate 30 .client ++
      List.replicate 43 .server ++ List.replicate 12 .client)).isSome by decide +kernel)
  exact ⟨s, hs, ping_pong twoByteBuffers_suits (by decide +kernel) hs⟩

/-- **Both programs come to their end**, whatever the schedule, unless it makes a live process wait
for ever; and the server does not throw. -/
theorem ping_pong_ends {buffer : Side → Buffer} {first : UInt8} {args : Arguments}
    {schedule : ℕ → Side} {states : ℕ → Experiment} (h : Suits buffer args)
    (hstart : states 0 = .start buffer (communicate first args))
    (hexec : Run.Executes experimentStep (fun s => ∀ side, s.finished side = true) schedule states)
    (hfair : Run.WeaklyFair Experiment.live schedule states) :
    ∃ n, (∀ side, (states n).finished side = true) ∧ (states n).thrown .server = none := by
  have hinv := h.exchangeInv_start first
  rw [← hstart] at hinv
  obtain ⟨n, hfinished, hthrown⟩ := hinv.fair_ends (h.fits first) hexec hfair
  refine ⟨n, hfinished, ?_⟩
  by_contra hserver
  obtain ⟨⟨k, hlast⟩, -⟩ := hthrown .server hserver
  cases (hlast.client h.count_pos).1

/-- One of them: the client, the server and the client again. -/
theorem ping_pong_ends_at :
    ∃ schedule states, states 0 = .start twoByteBuffers (communicate 0 ⟨1, 1⟩) ∧
      Run.Executes experimentStep (fun s => ∀ side, s.finished side = true) schedule states ∧
      ∃ n, (∀ side, (states n).finished side = true) ∧ (states n).thrown .server = none := by
  obtain ⟨s, hs, hfinished⟩ := (Option.any_eq_true _ _).mp (show (Run.run experimentStep
    (.start twoByteBuffers (communicate 0 ⟨1, 1⟩)) (List.replicate 30 .client ++
      List.replicate 43 .server ++ List.replicate 12 .client)).any
    (fun s => s.finished .server && s.finished .client) by decide +kernel)
  rw [Bool.and_eq_true] at hfinished
  have hall : ∀ side, s.finished side = true := by
    intro side
    cases side with
    | server => exact hfinished.1
    | client => exact hfinished.2
  have hidle : ∀ (s : Experiment) side, (∀ side, s.finished side = true) → ¬s.live side := by
    rintro s side hs ⟨hlive, -⟩
    cases (hs side).symm.trans hlive
  have : Inhabited Side := ⟨.client⟩
  obtain ⟨schedule, states, hstart, hexec, hfair⟩ := Run.exists_fair hs hall hidle
  exact ⟨schedule, states, hstart, hexec,
    ping_pong_ends twoByteBuffers_suits hstart hexec hfair⟩

/-- **A message that crosses the end**: the server finds its first byte, and throws. -/
theorem ping_pong_cut : ¬Uncut 4 (1 + 1 * 2) 2 ∧
    ∃ s, Run.run experimentStep
        (.start (fun _ => .fresh (fun _ => 0) 4 ⟨fun _ => false⟩) (communicate 0 ⟨2, 2⟩))
        (List.replicate 24 .client ++ List.replicate 34 .server ++ List.replicate 21 .client ++
          List.replicate 16 .server) = some s ∧
      s.thrown .server = some "Error reading on server-side" := by
  refine ⟨by decide, ?_⟩
  obtain ⟨s, hs, hthrown⟩ := (Option.any_eq_true _ _).mp (show (Run.run experimentStep
    (.start (fun _ => .fresh (fun _ => 0) 4 ⟨fun _ => false⟩) (communicate 0 ⟨2, 2⟩))
    (List.replicate 24 .client ++ List.replicate 34 .server ++ List.replicate 21 .client ++
      List.replicate 16 .server)).any
    (fun s => s.thrown .server = some "Error reading on server-side") by decide +kernel)
  exact ⟨s, hs, of_decide_eq_true hthrown⟩

/-- **Only the client's last read** can find its peer gone: then the last answer, and nothing else,
waits in the buffer, and the client throws. -/
theorem ping_pong_last {buffer : Side → Buffer} {first : UInt8} {args : Arguments}
    {actions : List Side} {s : Experiment} {side : Side} (h : Suits buffer args)
    (hmeets : Run.Meets experimentStep FindsPeer (.start buffer (communicate first args)) actions)
    (hrun : Run.run experimentStep (.start buffer (communicate first args)) actions = some s)
    (hmiss : ¬FindsPeer s side) :
    side = .client ∧ s.sides.pc .client = .checkRead (sizeT args.size) ∧
      (s.sides.ring .server).history.published = args.count * args.size ∧
      (s.sides.ring .server).history.released = (args.count - 1) * args.size ∧
      ∃ t u, experimentStep s .client = some t ∧ experimentStep t .client = some u ∧
        u.thrown .client = some "Error reading on client-side" := by
  obtain ⟨⟨j, hj⟩, he⟩ := h.run_inv hmeets hrun
  obtain ⟨hlast, hrel, k, hk, hpub⟩ := hj.misses (h.fits first) hmiss
  have hcount := h.count_pos
  obtain ⟨rfl, i, hi, hji⟩ := hlast.client hcount
  obtain ⟨_, data, -, -, hdata, hpc⟩ := hj.missing_read (h.fits first) hmiss
  obtain ⟨t, u, next, received, message, ht, hreading, hthrow, hu, hthrown⟩ :=
    hj.throws (h.fits first) (he .client) hmiss
  have hpos := h.size_pos
  rw [Side.peer, sent_end hk, h.length_eq] at hpub
  rw [hji, Side.peer, sent_answer (show i < args.count.toNat by omega), h.length_eq] at hrel
  refine ⟨rfl, ?_, ?_, ?_, t, u, ht, hu, ?_⟩
  · have hanswer : (experimentScript first args)[j .client]? = some (.server, args.message) := by
      rw [hji]
      exact rounds_server (show i < args.count.toNat by omega)
    obtain ⟨-, rfl⟩ := Prod.mk.inj (Option.some.inj (hdata.symm.trans hanswer))
    rw [hpc, h.length_eq, h.requested_eq]
  · rw [hpub]
    push_cast
    rw [Int.toNat_of_nonneg hcount.le, Int.toNat_of_nonneg hpos.le]
  · rw [hrel, show args.count - 1 = i by omega]
    push_cast
    rw [Int.toNat_of_nonneg hpos.le]
  · have hread := Control.readThrows_step (readThrows_run hrun) ht
    rw [hreading] at hread
    rw [hthrown, (hread received).1 message hthrow]

/-- The server closes before the client makes the check of its last read. -/
theorem ping_pong_last_at :
    ∃ s, Run.run experimentStep (.start twoByteBuffers (communicate 0 ⟨1, 1⟩))
        (List.replicate 29 .client ++ List.replicate 42 .server) = some s ∧
      s.sides.pc .client = .checkRead 1 ∧
      (s.sides.ring .server).history.published = (1 : Int) ∧
      (s.sides.ring .server).history.released = (0 : Int) ∧
      ∃ t u, experimentStep s .client = some t ∧ experimentStep t .client = some u ∧
        u.thrown .client = some "Error reading on client-side" := by
  obtain ⟨s, hs, hmiss⟩ := (Option.any_eq_true _ _).mp (show (Run.run experimentStep
    (.start twoByteBuffers (communicate 0 ⟨1, 1⟩))
    (List.replicate 29 .client ++ List.replicate 42 .server)).any
    (fun s => ¬FindsPeer s .client) by decide +kernel)
  exact ⟨s, hs, (ping_pong_last twoByteBuffers_suits (by decide +kernel) hs
    (of_decide_eq_true hmiss)).2⟩

end Tssx
