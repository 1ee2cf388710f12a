import Mathlib.Algebra.Order.BigOperators.Group.List
import Mathlib.Algebra.Order.Group.Nat
import Tssx.Bridge.Bookkeeping

/-!
# The processes of a connection

Servers and clients that set up connections, fork, close descriptors and exit.  A forked
process has a copy of the bridge.  `open_count` is one counter for all processes of both
sides: it is the number of the live processes that hold the connection, as long as no
`real_fork` fails after `bridge_add_user` has counted the child.
-/

namespace Tssx

structure Process where
  side : Side
  alive : Bool := true
  bridge : Bridge := .initial
  deriving DecidableEq

structure System where
  memory : Memory
  /-- The segment that the next connection gets. -/
  nextConnection : Nat
  processes : List Process

/-- Processes that have not used the library, and no connection. -/
def System.init (sides : List Side) : System where
  memory := { segment := fun _ => { openCount := 0 } }
  nextConnection := 0
  processes := sides.map fun side => { side }

inductive ProcessAction
  /-- A completed `accept` of one process and `connect` of another. -/
  | handshake (server client : Nat) (serverFd clientFd : Int)
  | fork (i : Nat) (succeeds : Bool)
  | close (i : Nat) (fd : Int)
  | exit (i : Nat)
  deriving DecidableEq

/-- Process `i` if it is running. -/
def System.process (s : System) (i : Nat) : Option Process :=
  s.processes[i]?.bind fun process => if process.alive then some process else none

/-- `create_connection`, `setup_connection` and the two `bridge_insert` calls. -/
def handshake (s : System) (i j : Nat) (serverFd clientFd : Int) : Option System :=
  (s.process i).bind fun server =>
    (s.process j).bind fun client =>
      if server.side = .server ∧ client.side = .client then
        let session : Session := { connection := some s.nextConnection }
        (bridgeInsert server.bridge serverFd session).bind fun serverBridge =>
          (bridgeInsert client.bridge clientFd session).map fun clientBridge =>
            { memory := s.memory.set s.nextConnection (setupConnection createConnection)
              nextConnection := s.nextConnection + 1
              processes := (s.processes.set i { server with bridge := serverBridge }).set j
                { client with bridge := clientBridge } }
      else none

/-- `fork`: the users are counted first, and `real_fork` may still fail. -/
def fork (s : System) (i : Nat) (succeeds : Bool) : Option System :=
  (s.process i).bind fun process =>
    (bridgeAddUser s.memory process.bridge).map fun (memory, bridge) =>
      let parent := { process with bridge }
      let processes := s.processes.set i parent
      { s with memory, processes := if succeeds then processes ++ [parent] else processes }

/-- `close` of a descriptor without an epoll instance. -/
def closeDescriptor (s : System) (i : Nat) (fd : Int) : Option System :=
  (s.process i).bind fun process =>
    (bridgeErase s.memory process.bridge fd).map fun (memory, bridge) =>
      { s with memory, processes := s.processes.set i { process with bridge } }

/-- `exit`: the exit handler is registered by the set-up of the bridge. -/
def exitProcess (s : System) (i : Nat) : Option System :=
  (s.process i).bind fun process =>
    (if process.bridge.isInitialized then bridgeDestroy s.memory process.bridge
      else some s.memory).map fun memory =>
      { s with memory, processes := s.processes.set i { process with alive := false } }

def systemStep (s : System) : ProcessAction → Option System
  | .handshake i j serverFd clientFd => handshake s i j serverFd clientFd
  | .fork i succeeds => fork s i succeeds
  | .close i fd => closeDescriptor s i fd
  | .exit i => exitProcess s i

/-- The uses of a connection by a process. -/
def Process.uses (connection : Nat) (process : Process) : Nat :=
  if process.alive then process.bridge.uses connection else 0

def Process.holds (connection : Nat) (process : Process) : Bool :=
  0 < process.uses connection

/-- `real_fork` succeeds. -/
def ForkSucceeds (_ : System) : ProcessAction → Prop
  | .fork _ succeeds => succeeds = true
  | _ => True

instance (s : System) : ∀ a, Decidable (ForkSucceeds s a)
  | .fork _ succeeds => inferInstanceAs (Decidable (succeeds = true))
  | .handshake .. | .close .. | .exit _ => inferInstanceAs (Decidable True)

/-! ### The invariant -/

/-- What the processes need to know of the counters of their bridges.  `B n` is kept by every
operation, `n` being the number of connections so far, which have to be `Fits` many, and
`bridge_add_user` does not overlook a connection. -/
structure BridgeRule (Fits : Nat → Prop) (B : Nat → Bridge → Prop) : Prop where
  setUp : ∀ {n : Nat} {bridge : Bridge}, B n bridge → bridge.SetUp
  zero : ∀ {n : Nat} {bridge : Bridge}, B n bridge → bridge.ready.connectionCount = 0 →
    ∀ c, bridge.uses c = 0
  ready : ∀ {n : Nat} {bridge : Bridge}, B n bridge → B n bridge.ready
  later : ∀ {n : Nat} {bridge : Bridge}, B n bridge → B (n + 1) bridge
  insert : ∀ {n : Nat} {bridge bridge' : Bridge} {fd : Int} {session : Session}, Fits (n + 1) →
    B n bridge → bridgeInsert bridge fd session = some bridge' → B (n + 1) bridge'
  erase : ∀ {n : Nat} {bridge bridge' : Bridge} {memory memory' : Memory} {fd : Int},
    B n bridge → bridgeErase memory bridge fd = some (memory', bridge') → B n bridge'

/-- Without `bridge_destroy` the counters are exact. -/
theorem bridgeInv_rule : BridgeRule (fun _ => True) fun _ => BridgeInv where
  setUp := fun hb => hb.initial
  zero := fun hb h0 _ => uses_ready hb.initial ▸ hb.ready.no_uses h0
  ready := fun hb => hb.ready
  later := fun hb => hb
  insert := fun _ hb h => (@bridgeInsert_spec _ _ _ _ 0 hb h).1
  erase := fun hb h => (@bridgeErase_spec _ _ _ _ _ 0 hb h).1

/-- `uncounted c` users of the connection `c` are no processes: the children that have been counted
for a `real_fork` that failed. -/
structure SystemInv (B : Nat → Bridge → Prop) (uncounted : Nat → Nat) (s : System) : Prop where
  bridge : ∀ process ∈ s.processes, B s.nextConnection process.bridge
  once : ∀ process ∈ s.processes, ∀ c, process.bridge.uses c ≤ 1
  fresh : ∀ process ∈ s.processes, ∀ c, s.nextConnection ≤ c → process.bridge.uses c = 0
  new : ∀ c, s.nextConnection ≤ c → uncounted c = 0
  count : ∀ c < s.nextConnection, (s.memory.segment c).openCount =
    ((s.processes.map (Process.uses c)).sum + uncounted c : Nat)
  kept : ∀ c < s.nextConnection, (s.memory.segment c).removed = true →
    (s.memory.segment c).openCount = 0

variable {s t : System} {i : Nat} {Fits : Nat → Prop} {B : Nat → Bridge → Prop}
  {uncounted : Nat → Nat}

theorem systemInv_init (sides : List Side) (hinitial : B 0 .initial) :
    SystemInv B (fun _ => 0) (.init sides) := by
  have hnew : ∀ process ∈ (System.init sides).processes, process.bridge = .initial := by
    intro process hp
    obtain ⟨side, -, rfl⟩ := List.mem_map.mp hp
    rfl
  refine ⟨?_, ?_, ?_, fun _ _ => rfl, ?_, ?_⟩
  · intro p hp
    rw [hnew p hp]
    exact hinitial
  · intro p hp c
    rw [hnew p hp, uses_initial]
    exact Nat.zero_le 1
  · intro p hp c _
    rw [hnew p hp, uses_initial]
  · intro c hc
    exact absurd hc (Nat.not_lt_zero c)
  · intro c hc
    exact absurd hc (Nat.not_lt_zero c)

theorem System.process_eq {process : Process} (h : s.process i = some process) :
    s.processes[i]? = some process ∧ process.alive = true := by
  obtain ⟨p, hp, h⟩ := Option.bind_eq_some_iff.mp h
  split at h
  · rename_i halive
    obtain rfl := Option.some.inj h
    exact ⟨hp, halive⟩
  · cases h

/-! ### Removed segments -/

section Removed

variable {memory memory' : Memory} {c : Nat}

theorem sessionInvalidate_removed {session session' : Session}
    (h : sessionInvalidate memory session = some (memory', session'))
    (hr : (memory'.segment c).removed = true) :
    (memory.segment c).removed = true ∨ (memory'.segment c).openCount ≤ 0 := by
  obtain ⟨ref⟩ := session
  cases ref with
  | none =>
    obtain ⟨rfl, -⟩ := Prod.mk.inj (Option.some.inj h)
    exact .inl hr
  | some ref =>
    obtain ⟨segment, hd, he⟩ := Option.map_eq_some_iff.mp h
    obtain ⟨rfl, -⟩ := Prod.mk.inj he
    by_cases hc : c = ref
    · subst hc
      simp only [Memory.set_segment, Function.update_self] at hr ⊢
      by_cases hone : (memory.segment c).openCount = 1
      · refine .inr ?_
        rw [disconnect_openCount hd]
        omega
      · rw [disconnect_eq hone] at hd
        obtain rfl := Option.some.inj hd
        exact .inl hr
    · simp only [Memory.set_segment, Function.update_of_ne hc] at hr
      exact .inl hr

theorem sessionsDestroy_removed {sessions sessions' : List Session}
    (h : sessionsDestroy memory sessions = some (memory', sessions'))
    (hr : (memory'.segment c).removed = true) :
    (memory.segment c).removed = true ∨ (memory'.segment c).openCount ≤ 0 := by
  induction sessions generalizing memory memory' sessions' with
  | nil =>
    obtain ⟨rfl, rfl⟩ := Prod.mk.inj (Option.some.inj h)
    exact .inl hr
  | cons session sessions ih =>
    obtain ⟨⟨middle, session'⟩, hone, h⟩ := Option.bind_eq_some_iff.mp h
    obtain ⟨⟨last, rest⟩, hrest, he⟩ := Option.map_eq_some_iff.mp h
    obtain ⟨rfl, rfl⟩ := Prod.mk.inj he
    rcases ih hrest hr with hmiddle | hzero
    · refine (sessionInvalidate_removed hone hmiddle).imp id fun hle => ?_
      have hcount := @sessionsDestroy_spec _ _ c _ _ hrest
      omega
    · exact .inr hzero

end Removed

namespace SystemInv

theorem uses_alive {process : Process} (ha : process.alive = true) (c : Nat) :
    process.uses c = process.bridge.uses c := by
  rw [Process.uses, if_pos ha]

theorem uses_bridge {process : Process} (ha : process.alive = true) (bridge : Bridge)
    (c : Nat) : Process.uses c { process with bridge } = bridge.uses c := by
  rw [Process.uses, if_pos ha]

theorem uses_le (h : SystemInv B uncounted s) {process : Process} {c : Nat}
    (hp : process ∈ s.processes) (hc : c < s.nextConnection) :
    process.uses c ≤ (s.memory.segment c).openCount := by
  rw [h.count c hc]
  have hle := List.le_sum_of_mem (List.mem_map_of_mem (f := Process.uses c) hp)
  omega

theorem move (h : SystemInv B uncounted s) {process process' : Process} {memory : Memory}
    (hi : s.processes[i]? = some process) (hb : B s.nextConnection process'.bridge)
    (hle : ∀ c, process'.bridge.uses c ≤ process.bridge.uses c)
    (hcount : ∀ c, (memory.segment c).openCount + process.uses c =
      (s.memory.segment c).openCount + process'.uses c)
    (huses : ∀ c, process'.uses c ≤ process.uses c)
    (hremoved : ∀ c, (memory.segment c).removed = true →
      (s.memory.segment c).removed = true ∨ (memory.segment c).openCount ≤ 0) :
    SystemInv B uncounted { s with memory, processes := s.processes.set i process' } := by
  have hmem := List.mem_of_getElem? hi
  have hopen : ∀ c < s.nextConnection, (memory.segment c).openCount =
      (((s.processes.set i process').map (Process.uses c)).sum + uncounted c : Nat) := by
    intro c hc
    have hsum := @Parties.sum_map_set _ _ _ _ process' (Process.uses c) hi
    have := h.count c hc
    have := hcount c
    omega
  refine ⟨Parties.forall_mem_set h.bridge hb, Parties.forall_mem_set h.once ?_,
    Parties.forall_mem_set h.fresh ?_, h.new, hopen, ?_⟩
  · intro c
    exact Nat.le_trans (hle c) (h.once process hmem c)
  · intro c hc
    exact Nat.le_zero.mp (Nat.le_trans (hle c) (Nat.le_of_eq (h.fresh process hmem c hc)))
  · intro c hc hr
    show (memory.segment c).openCount = 0
    have hpos := hopen c hc
    rcases hremoved c hr with hold | hzero
    · have hzero := h.kept c hc hold
      have := hcount c
      have := huses c
      omega
    · omega

theorem closeDescriptor_inv (hB : BridgeRule Fits B) (h : SystemInv B uncounted s) {fd : Int}
    (hs : closeDescriptor s i fd = some t) : SystemInv B uncounted t := by
  obtain ⟨process, hp, hs⟩ := Option.bind_eq_some_iff.mp hs
  obtain ⟨⟨memory, bridge⟩, herase, rfl⟩ := Option.map_eq_some_iff.mp hs
  obtain ⟨hi, ha⟩ := System.process_eq hp
  have hb := h.bridge process (List.mem_of_getElem? hi)
  have spec := fun c => bridgeErase_uses c (hB.setUp hb) herase
  refine h.move hi (hB.erase hb herase) (fun c => (spec c).2) ?_ ?_ ?_
  · intro c
    rw [uses_alive ha, uses_bridge ha]
    exact (spec c).1
  · intro c
    rw [uses_alive ha, uses_bridge ha]
    exact (spec c).2
  · intro c hr
    obtain ⟨session, -, hinv, -⟩ := bridgeErase_eq (hB.setUp hb) herase
    exact sessionInvalidate_removed hinv hr

theorem exitProcess_inv (hB : BridgeRule Fits B) (h : SystemInv B uncounted s)
    (hs : exitProcess s i = some t) : SystemInv B uncounted t := by
  obtain ⟨process, hp, hs⟩ := Option.bind_eq_some_iff.mp hs
  obtain ⟨memory, hexit, rfl⟩ := Option.map_eq_some_iff.mp hs
  obtain ⟨hi, ha⟩ := System.process_eq hp
  have hb := h.bridge process (List.mem_of_getElem? hi)
  have hdead : ∀ c, Process.uses c { process with alive := false } = 0 := fun _ => rfl
  have hmemory : (∀ c, (memory.segment c).openCount + process.bridge.uses c =
      (s.memory.segment c).openCount) ∧ ∀ c, (memory.segment c).removed = true →
        (s.memory.segment c).removed = true ∨ (memory.segment c).openCount ≤ 0 := by
    split at hexit
    · rename_i hinit
      refine ⟨fun c => bridgeDestroy_spec hexit, fun c hr => ?_⟩
      rw [bridgeDestroy, if_pos hinit] at hexit
      obtain ⟨⟨memory', sessions⟩, hd, rfl⟩ := Option.map_eq_some_iff.mp hexit
      exact sessionsDestroy_removed hd hr
    · rename_i hinit
      obtain rfl := Option.some.inj hexit
      have hempty := hB.setUp hb (Bool.not_eq_true _ |>.mp hinit)
      have hnone : ∀ c, process.bridge.uses c = 0 := by
        intro c
        rw [Bridge.uses, hempty]
        exact uses_initial c
      exact ⟨fun c => by rw [hnone]; exact Int.add_zero _, fun c hr => .inl hr⟩
  refine h.move hi hb (fun _ => Nat.le_refl _) ?_ (fun c => by rw [hdead]; exact Nat.zero_le _)
    hmemory.2
  intro c
  rw [uses_alive ha, hdead, hmemory.1]
  exact (Int.add_zero _).symm

/-- The parent after a fork that has failed, with its connections counted once more. -/
theorem countFork (hB : BridgeRule Fits B) (h : SystemInv B uncounted s) {process : Process}
    {memory : Memory} {bridge : Bridge} (hp : s.process i = some process)
    (hadd : bridgeAddUser s.memory process.bridge = some (memory, bridge)) :
    SystemInv B (fun c => uncounted c + process.uses c)
      { s with memory, processes := s.processes.set i { process with bridge } } := by
  obtain ⟨hi, ha⟩ := System.process_eq hp
  have hmem := List.mem_of_getElem? hi
  have hb := h.bridge process hmem
  have hs := hB.setUp hb
  have spec := fun c => bridgeAddUser_uses c hs (fun h0 => hB.zero hb h0 c) hadd
  obtain ⟨rfl, -⟩ := spec 0
  have huses : ∀ c, process.bridge.ready.uses c = process.bridge.uses c := fun _ => uses_ready hs
  have hparent : ∀ c, Process.uses c { process with bridge := process.bridge.ready } =
      process.uses c := by
    intro c
    rw [uses_bridge ha, uses_alive ha, huses]
  refine ⟨Parties.forall_mem_set h.bridge (hB.ready hb), Parties.forall_mem_set h.once ?_,
    Parties.forall_mem_set h.fresh ?_, ?_, ?_, ?_⟩
  · intro c
    rw [huses]
    exact h.once process hmem c
  · intro c hc
    rw [huses]
    exact h.fresh process hmem c hc
  · intro c hc
    rw [h.new c hc, uses_alive ha, h.fresh process hmem c hc]
  · intro c hc
    have hsum := @Parties.sum_map_set _ _ _ _ { process with bridge := process.bridge.ready }
      (Process.uses c) hi
    have hopen := (spec c).2
    have hcount := h.count c hc
    rw [hparent] at hsum
    rw [← uses_alive ha] at hopen
    show (memory.segment c).openCount = (((s.processes.set i _).map _).sum + _ : Nat)
    omega
  · intro c hc hr
    have hle := h.uses_le hmem hc
    rw [bridgeAddUser, lazyBridgeSetup_eq_ready hs, Option.map_some, Option.some.injEq] at hadd
    have hopen := (spec c).2
    rw [← uses_alive ha] at hopen
    have hremoved : (s.memory.segment c).removed = true := by
      split at hadd
      · rwa [(Prod.mk.inj hadd).1]
      · rw [← (Prod.mk.inj hadd).1, sessionsAddUser_removed] at hr
        exact hr
    have hzero := h.kept c hc hremoved
    show (memory.segment c).openCount = 0
    omega

theorem child {uses : Nat → Nat} (h : SystemInv B (fun c => uncounted c + uses c) s)
    {process : Process} (hmem : process ∈ s.processes) (huses : ∀ c, process.uses c = uses c) :
    SystemInv B uncounted { s with processes := s.processes ++ [process] } := by
  have append : ∀ q : Process → Prop, (∀ p ∈ s.processes, q p) →
      ∀ p ∈ s.processes ++ [process], q p := by
    intro q hall p hp
    rcases List.mem_append.mp hp with hp | hp
    · exact hall p hp
    · rw [List.mem_singleton.mp hp]
      exact hall process hmem
  refine ⟨append _ h.bridge, append _ h.once, append _ h.fresh, ?_, ?_, h.kept⟩
  · intro c hc
    exact (Nat.add_eq_zero_iff.mp (h.new c hc)).1
  · intro c hc
    have hcount := h.count c hc
    have hchild := huses c
    show (s.memory.segment c).openCount = (((s.processes ++ [process]).map _).sum + _ : Nat)
    rw [List.map_append, List.sum_append, List.map_singleton, List.sum_singleton]
    omega

theorem fork_inv (hB : BridgeRule Fits B) (h : SystemInv B uncounted s)
    (hs : fork s i true = some t) : SystemInv B uncounted t := by
  obtain ⟨process, hp, hs⟩ := Option.bind_eq_some_iff.mp hs
  obtain ⟨⟨memory, bridge⟩, hadd, rfl⟩ := Option.map_eq_some_iff.mp hs
  obtain ⟨hi, ha⟩ := System.process_eq hp
  have hsetUp := hB.setUp (h.bridge process (List.mem_of_getElem? hi))
  obtain rfl : bridge = process.bridge.ready := by
    rw [bridgeAddUser, lazyBridgeSetup_eq_ready hsetUp, Option.map_some, Option.some.injEq] at hadd
    split at hadd <;> exact (Prod.mk.inj hadd).2.symm
  refine (h.countFork hB hp hadd).child ?_ ?_
  · exact List.mem_of_getElem? (Parties.getElem?_set_self hi)
  · intro c
    rw [uses_bridge ha, uses_alive ha]
    exact uses_ready hsetUp

theorem insert_new (hB : BridgeRule Fits B) (h : SystemInv B uncounted s) {process : Process}
    (hp : process ∈ s.processes) {bridge : Bridge} {fd : Int}
    (hins : bridgeInsert process.bridge fd { connection := some s.nextConnection } = some bridge) :
    (∀ c, bridge.uses c = process.bridge.uses c + if c = s.nextConnection then 1 else 0) ∧
      (∀ c, bridge.uses c ≤ 1) ∧ ∀ c, s.nextConnection + 1 ≤ c → bridge.uses c = 0 := by
  have huses : ∀ c, bridge.uses c =
      process.bridge.uses c + if c = s.nextConnection then 1 else 0 := by
    intro c
    rw [bridgeInsert_uses (hB.setUp (h.bridge process hp)) hins]
    simp [Session.refersTo, eq_comm]
  refine ⟨huses, ?_, ?_⟩
  · intro c
    rw [huses]
    split
    · rw [h.fresh process hp c (by omega)]
    · exact h.once process hp c
  · intro c hc
    rw [huses, if_neg (by omega), h.fresh process hp c (by omega)]

theorem sum_handshake (hB : BridgeRule Fits B) (h : SystemInv B uncounted s)
    {server client : Process} {serverBridge clientBridge : Bridge} {j : Nat}
    {serverFd clientFd : Int} (hne : j ≠ i) (hserver : s.process i = some server)
    (hclient : s.process j = some client)
    (hsb : bridgeInsert server.bridge serverFd { connection := some s.nextConnection } =
      some serverBridge)
    (hcb : bridgeInsert client.bridge clientFd { connection := some s.nextConnection } =
      some clientBridge) (c : Nat) :
    (((s.processes.set i { server with bridge := serverBridge }).set j
      { client with bridge := clientBridge }).map (Process.uses c)).sum =
        (s.processes.map (Process.uses c)).sum + if c = s.nextConnection then 2 else 0 := by
  obtain ⟨hi, hai⟩ := System.process_eq hserver
  obtain ⟨hj, haj⟩ := System.process_eq hclient
  have hserverUses := (h.insert_new hB (List.mem_of_getElem? hi) hsb).1 c
  have hclientUses := (h.insert_new hB (List.mem_of_getElem? hj) hcb).1 c
  have hj' : (s.processes.set i { server with bridge := serverBridge })[j]? = some client :=
    (Parties.getElem?_set_other hne).mpr hj
  have hsumS := @Parties.sum_map_set _ _ _ _ { server with bridge := serverBridge }
    (Process.uses c) hi
  have hsumC := @Parties.sum_map_set _ _ _ _ { client with bridge := clientBridge }
    (Process.uses c) hj'
  rw [uses_alive hai, uses_bridge hai, hserverUses] at hsumS
  rw [uses_alive haj, uses_bridge haj, hclientUses] at hsumC
  by_cases he : c = s.nextConnection
  · rw [if_pos he] at hsumS hsumC ⊢
    omega
  · rw [if_neg he] at hsumS hsumC ⊢
    omega

/-- A new connection has one use in each of the two processes. -/
theorem handshake_inv (hB : BridgeRule Fits B) (h : SystemInv B uncounted s)
    (hfits : Fits (s.nextConnection + 1)) {j : Nat} {serverFd clientFd : Int}
    (hs : handshake s i j serverFd clientFd = some t) : SystemInv B uncounted t := by
  obtain ⟨server, hserver, hs⟩ := Option.bind_eq_some_iff.mp hs
  obtain ⟨client, hclient, hs⟩ := Option.bind_eq_some_iff.mp hs
  split at hs
  · rename_i hsides
    obtain ⟨serverBridge, hsb, hs⟩ := Option.bind_eq_some_iff.mp hs
    obtain ⟨clientBridge, hcb, rfl⟩ := Option.map_eq_some_iff.mp hs
    have hmi := List.mem_of_getElem? (System.process_eq hserver).1
    have hmj := List.mem_of_getElem? (System.process_eq hclient).1
    have hne : j ≠ i := by
      rintro rfl
      rw [hserver, Option.some.injEq] at hclient
      rw [← hclient, hsides.1] at hsides
      exact absurd hsides.2 (by decide)
    obtain ⟨-, honceS, hfreshS⟩ := h.insert_new hB hmi hsb
    obtain ⟨-, honceC, hfreshC⟩ := h.insert_new hB hmj hcb
    have hsum := h.sum_handshake hB hne hserver hclient hsb hcb
    refine ⟨?_, Parties.forall_mem_set (Parties.forall_mem_set h.once honceS) honceC,
      Parties.forall_mem_set (Parties.forall_mem_set ?_ hfreshS) hfreshC, ?_, ?_, ?_⟩
    · refine Parties.forall_mem_set (Parties.forall_mem_set ?_ ?_) ?_
      · exact fun process hp => hB.later (h.bridge process hp)
      · exact hB.insert hfits (h.bridge server hmi) hsb
      · exact hB.insert hfits (h.bridge client hmj) hcb
    · intro process hp c hc
      exact h.fresh process hp c (Nat.le_of_succ_le hc)
    · intro c hc
      exact h.new c (Nat.le_of_succ_le hc)
    · intro c hc
      show (Function.update s.memory.segment s.nextConnection _ c).openCount = _
      rw [hsum]
      by_cases he : c = s.nextConnection
      · subst he
        have hzero : (s.processes.map (Process.uses s.nextConnection)).sum = 0 := by
          rw [List.sum_eq_zero_iff]
          intro n hn
          obtain ⟨process, hp, rfl⟩ := List.mem_map.mp hn
          rw [Process.uses, h.fresh process hp _ (Nat.le_refl _)]
          exact ite_self 0
        rw [Function.update_self, hzero, h.new _ (Nat.le_refl _), if_pos rfl]
        rfl
      · have hlt : c < s.nextConnection + 1 := hc
        rw [Function.update_of_ne he, h.count c (by omega), if_neg he]
        rfl
    · intro c hc
      show (Function.update s.memory.segment s.nextConnection _ c).removed = true →
        (Function.update s.memory.segment s.nextConnection _ c).openCount = 0
      by_cases he : c = s.nextConnection
      · subst he
        rw [Function.update_self]
        intro hr
        cases hr
      · have hlt : c < s.nextConnection + 1 := hc
        rw [Function.update_of_ne he]
        exact h.kept c (by omega)
  · cases hs

theorem systemStep_inv (h : SystemInv (fun _ => BridgeInv) (fun _ => 0) s) {a : ProcessAction}
    (hf : ForkSucceeds s a) (hs : systemStep s a = some t) :
    SystemInv (fun _ => BridgeInv) (fun _ => 0) t := by
  cases a with
  | handshake i j serverFd clientFd => exact h.handshake_inv bridgeInv_rule trivial hs
  | fork i succeeds =>
    obtain rfl : succeeds = true := hf
    exact h.fork_inv bridgeInv_rule hs
  | close i fd => exact h.closeDescriptor_inv bridgeInv_rule hs
  | exit i => exact h.exitProcess_inv bridgeInv_rule hs

/-- Every process uses a connection once at most, so the uses are the holders. -/
theorem count_holders (h : SystemInv B uncounted s) {c : Nat} (hc : c < s.nextConnection) :
    (s.memory.segment c).openCount =
      (s.processes.countP (Process.holds c) + uncounted c : Nat) := by
  rw [h.count c hc]
  congr 2
  apply Parties.sum_map_eq_countP
  intro process hp
  have hle : process.uses c ≤ 1 := by
    rw [Process.uses]
    split
    · exact h.once process hp c
    · exact Nat.zero_le 1
  by_cases hpos : 0 < process.uses c
  · rw [Process.holds, decide_eq_true hpos, if_pos rfl]
    omega
  · rw [Process.holds, decide_eq_false hpos, if_neg Bool.false_ne_true]
    omega

end SystemInv

/-- **`open_count` is the number of live holders**, and `connection_peer_died` is true in one
of them if and only if no other process of either side is left. -/
theorem peer_died_iff_alone {sides : List Side} {actions : List ProcessAction}
    (h : Run.run systemStep (.init sides) actions = some s)
    (hf : Run.Meets systemStep ForkSucceeds (.init sides) actions)
    {c : Nat} (hc : c < s.nextConnection) :
    (s.memory.segment c).openCount = s.processes.countP (Process.holds c) ∧
      ∀ (i : Nat) process, s.processes[i]? = some process → Process.holds c process = true →
        (connectionPeerDied (s.memory.segment c) = true ↔
          ∀ (j : Nat) other, j ≠ i → s.processes[j]? = some other →
            Process.holds c other = false) := by
  have hinv : SystemInv (fun _ => BridgeInv) (fun _ => 0) s := Run.meets_induct
    (fun _ _ _ hu hfu hv => hu.systemStep_inv hfu hv) (systemInv_init sides bridgeInv_initial) hf h
  have hcount : (s.memory.segment c).openCount = s.processes.countP (Process.holds c) :=
    hinv.count_holders hc
  refine ⟨hcount, ?_⟩
  intro i process hi hholds
  rw [← Parties.countP_eq_one_iff hi hholds, connectionPeerDied, beq_iff_eq, hcount]
  omega

/-- A server that forks, its child that closes and a client that leaves. -/
theorem peer_died_iff_alone_at :
    ∃ s, Run.run systemStep (.init [.server, .client])
        [.handshake 0 1 4 5, .fork 0 true, .exit 1, .close 2 4] = some s ∧
      (connectionPeerDied (s.memory.segment 0) = true ↔
        ∀ (j : Nat) other, j ≠ 0 → s.processes[j]? = some other →
          Process.holds 0 other = false) := by
  have hrun : (Run.run systemStep (.init [.server, .client])
      [.handshake 0 1 4 5, .fork 0 true, .exit 1, .close 2 4]).any (fun s =>
        0 < s.nextConnection && s.processes[0]?.any (Process.holds 0)) = true := by
    decide +kernel
  obtain ⟨s, hs, hp⟩ := Option.any_eq_true _ _ |>.mp hrun
  obtain ⟨hnext, hp⟩ := Bool.and_eq_true_iff.mp hp
  obtain ⟨process, hi, hh⟩ := Option.any_eq_true _ _ |>.mp hp
  have hf : Run.Meets systemStep ForkSucceeds (.init [.server, .client])
      [.handshake 0 1 4 5, .fork 0 true, .exit 1, .close 2 4] := by decide +kernel
  exact ⟨s, hs, (peer_died_iff_alone hs hf (of_decide_eq_true hnext)).2 0 process hi hh⟩

/-- **The peer's death goes unnoticed**: the server has forked, so the departure of the only
client leaves `open_count` at two. -/
theorem peer_death_unnoticed :
    ∃ s, Run.run systemStep (.init [.server, .client])
        [.handshake 0 1 4 5, .fork 0 true, .close 1 5] = some s ∧
      s.processes[0]?.any (Process.holds 0) = true ∧
      connectionPeerDied (s.memory.segment 0) = false ∧
      s.processes.all (fun process => process.side = .client → Process.holds 0 process = false) =
        true := by
  have hrun : (Run.run systemStep (.init [.server, .client])
      [.handshake 0 1 4 5, .fork 0 true, .close 1 5]).any (fun s =>
        s.processes[0]?.any (Process.holds 0) && !connectionPeerDied (s.memory.segment 0) &&
          s.processes.all (fun process => process.side = .client → Process.holds 0 process = false))
      = true := by
    decide +kernel
  obtain ⟨s, hs, hp⟩ := Option.any_eq_true _ _ |>.mp hrun
  simp only [Bool.and_eq_true, Bool.not_eq_true'] at hp
  exact ⟨s, hs, hp.1.1, hp.1.2, hp.2⟩

end Tssx
