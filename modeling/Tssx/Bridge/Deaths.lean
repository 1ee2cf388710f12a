import Tssx.Bridge.Processes

/-!
# Which deaths are noticed

The processes of `Bridge/Processes.lean` with the dispositions of the signals for which
`bridge_setup` installs a handler.  The handler calls the one that was installed before, or `exit`
if there was none, and a process that ends so disconnects.  A process that is killed does not: its
share of `open_count` stays.

`deaths_noticed`: the last running holder of a connection is told so if and only if no holder has
been killed, and no holder has counted a child whose `real_fork` failed.  After the set-up a signal
kills a process only if the application has restored the default disposition, or has ignored the
signal before: `SIG_IGN` is not `NULL`, and the handler calls it as a function.

A signal arrives between two operations of the bridge.  A `SIGABRT` that does not come from `abort`
destroys the bridge of a process that goes on, and the counter of the bridge keeps its value: from
then on it is an upper bound (`StaleInv`).
-/

namespace Tssx

inductive BridgeSignal
  | sigint
  | sigterm
  | sigabrt
  deriving DecidableEq

/-- `sa_handler`.  The handlers of the application are an `α`. -/
inductive SignalHandler (α : Type)
  /-- `SIG_DFL`, the null pointer. -/
  | default
  /-- `SIG_IGN`. -/
  | ignore
  | application (handler : α)
  /-- `_bridge_signal_handler`. -/
  | bridge

/-- How a handler of the application ends. -/
inductive HandlerEnd
  | returns
  | exits
  deriving DecidableEq

/-- The dispositions of a process, and the `old_sig*_handler` of the bridge. -/
structure Dispositions (α : Type) where
  current : BridgeSignal → SignalHandler α
  old : BridgeSignal → SignalHandler α

def SignalHandler.isBridge {α : Type} : SignalHandler α → Bool
  | .bridge => true
  | _ => false

def Dispositions.set {α : Type} (d : Dispositions α) (signal : BridgeSignal)
    (handler : SignalHandler α) : Dispositions α :=
  { d with current := Function.update d.current signal handler }

/-- What a signal has done. -/
inductive Delivered
  | survived
  /-- `bridge_destroy`, and the process goes on. -/
  | destroyed
  | exited
  | killed
  deriving DecidableEq

variable {α : Type}

def setupSignalHandler (d : Dispositions α) (signal : BridgeSignal) : Dispositions α where
  current := Function.update d.current signal .bridge
  old := Function.update d.old signal (d.current signal)

def setupExitHandling (d : Dispositions α) : Dispositions α :=
  setupSignalHandler (setupSignalHandler (setupSignalHandler d .sigint) .sigterm) .sigabrt

def bridgeSignalHandlerFor (ends : α → BridgeSignal → HandlerEnd) (signal : BridgeSignal) :
    SignalHandler α → Delivered
  | .default => .exited
  | .application handler =>
    match ends handler signal with
    | .exits => .exited
    | .returns => if signal = .sigabrt then .destroyed else .survived
  -- a jump to the address `SIG_IGN`, and a handler that would call itself
  | .ignore | .bridge => .killed

def bridgeSignalHandler (ends : α → BridgeSignal → HandlerEnd) (d : Dispositions α) :
    BridgeSignal → Delivered
  | .sigint => bridgeSignalHandlerFor ends .sigint (d.old .sigint)
  | .sigterm => bridgeSignalHandlerFor ends .sigterm (d.old .sigterm)
  | .sigabrt => bridgeSignalHandlerFor ends .sigabrt (d.old .sigabrt)

/-- The delivery of a signal. -/
def Dispositions.deliver (ends : α → BridgeSignal → HandlerEnd) (d : Dispositions α)
    (signal : BridgeSignal) : Delivered :=
  match d.current signal with
  | .default => .killed
  | .ignore => .survived
  | .application handler =>
    match ends handler signal with
    | .exits => .exited
    | .returns => .survived
  | .bridge => bridgeSignalHandler ends d signal

/-! ### The system -/

structure SignalledSystem (α : Type) where
  /-- A killed process stays here as it was. -/
  system : System
  dispositions : Nat → Dispositions α
  killed : Nat → Bool
  /-- The failed forks of processes with the connection. -/
  failedForks : Nat → Nat

/-- Processes that have not used the library. -/
def SignalledSystem.init (sides : List Side) (original : Nat → BridgeSignal → SignalHandler α) :
    SignalledSystem α where
  system := .init sides
  dispositions := fun i => { current := original i, old := fun _ => .default }
  killed := fun _ => false
  failedForks := fun _ => 0

inductive DeathAction (α : Type)
  | process (action : ProcessAction)
  /-- `sigaction` by the application, which may have got the bridge's handler from another call. -/
  | sigaction (i : Nat) (signal : BridgeSignal) (handler : SignalHandler α)
  | raise (i : Nat) (signal : BridgeSignal)
  | abort (i : Nat)
  /-- `SIGKILL`, or another signal that ends the process. -/
  | kill (i : Nat)

/-- The processes that make a step. -/
def ProcessAction.actors : ProcessAction → List Nat
  | .handshake i j _ _ => [i, j]
  | .fork i _ | .close i _ | .exit i => [i]

/-- The bridge of a process is set up. -/
def System.isSetUp (s : System) (i : Nat) : Bool :=
  s.processes[i]?.any fun process => process.bridge.isInitialized

/-- The set-up of the bridge is part of the first operation on it. -/
def setUpBy (system system' : System) (dispositions : Nat → Dispositions α) (i : Nat) :
    Dispositions α :=
  if !system.isSetUp i && system'.isSetUp i then setupExitHandling (dispositions i)
  else dispositions i

/-- The dispositions after a step; a child has those of its parent. -/
def ProcessAction.dispositions (system system' : System) (dispositions : Nat → Dispositions α) :
    ProcessAction → Nat → Dispositions α
  | .fork i true =>
    Function.update (setUpBy system system' dispositions) system.processes.length
      (setUpBy system system' dispositions i)
  | _ => setUpBy system system' dispositions

def ProcessAction.failedForks (system : System) (failedForks : Nat → Nat) :
    ProcessAction → Nat → Nat
  | .fork i false => fun c =>
    failedForks c + if (system.process i).any (Process.holds c) then 1 else 0
  | _ => failedForks

/-- The process runs. -/
def SignalledSystem.running (s : SignalledSystem α) (i : Nat) : Option Process :=
  if s.killed i then none else s.system.process i

/-- The process ends by `exit`, or by `bridge_destroy` and a signal. -/
def SignalledSystem.leave (s : SignalledSystem α) (i : Nat) : Option (SignalledSystem α) :=
  (exitProcess s.system i).map fun system => { s with system }

/-- `bridge_destroy` in a process that goes on. -/
def SignalledSystem.destroy (s : SignalledSystem α) (i : Nat) : Option (SignalledSystem α) :=
  (s.system.process i).bind fun process =>
    (bridgeDestroyTable s.system.memory process.bridge).map fun (memory, bridge) =>
      { s with system := { s.system with
          memory, processes := s.system.processes.set i { process with bridge } } }

def SignalledSystem.sigaction (s : SignalledSystem α) (i : Nat) (signal : BridgeSignal)
    (handler : SignalHandler α) : SignalledSystem α :=
  { s with
    dispositions := Function.update s.dispositions i ((s.dispositions i).set signal handler) }

def SignalledSystem.kill (s : SignalledSystem α) (i : Nat) : SignalledSystem α :=
  { s with killed := Function.update s.killed i true }

def deathStep (ends : α → BridgeSignal → HandlerEnd) (s : SignalledSystem α) :
    DeathAction α → Option (SignalledSystem α)
  | .process action =>
    if action.actors.all fun i => !s.killed i then
      (systemStep s.system action).map fun system =>
        { s with
          system
          dispositions := action.dispositions s.system system s.dispositions
          failedForks := action.failedForks s.system s.failedForks }
    else none
  | .sigaction i signal handler =>
    (s.running i).bind fun process =>
      if handler.isBridge && !process.bridge.isInitialized then none
      else some (s.sigaction i signal handler)
  | .raise i signal =>
    (s.running i).bind fun _ =>
      match (s.dispositions i).deliver ends signal with
      | .survived => some s
      | .destroyed => s.destroy i
      | .exited => s.leave i
      | .killed => some (s.kill i)
  | .abort i =>
    -- what is left of the process after the handler is killed
    (s.running i).bind fun _ =>
      match (s.dispositions i).deliver ends .sigabrt with
      | .exited | .destroyed => s.leave i
      | .survived | .killed => some (s.kill i)
  | .kill i => (s.running i).map fun _ => s.kill i

/-! ### The dispositions -/

section Dispositions

variable {ends : α → BridgeSignal → HandlerEnd} {d : Dispositions α} {signal : BridgeSignal}

theorem setupExitHandling_eq (d : Dispositions α) :
    setupExitHandling d = { current := fun _ => .bridge, old := d.current } := by
  unfold setupExitHandling setupSignalHandler
  congr 1 <;> funext signal <;> cases signal <;> rfl

theorem bridgeSignalHandler_eq (signal : BridgeSignal) :
    bridgeSignalHandler ends d signal = bridgeSignalHandlerFor ends signal (d.old signal) := by
  cases signal <;> rfl

/-- **The signals that kill**: the handler of the bridge never finds itself as the old one. -/
theorem deliver_killed_iff (hold : d.old signal ≠ .bridge) :
    d.deliver ends signal = .killed ↔ d.current signal = .default ∨
      d.current signal = .bridge ∧ d.old signal = .ignore := by
  unfold Dispositions.deliver
  cases d.current signal with
  | default | ignore => simp
  | application handler => cases he : ends handler signal <;> simp [he]
  | bridge =>
    rw [bridgeSignalHandler_eq]
    cases hd : d.old signal with
    | default | ignore => simp [bridgeSignalHandlerFor]
    | bridge => exact absurd hd hold
    | application handler =>
      simp only [bridgeSignalHandlerFor, reduceCtorEq, and_false, or_false, iff_false]
      cases ends handler signal with
      | exits => simp
      | returns => by_cases habort : signal = .sigabrt <;> simp [habort]

end Dispositions

/-! ### Counters that are too high -/

/-- The counter of a bridge with at most `n` connections so far.  `bridge_destroy` does not reset
it, so it bounds the number of connections. -/
structure StaleInv (n : Nat) (bridge : Bridge) : Prop where
  setUp : bridge.SetUp
  covered : bridge.sessionTable.sessions.countP sessionHasConnection ≤ bridge.connectionCount
  small : bridge.connectionCount ≤ n
  word : bridge.connectionCount < 2 ^ 64

namespace StaleInv

variable {n : Nat} {bridge bridge' : Bridge} {memory memory' : Memory} {fd : Int}
  {session : Session}

theorem initial : StaleInv 0 .initial where
  setUp := bridgeInv_initial.initial
  covered := bridgeInv_initial.count.ge
  small := Nat.le_refl 0
  word := by decide

theorem ready (hb : StaleInv n bridge) : StaleInv n bridge.ready := by
  unfold Bridge.ready
  split
  · exact hb
  · exact ⟨Bridge.SetUp.of_ready rfl, bridgeInv_initial.count.ge, Nat.zero_le n, by decide⟩

theorem zero (hb : StaleInv n bridge) (h0 : bridge.connectionCount = 0) (c : Nat) :
    bridge.uses c = 0 :=
  uses_of_none (Nat.le_zero.mp (h0 ▸ hb.covered))

theorem insert (hn : n + 1 < 2 ^ 64) (hb : StaleInv n bridge)
    (h : bridgeInsert bridge fd session = some bridge') : StaleInv (n + 1) bridge' := by
  have hcount := countP_insert hb.setUp h
  obtain ⟨-, rfl⟩ := bridgeInsert_eq hb.setUp h
  obtain ⟨-, hcovered, hsmall, hword⟩ := hb.ready
  have hnext : sizeT (bridge.ready.connectionCount + 1) = bridge.ready.connectionCount + 1 :=
    sizeT_eq (by omega) (by omega)
  refine ⟨Bridge.SetUp.of_ready (ready_initialized bridge), ?_, ?_, ?_⟩
  · rw [hcount]
    dsimp only
    split <;> omega
  · dsimp only
    split <;> omega
  · dsimp only
    split <;> omega

theorem erase (hb : StaleInv n bridge)
    (h : bridgeErase memory bridge fd = some (memory', bridge')) : StaleInv n bridge' := by
  obtain ⟨session, hget, -, rfl⟩ := bridgeErase_eq hb.setUp h
  have hcount := countP_erase hget
  obtain ⟨-, hcovered, hsmall, hword⟩ := hb.ready
  have hbefore : sessionHasConnection session = true →
      sizeT (bridge.ready.connectionCount - 1) = bridge.ready.connectionCount - 1 := by
    intro hs
    rw [if_pos hs] at hcount
    exact sizeT_eq (by omega) (by omega)
  refine ⟨Bridge.SetUp.of_ready (ready_initialized bridge), ?_, ?_, ?_⟩ <;> dsimp only <;>
    by_cases hs : sessionHasConnection session = true
  · rw [if_pos hs, hbefore hs]
    rw [if_pos hs] at hcount
    omega
  · rw [if_neg hs]
    omega
  · rw [if_pos hs, hbefore hs]
    omega
  · rwa [if_neg hs]
  · rw [if_pos hs, hbefore hs]
    omega
  · rwa [if_neg hs]

end StaleInv

theorem staleInv_rule : BridgeRule (fun n => n < 2 ^ 64) StaleInv where
  setUp := fun hb => hb.setUp
  zero := fun hb h0 c => uses_ready hb.setUp ▸ hb.ready.zero h0 c
  ready := fun hb => hb.ready
  later := fun hb => { hb with small := Nat.le_succ_of_le hb.small }
  insert := fun hn hb h => hb.insert hn h
  erase := fun hb h => hb.erase h

section Destroy

variable {n : Nat} {system : System} {memory memory' : Memory} {bridge bridge' : Bridge}
  {process : Process} {i : Nat} {failedForks : Nat → Nat}

theorem bridgeDestroyTable_eq (h : bridgeDestroyTable memory bridge = some (memory', bridge')) :
    bridge.isInitialized = true ∧ ∃ sessions, ∃ hsize,
      sessionsDestroy memory bridge.sessionTable.sessions = some (memory', sessions) ∧
      bridge' = { bridge with sessionTable := ⟨sessions, hsize⟩ } := by
  unfold bridgeDestroyTable at h
  split at h
  · rename_i hinit
    refine ⟨hinit, ?_⟩
    split at h
    · cases h
    · rename_i hd
      obtain ⟨rfl, rfl⟩ := Prod.mk.inj (Option.some.inj h)
      exact ⟨_, _, hd, rfl⟩
  · cases h

theorem countP_destroyed {sessions : List Session} {p : Session → Bool} (hp : p {} = false) :
    (sessions.map fun _ => ({} : Session)).countP p = 0 := by
  rw [Parties.countP_eq_zero_iff]
  intro session hs
  obtain ⟨_, -, rfl⟩ := List.mem_map.mp hs
  exact hp

theorem StaleInv.destroy (hb : StaleInv n bridge)
    (h : bridgeDestroyTable memory bridge = some (memory', bridge')) :
    StaleInv n bridge' ∧ ∀ c, bridge'.uses c = 0 := by
  obtain ⟨hinit, sessions, hsize, hd, rfl⟩ := bridgeDestroyTable_eq h
  obtain rfl := sessionsDestroy_sessions hd
  refine ⟨⟨Bridge.SetUp.of_ready hinit, ?_, hb.small, hb.word⟩, fun c => ?_⟩
  · show List.countP _ (List.map _ _) ≤ _
    rw [countP_destroyed rfl]
    exact Nat.zero_le _
  · exact countP_destroyed (by simp [Session.refersTo])

theorem SystemInv.destroy (h : SystemInv StaleInv failedForks system)
    (hp : system.process i = some process)
    (hd : bridgeDestroyTable system.memory process.bridge = some (memory, bridge)) :
    SystemInv StaleInv failedForks { system with
      memory, processes := system.processes.set i { process with bridge } } := by
  obtain ⟨hi, ha⟩ := System.process_eq hp
  obtain ⟨hb, hnone⟩ := (h.bridge process (List.mem_of_getElem? hi)).destroy hd
  obtain ⟨-, sessions, -, hsessions, -⟩ := bridgeDestroyTable_eq hd
  have huses : ∀ c, Process.uses c { process with bridge } = 0 := by
    intro c
    rw [SystemInv.uses_bridge ha, hnone]
  refine h.move hi hb (fun c => hnone c ▸ Nat.zero_le _) ?_ (fun c => huses c ▸ Nat.zero_le _) ?_
  · intro c
    rw [huses, SystemInv.uses_alive ha, ← @sessionsDestroy_spec _ _ c _ _ hsessions]
    exact (Int.add_zero _).symm
  · exact fun c hr => sessionsDestroy_removed hsessions hr

/-- `bridge_destroy` finds every connection of the process, and none removed. -/
theorem SystemInv.sessions_counted (h : SystemInv StaleInv failedForks system)
    (hp : system.process i = some process) (c : Nat)
    (hc : 0 < process.bridge.sessionTable.sessions.countP (Session.refersTo c)) :
    (system.memory.segment c).Counts
      (process.bridge.sessionTable.sessions.countP (Session.refersTo c)) := by
  obtain ⟨hi, ha⟩ := System.process_eq hp
  have hmem := List.mem_of_getElem? hi
  have hlt : c < system.nextConnection := by
    by_contra hge
    have hnone : process.bridge.sessionTable.sessions.countP (Session.refersTo c) = 0 :=
      h.fresh process hmem c (by omega)
    omega
  have hle := h.uses_le hmem hlt
  rw [SystemInv.uses_alive ha, Bridge.uses] at hle
  refine ⟨hle, ?_⟩
  by_contra hr
  have hzero := h.kept c hlt (Bool.not_eq_false _ |>.mp hr)
  omega

theorem SystemInv.destroys (h : SystemInv StaleInv failedForks system)
    (hp : system.process i = some process) (hinit : process.bridge.isInitialized = true) :
    (bridgeDestroyTable system.memory process.bridge).isSome := by
  obtain ⟨memory', sessions, hd⟩ := sessionsDestroy_isSome (h.sessions_counted hp)
  unfold bridgeDestroyTable
  rw [if_pos hinit]
  split
  · rename_i hnone
    cases hnone.symm.trans hd
  · rfl

theorem SystemInv.exits (h : SystemInv StaleInv failedForks system)
    (hp : system.process i = some process) : (exitProcess system i).isSome := by
  rw [exitProcess, hp, Option.bind_some, Option.isSome_map]
  by_cases hinit : process.bridge.isInitialized = true
  · obtain ⟨memory', sessions, hd⟩ := sessionsDestroy_isSome (h.sessions_counted hp)
    simp [hinit, bridgeDestroy, hd]
  · rw [if_neg hinit]
    rfl

end Destroy

/-! ### The set-up of the bridge -/

section SetUp

variable {system system' : System} {i k : Nat}

theorem isSetUp_set {processes : List Process} {x y : Process} (hi : processes[i]? = some x)
    (hy : x.bridge.isInitialized = true → y.bridge.isInitialized = true)
    (hk : (processes[k]?.any fun process => process.bridge.isInitialized) = true) :
    ((processes.set i y)[k]?.any fun process => process.bridge.isInitialized) = true := by
  by_cases hne : k = i
  · subst hne
    rw [hi] at hk
    rw [Parties.getElem?_set_self hi]
    exact hy hk
  · rw [List.getElem?_set_ne (Ne.symm hne)]
    exact hk

theorem bridgeInsert_initialized {bridge bridge' : Bridge} {fd : Int} {session : Session}
    (h : bridgeInsert bridge fd session = some bridge') : bridge'.isInitialized = true := by
  obtain ⟨middle, hlazy, h⟩ := Option.bind_eq_some_iff.mp h
  obtain ⟨_, -, rfl⟩ := Option.map_eq_some_iff.mp h
  have hready := lazyBridgeSetup_initialized hlazy
  exact hready

theorem bridgeErase_initialized {memory memory' : Memory} {bridge bridge' : Bridge} {fd : Int}
    (h : bridgeErase memory bridge fd = some (memory', bridge')) :
    bridge'.isInitialized = true := by
  obtain ⟨middle, hlazy, h⟩ := Option.bind_eq_some_iff.mp h
  obtain ⟨_, -, h⟩ := Option.bind_eq_some_iff.mp h
  obtain ⟨_, -, heq⟩ := Option.map_eq_some_iff.mp h
  obtain ⟨-, rfl⟩ := Prod.mk.inj heq
  have hready := lazyBridgeSetup_initialized hlazy
  exact hready

theorem bridgeAddUser_initialized {memory memory' : Memory} {bridge bridge' : Bridge}
    (h : bridgeAddUser memory bridge = some (memory', bridge')) : bridge'.isInitialized = true := by
  obtain ⟨middle, hlazy, heq⟩ := Option.map_eq_some_iff.mp h
  obtain rfl : middle = bridge' := by
    split at heq <;> exact (Prod.mk.inj heq).2
  exact lazyBridgeSetup_initialized hlazy

/-- **The set-up is for good.** -/
theorem isSetUp_step {action : ProcessAction}
    (hs : systemStep system action = some system') (hk : system.isSetUp k = true) :
    system'.isSetUp k = true := by
  cases action with
  | handshake i j serverFd clientFd =>
    obtain ⟨server, hserver, hs⟩ := Option.bind_eq_some_iff.mp hs
    obtain ⟨client, hclient, hs⟩ := Option.bind_eq_some_iff.mp hs
    split at hs
    · rename_i hsides
      obtain ⟨serverBridge, hsb, hs⟩ := Option.bind_eq_some_iff.mp hs
      obtain ⟨clientBridge, hcb, rfl⟩ := Option.map_eq_some_iff.mp hs
      obtain ⟨hi, -⟩ := System.process_eq hserver
      obtain ⟨hj, -⟩ := System.process_eq hclient
      have hready := bridgeInsert_initialized hsb
      have hready' := bridgeInsert_initialized hcb
      have hne : j ≠ i := by
        rintro rfl
        rw [hi, Option.some.injEq] at hj
        rw [← hj, hsides.1] at hsides
        exact absurd hsides.2 (by decide)
      refine isSetUp_set ((Parties.getElem?_set_other hne).mpr hj) (fun _ => hready') ?_
      exact isSetUp_set hi (fun _ => hready) hk
    · cases hs
  | fork i succeeds =>
    obtain ⟨parent, hparent, hs⟩ := Option.bind_eq_some_iff.mp hs
    obtain ⟨⟨memory, bridge⟩, hadd, rfl⟩ := Option.map_eq_some_iff.mp hs
    obtain ⟨hi, -⟩ := System.process_eq hparent
    have hready := bridgeAddUser_initialized hadd
    have hset := isSetUp_set (y := { parent with bridge }) hi (fun _ => hready) hk
    cases succeeds with
    | false => exact hset
    | true =>
      obtain ⟨process, hprocess, hinit⟩ := (Option.any_eq_true _ _).mp hset
      show ((system.processes.set i _ ++ _)[k]?.any _) = true
      rw [List.getElem?_append_left (List.getElem?_eq_some_iff.mp hprocess).1]
      exact hset
  | close i fd =>
    obtain ⟨process, hp, hs⟩ := Option.bind_eq_some_iff.mp hs
    obtain ⟨⟨memory, bridge⟩, herase, rfl⟩ := Option.map_eq_some_iff.mp hs
    obtain ⟨hi, -⟩ := System.process_eq hp
    have hready := bridgeErase_initialized herase
    exact isSetUp_set hi (fun _ => hready) hk
  | exit i =>
    obtain ⟨process, hp, hs⟩ := Option.bind_eq_some_iff.mp hs
    obtain ⟨memory, -, rfl⟩ := Option.map_eq_some_iff.mp hs
    obtain ⟨hi, -⟩ := System.process_eq hp
    exact isSetUp_set hi id hk

theorem isSetUp_child (hs : fork system i true = some system') :
    system'.isSetUp system.processes.length = true := by
  obtain ⟨parent, hparent, hs⟩ := Option.bind_eq_some_iff.mp hs
  obtain ⟨⟨memory, bridge⟩, hadd, rfl⟩ := Option.map_eq_some_iff.mp hs
  obtain ⟨hi, -⟩ := System.process_eq hparent
  have hready := bridgeAddUser_initialized hadd
  simp [System.isSetUp, hready]

end SetUp

/-! ### Runs -/

section Runs

variable {ends : α → BridgeSignal → HandlerEnd} {s t : SignalledSystem α} {i : Nat}
  {a : DeathAction α}

theorem SignalledSystem.running_eq {process : Process} (h : s.running i = some process) :
    s.killed i = false ∧ s.system.process i = some process := by
  unfold SignalledSystem.running at h
  split at h
  · cases h
  · exact ⟨Bool.not_eq_true _ |>.mp ‹_›, h⟩

theorem SignalledSystem.leave_eq (h : s.leave i = some t) :
    ∃ system, exitProcess s.system i = some system ∧ t = { s with system } := by
  obtain ⟨system, hexit, rfl⟩ := Option.map_eq_some_iff.mp h
  exact ⟨system, hexit, rfl⟩

theorem SignalledSystem.destroy_eq (h : s.destroy i = some t) :
    ∃ process memory bridge, s.system.process i = some process ∧
      bridgeDestroyTable s.system.memory process.bridge = some (memory, bridge) ∧
      t = { s with system := { s.system with
        memory, processes := s.system.processes.set i { process with bridge } } } := by
  obtain ⟨process, hp, h⟩ := Option.bind_eq_some_iff.mp h
  obtain ⟨⟨memory, bridge⟩, hd, rfl⟩ := Option.map_eq_some_iff.mp h
  exact ⟨process, memory, bridge, hp, hd, rfl⟩

/-- What a step can do, `abort` and the signals by what they have done. -/
inductive DeathMove (s : SignalledSystem α) : DeathAction α → SignalledSystem α → Prop
  | process (action : ProcessAction) (system : System)
      (hs : systemStep s.system action = some system) :
      DeathMove s (.process action) { s with
        system
        dispositions := action.dispositions s.system system s.dispositions
        failedForks := action.failedForks s.system s.failedForks }
  | sigaction (i : Nat) (signal : BridgeSignal) (handler : SignalHandler α) (process : Process)
      (hr : s.running i = some process)
      (hknown : handler.isBridge = true → process.bridge.isInitialized = true) :
      DeathMove s (.sigaction i signal handler) (s.sigaction i signal handler)
  | survives (i : Nat) (signal : BridgeSignal) : DeathMove s (.raise i signal) s
  | destroys (i : Nat) (signal : BridgeSignal) (t : SignalledSystem α) (hs : s.destroy i = some t) :
      DeathMove s (.raise i signal) t
  | leaves (i : Nat) (a : DeathAction α) (t : SignalledSystem α) (hs : s.leave i = some t) :
      DeathMove s a t
  | dies (i : Nat) (a : DeathAction α) : DeathMove s a (s.kill i)

theorem deathMove (h : deathStep ends s a = some t) : DeathMove s a t := by
  cases a with
  | process action =>
    simp only [deathStep] at h
    split at h
    · obtain ⟨system, hs, rfl⟩ := Option.map_eq_some_iff.mp h
      exact .process action system hs
    · cases h
  | sigaction i signal handler =>
    obtain ⟨process, hr, h⟩ := Option.bind_eq_some_iff.mp h
    split at h
    · cases h
    · rename_i hknown
      obtain rfl := Option.some.inj h
      exact .sigaction i signal handler process hr (by simpa using hknown)
  | raise i signal =>
    obtain ⟨process, -, h⟩ := Option.bind_eq_some_iff.mp h
    cases hd : (s.dispositions i).deliver ends signal with
    | survived =>
      rw [hd] at h
      obtain rfl := Option.some.inj h
      exact .survives i signal
    | destroyed =>
      rw [hd] at h
      exact .destroys i signal t h
    | exited =>
      rw [hd] at h
      exact .leaves i _ t h
    | killed =>
      rw [hd] at h
      obtain rfl := Option.some.inj h
      exact .dies i _
  | abort i =>
    obtain ⟨process, -, h⟩ := Option.bind_eq_some_iff.mp h
    cases hd : (s.dispositions i).deliver ends .sigabrt with
    | exited | destroyed =>
      rw [hd] at h
      exact .leaves i _ t h
    | survived | killed =>
      rw [hd] at h
      obtain rfl := Option.some.inj h
      exact .dies i _
  | kill i =>
    obtain ⟨process, -, rfl⟩ := Option.map_eq_some_iff.mp h
    exact .dies i _

/-- The bridge's handler is never an old one, since the application does not know it before the
set-up. -/
structure HandlerInv (s : SignalledSystem α) : Prop where
  old : ∀ i signal, (s.dispositions i).old signal ≠ .bridge
  early : ∀ i, s.system.isSetUp i = false → ∀ signal, (s.dispositions i).current signal ≠ .bridge

namespace HandlerInv

theorem init (sides : List Side) {original : Nat → BridgeSignal → SignalHandler α}
    (h : ∀ i signal, original i signal ≠ .bridge) : HandlerInv (.init sides original) where
  old := by
    intro i signal hold
    cases hold
  early := fun i _ => h i

theorem keep (h : HandlerInv s) {system : System} {killed : Nat → Bool}
    {failedForks : Nat → Nat}
    (hsetUp : ∀ k, s.system.isSetUp k = true → system.isSetUp k = true) :
    HandlerInv { s with system, killed, failedForks } := by
  refine ⟨h.old, ?_⟩
  intro k hk signal
  refine h.early k ?_ signal
  by_contra hready
  rw [hsetUp k (Bool.not_eq_false _ |>.mp hready)] at hk
  cases hk

theorem setUpBy (h : HandlerInv s) {system : System}
    (hsetUp : ∀ k, s.system.isSetUp k = true → system.isSetUp k = true) :
    HandlerInv { s with
      system, dispositions := Tssx.setUpBy s.system system s.dispositions } := by
  constructor
  · intro k signal
    show (Tssx.setUpBy s.system system s.dispositions k).old signal ≠ .bridge
    unfold Tssx.setUpBy
    split
    · rename_i hnew
      rw [setupExitHandling_eq]
      exact h.early k (by simpa using (Bool.and_eq_true_iff.mp hnew).1) signal
    · exact h.old k signal
  · intro k hk signal
    have hbefore : s.system.isSetUp k = false := by
      by_contra hready
      rw [hsetUp k (Bool.not_eq_false _ |>.mp hready)] at hk
      cases hk
    replace hk : system.isSetUp k = false := hk
    show (Tssx.setUpBy s.system system s.dispositions k).current signal ≠ .bridge
    rw [Tssx.setUpBy, hk, Bool.and_false, if_neg Bool.false_ne_true]
    exact h.early k hbefore signal

theorem process (h : HandlerInv s) {action : ProcessAction} {system : System}
    {failedForks : Nat → Nat} (hs : systemStep s.system action = some system) :
    HandlerInv { s with
      system
      dispositions := action.dispositions s.system system s.dispositions
      failedForks } := by
  obtain ⟨hold, hearly⟩ := h.setUpBy fun k hk => isSetUp_step hs hk
  cases action with
  | handshake | close | exit => exact ⟨hold, hearly⟩
  | fork i succeeds =>
    cases succeeds with
    | false => exact ⟨hold, hearly⟩
    | true =>
      constructor
      · intro k signal
        dsimp only [ProcessAction.dispositions]
        by_cases hk : k = s.system.processes.length
        · subst hk
          rw [Function.update_self]
          exact hold i signal
        · rw [Function.update_of_ne hk]
          exact hold k signal
      · intro k hk signal
        dsimp only [ProcessAction.dispositions]
        by_cases hchild : k = s.system.processes.length
        · subst hchild
          cases (isSetUp_child hs).symm.trans hk
        · rw [Function.update_of_ne hchild]
          exact hearly k hk signal

theorem sigaction (h : HandlerInv s) {process : Process} {signal : BridgeSignal}
    {handler : SignalHandler α} (hrunning : s.running i = some process)
    (hknown : handler.isBridge = true → process.bridge.isInitialized = true) :
    HandlerInv (s.sigaction i signal handler) := by
  obtain ⟨-, hprocess⟩ := SignalledSystem.running_eq hrunning
  obtain ⟨hi, -⟩ := System.process_eq hprocess
  constructor
  · intro k other
    dsimp only [SignalledSystem.sigaction]
    by_cases hk : k = i
    · subst hk
      rw [Function.update_self]
      exact h.old k other
    · rw [Function.update_of_ne hk]
      exact h.old k other
  · intro k hk other
    dsimp only [SignalledSystem.sigaction]
    by_cases hne : k = i
    · subst hne
      rw [Function.update_self, Dispositions.set]
      by_cases hsignal : other = signal
      · subst hsignal
        dsimp only
        rw [Function.update_self]
        rintro rfl
        -- the application does not know the bridge's handler yet
        have hready := hknown rfl
        replace hk : s.system.isSetUp k = false := hk
        rw [System.isSetUp, hi, Option.any_some, hready] at hk
        cases hk
      · dsimp only
        rw [Function.update_of_ne hsignal]
        exact h.early k hk other
    · rw [Function.update_of_ne hne]
      exact h.early k hk other

theorem step (h : HandlerInv s) (hm : DeathMove s a t) : HandlerInv t := by
  cases hm with
  | process action system hs => exact h.process hs
  | sigaction i signal handler process hr hknown => exact h.sigaction hr hknown
  | survives => exact h
  | destroys i signal t hs =>
    obtain ⟨process, memory, bridge, hp, hd, rfl⟩ := SignalledSystem.destroy_eq hs
    obtain ⟨hinit, _, _, -, rfl⟩ := bridgeDestroyTable_eq hd
    exact h.keep fun k hk => isSetUp_set (System.process_eq hp).1 (fun _ => hinit) hk
  | leaves i a t hs =>
    obtain ⟨system, hexit, rfl⟩ := SignalledSystem.leave_eq hs
    have hstep : systemStep s.system (.exit i) = some system := hexit
    exact h.keep fun k hk => isSetUp_step hstep hk
  | dies i a => exact h.keep fun _ hk => hk

end HandlerInv

/-! ### The users -/

theorem failedForks_eq {process : Process} {c : Nat} (hp : s.system.process i = some process)
    (hle : process.uses c ≤ 1) :
    (ProcessAction.fork i false).failedForks s.system s.failedForks c =
      s.failedForks c + process.uses c := by
  simp only [ProcessAction.failedForks, hp, Option.any_some, Process.holds, decide_eq_true_eq]
  split <;> omega

theorem nextConnection_le {system system' : System} {action : ProcessAction}
    (h : systemStep system action = some system') :
    system.nextConnection ≤ system'.nextConnection := by
  cases action with
  | handshake i j serverFd clientFd =>
    obtain ⟨server, -, h⟩ := Option.bind_eq_some_iff.mp h
    obtain ⟨client, -, h⟩ := Option.bind_eq_some_iff.mp h
    split at h
    · obtain ⟨_, -, h⟩ := Option.bind_eq_some_iff.mp h
      obtain ⟨_, -, rfl⟩ := Option.map_eq_some_iff.mp h
      exact Nat.le_succ _
    · cases h
  | fork i succeeds =>
    obtain ⟨_, -, h⟩ := Option.bind_eq_some_iff.mp h
    obtain ⟨_, -, rfl⟩ := Option.map_eq_some_iff.mp h
    exact Nat.le_refl _
  | close i fd =>
    obtain ⟨_, -, h⟩ := Option.bind_eq_some_iff.mp h
    obtain ⟨_, -, rfl⟩ := Option.map_eq_some_iff.mp h
    exact Nat.le_refl _
  | exit i =>
    obtain ⟨_, -, h⟩ := Option.bind_eq_some_iff.mp h
    obtain ⟨_, -, rfl⟩ := Option.map_eq_some_iff.mp h
    exact Nat.le_refl _

/-- A killed process stays counted, and so does a child that was not made. -/
def SignalledSystem.UsersInv (s : SignalledSystem α) : Prop :=
  SystemInv StaleInv s.failedForks s.system

theorem usersInv_process (h : s.UsersInv) {action : ProcessAction} {system : System}
    (hs : systemStep s.system action = some system) (hn : system.nextConnection < 2 ^ 64) :
    SystemInv StaleInv (action.failedForks s.system s.failedForks) system := by
  cases action with
  | handshake i j serverFd clientFd =>
    refine h.handshake_inv staleInv_rule ?_ hs
    obtain ⟨_, -, hs⟩ := Option.bind_eq_some_iff.mp hs
    obtain ⟨_, -, hs⟩ := Option.bind_eq_some_iff.mp hs
    split at hs
    · obtain ⟨_, -, hs⟩ := Option.bind_eq_some_iff.mp hs
      obtain ⟨_, -, rfl⟩ := Option.map_eq_some_iff.mp hs
      exact hn
    · cases hs
  | fork i succeeds =>
    cases succeeds with
    | true => exact h.fork_inv staleInv_rule hs
    | false =>
      obtain ⟨process, hp, hs⟩ := Option.bind_eq_some_iff.mp hs
      obtain ⟨⟨memory, bridge⟩, hadd, rfl⟩ := Option.map_eq_some_iff.mp hs
      obtain ⟨hi, ha⟩ := System.process_eq hp
      have hle : ∀ c, process.uses c ≤ 1 := by
        intro c
        rw [SystemInv.uses_alive ha]
        exact h.once process (List.mem_of_getElem? hi) c
      have hforks : (ProcessAction.fork i false).failedForks s.system s.failedForks =
          fun c => s.failedForks c + process.uses c := funext fun c => failedForks_eq hp (hle c)
      rw [hforks]
      exact h.countFork staleInv_rule hp hadd
  | close i fd => exact h.closeDescriptor_inv staleInv_rule hs
  | exit i => exact h.exitProcess_inv staleInv_rule hs

theorem usersInv_step (h : s.system.nextConnection < 2 ^ 64 → s.UsersInv) (hm : DeathMove s a t)
    (hn : t.system.nextConnection < 2 ^ 64) : t.UsersInv := by
  cases hm with
  | process action system hs =>
    have hle := nextConnection_le hs
    exact usersInv_process (h (Nat.lt_of_le_of_lt hle hn)) hs hn
  | sigaction | survives | dies => exact h hn
  | destroys i signal t hs =>
    obtain ⟨process, memory, bridge, hp, hd, rfl⟩ := SignalledSystem.destroy_eq hs
    exact SystemInv.destroy (h hn) hp hd
  | leaves i a t hs =>
    obtain ⟨system, hexit, rfl⟩ := SignalledSystem.leave_eq hs
    have hstep : systemStep s.system (.exit i) = some system := hexit
    have hle := nextConnection_le hstep
    exact (h (Nat.lt_of_le_of_lt hle hn)).exitProcess_inv staleInv_rule hexit

/-- **A running process takes every signal**: no assertion fails, and no segment is removed
twice. -/
theorem raise_isSome (hd : HandlerInv s) (hu : s.UsersInv) {process : Process}
    (hr : s.running i = some process) (signal : BridgeSignal) :
    (deathStep ends s (.raise i signal)).isSome := by
  obtain ⟨-, hp⟩ := SignalledSystem.running_eq hr
  rw [deathStep, hr, Option.bind_some]
  cases hdeliver : (s.dispositions i).deliver ends signal with
  | survived => rfl
  | killed => rfl
  | exited =>
    show (s.leave i).isSome
    rw [SignalledSystem.leave, Option.isSome_map]
    exact SystemInv.exits hu hp
  | destroyed =>
    have hready : s.system.isSetUp i = true := by
      by_contra hnot
      have hother := hd.early i (Bool.not_eq_true _ |>.mp hnot) signal
      refine hother ?_
      unfold Dispositions.deliver at hdeliver
      cases hcurrent : (s.dispositions i).current signal with
      | bridge => rfl
      | default => simp [hcurrent] at hdeliver
      | ignore => simp [hcurrent] at hdeliver
      | application handler =>
        cases he : ends handler signal <;> simp [hcurrent, he] at hdeliver
    rw [System.isSetUp, (System.process_eq hp).1, Option.any_some] at hready
    show (s.destroy i).isSome
    rw [SignalledSystem.destroy, hp, Option.bind_some, Option.isSome_map]
    exact SystemInv.destroys hu hp hready

end Runs

/-- **Which deaths are noticed.**  A signal kills a process only by its default disposition, or by
way of the bridge's handler if the application had ignored it, and a running process takes every
signal.  The last running holder of a connection is told that its peer has died if and only if no
holder has been killed, and no fork of a holder has failed. -/
theorem deaths_noticed {ends : α → BridgeSignal → HandlerEnd} {sides : List Side}
    {original : Nat → BridgeSignal → SignalHandler α} {actions : List (DeathAction α)}
    {s : SignalledSystem α} (horiginal : ∀ i signal, original i signal ≠ .bridge)
    (hrun : Run.run (deathStep ends) (.init sides original) actions = some s) :
    (∀ i signal, (s.dispositions i).deliver ends signal = .killed ↔
      (s.dispositions i).current signal = .default ∨
        (s.dispositions i).current signal = .bridge ∧
          (s.dispositions i).old signal = .ignore) ∧
    (s.system.nextConnection < 2 ^ 64 →
      (∀ i signal, (s.running i).isSome → (deathStep ends s (.raise i signal)).isSome) ∧
      ∀ c < s.system.nextConnection, ∀ i process, s.running i = some process →
        process.holds c = true →
        (∀ j other, j ≠ i → s.running j = some other → other.holds c = false) →
        (connectionPeerDied (s.system.memory.segment c) = true ↔
          (∀ (j : Nat) other, s.killed j = true → s.system.processes[j]? = some other →
            other.holds c = false) ∧ s.failedForks c = 0)) := by
  have hdispositions : HandlerInv s :=
    Run.run_induct (fun _ _ _ hu hv => hu.step (deathMove hv)) (.init sides horiginal) hrun
  refine ⟨fun i signal => deliver_killed_iff (hdispositions.old i signal), ?_⟩
  intro hconnections
  have hstart : (SignalledSystem.init sides original).UsersInv :=
    systemInv_init sides StaleInv.initial
  have hinv : SystemInv StaleInv s.failedForks s.system := Run.run_induct
    (I := fun s : SignalledSystem α => s.system.nextConnection < 2 ^ 64 → s.UsersInv)
    (fun _ _ _ hu hv => usersInv_step hu (deathMove hv)) (fun _ => hstart) hrun hconnections
  constructor
  · intro i signal hr
    obtain ⟨process, hr⟩ := Option.isSome_iff_exists.mp hr
    exact raise_isSome hdispositions hinv hr signal
  · intro c hc i process hrunning hholds hlast
    obtain ⟨hkilled, hprocess⟩ := SignalledSystem.running_eq hrunning
    obtain ⟨hi, -⟩ := System.process_eq hprocess
    have hcount := hinv.count_holders hc
    have halone := Parties.countP_eq_one_iff hi hholds
    have hpos : 0 < s.system.processes.countP (Process.holds c) :=
      List.countP_pos_iff.mpr ⟨process, List.mem_of_getElem? hi, hholds⟩
    rw [connectionPeerDied, beq_iff_eq, hcount]
    constructor
    · intro hone
      refine ⟨?_, by omega⟩
      intro j other hj hother
      refine halone.mp (by omega) j other ?_ hother
      rintro rfl
      cases hkilled.symm.trans hj
    · rintro ⟨hnone, hforks⟩
      have hall : s.system.processes.countP (Process.holds c) = 1 := by
        refine halone.mpr fun j other hne hother => ?_
        cases hj : s.killed j with
        | true => exact hnone j other hj hother
        | false =>
          by_cases halive : other.alive = true
          · refine hlast j other hne ?_
            rw [SignalledSystem.running, hj, if_neg Bool.false_ne_true, System.process, hother,
              Option.bind_some, if_pos halive]
          · rw [Process.holds, Process.uses, if_neg halive]
            rfl
      omega

/-- The client has a handler for `SIGABRT` that returns, and two connections when it gets the
signal.  Then the server fails to fork. -/
private def strayAbort : List (DeathAction Unit) :=
  [.sigaction 1 .sigabrt (.application ()), .process (.handshake 0 1 4 5),
    .process (.handshake 0 1 6 7), .raise 1 .sigabrt, .process (.fork 0 false)]

/-- The client goes on without its connections.  The server would have been told so, if it had not
counted a child that it does not have. -/
theorem deaths_noticed_at :
    ∃ s, Run.run (deathStep fun (_ : Unit) _ => .returns)
        (.init [.server, .client] fun _ _ => .default) strayAbort = some s ∧
      (s.running 1).isSome ∧ s.failedForks 0 = 1 ∧
      (deathStep (fun _ _ => .returns) s (.raise 1 .sigabrt)).isSome ∧
      (connectionPeerDied (s.system.memory.segment 0) = true ↔
        (∀ (j : Nat) other, s.killed j = true → s.system.processes[j]? = some other →
          other.holds 0 = false) ∧ s.failedForks 0 = 0) := by
  have hrun : (Run.run (deathStep fun (_ : Unit) _ => .returns)
      (.init [.server, .client] fun _ _ => .default) strayAbort).any (fun s =>
        decide (s.system.nextConnection = 2) && decide (s.system.processes.length = 2) &&
          (s.running 0).any (Process.holds 0) &&
          (s.running 1).any (fun process => !process.holds 0) && decide (s.failedForks 0 = 1)) =
      true := by
    decide +kernel
  obtain ⟨s, hs, hp⟩ := Option.any_eq_true _ _ |>.mp hrun
  simp only [Bool.and_eq_true, decide_eq_true_eq] at hp
  obtain ⟨⟨⟨⟨hnext, hlength⟩, hserver⟩, hclient⟩, hforks⟩ := hp
  obtain ⟨server, hrunning, hholds⟩ := Option.any_eq_true _ _ |>.mp hserver
  obtain ⟨client, hrunning', hnone⟩ := Option.any_eq_true _ _ |>.mp hclient
  have hboth := (deaths_noticed (fun _ _ => by simp) hs).2 (by omega)
  have hsome : (s.running 1).isSome := Option.isSome_of_eq_some hrunning'
  refine ⟨s, hs, hsome, hforks, hboth.1 1 .sigabrt hsome,
    hboth.2 0 (by omega) 0 server hrunning hholds ?_⟩
  intro j other hj hother
  obtain ⟨hprocess, -⟩ := System.process_eq (SignalledSystem.running_eq hother).2
  have hlt := (List.getElem?_eq_some_iff.mp hprocess).1
  obtain rfl : j = 1 := by omega
  obtain rfl := Option.some.inj (hother.symm.trans hrunning')
  simpa using hnone

end Tssx
