import Mathlib.Data.Finmap
import Tssx.Epoll.Contents
import Tssx.Lib.Run

/-!
# The registrations of an epoll instance

A `Registry` is what an epoll instance with TSSX descriptors is for: a finite map from the
descriptors to their events and connections.  `EpollInstance.registry` is the map that the code's
instance represents, and `registration_refines` says that every sequence of valid control
operations does to the instance what it does to the map, with waits in between that leave other
flags in the entries (`checkEpollEntry_reflag`).
-/

namespace Tssx

/-! ### The map -/

abbrev Registry := Finmap fun _ : Int => EpollEvent × Nat

/-- A call of `epoll_ctl` for a descriptor with a connection. -/
structure ControlCall where
  operation : Int
  fd : Int
  event : EpollEvent
  connection : Nat
  deriving DecidableEq

namespace Registry

def control (registry : Registry) (call : ControlCall) : Registry :=
  if call.operation = EPOLL_CTL_ADD then registry.insert call.fd (call.event, call.connection)
  else if call.operation = EPOLL_CTL_MOD then
    match registry.lookup call.fd with
    | some (_, connection) => registry.insert call.fd (call.event, connection)
    | none => registry
  else if call.operation = EPOLL_CTL_DEL then registry.erase call.fd
  else registry

/-- Only an unregistered descriptor is added, and only a registered one modified or deleted. -/
structure Valid (registry : Registry) (call : ControlCall) : Prop where
  add : call.operation = EPOLL_CTL_ADD → call.fd ∉ registry
  modify : call.operation = EPOLL_CTL_MOD → call.fd ∈ registry
  erase : call.operation = EPOLL_CTL_DEL → call.fd ∈ registry

instance (registry : Registry) (call : ControlCall) : Decidable (Valid registry call) :=
  decidable_of_iff
    ((call.operation = EPOLL_CTL_ADD → call.fd ∉ registry) ∧
      (call.operation = EPOLL_CTL_MOD → call.fd ∈ registry) ∧
      (call.operation = EPOLL_CTL_DEL → call.fd ∈ registry))
    ⟨fun ⟨ha, hm, he⟩ => ⟨ha, hm, he⟩, fun ⟨ha, hm, he⟩ => ⟨ha, hm, he⟩⟩

end Registry

/-! ### Between two waits -/

/-- A call of `epoll_ctl`, or a wait, after which an entry has the flags that `flags` gives it. -/
inductive RegistrationAction
  | control (call : ControlCall)
  | wait (flags : EpollEntry → BitVec 16)

namespace Registry

/-- A wait leaves the registrations alone. -/
def act (registry : Registry) : RegistrationAction → Registry
  | .control call => registry.control call
  | .wait _ => registry

def Allows (registry : Registry) : RegistrationAction → Prop
  | .control call => registry.Valid call
  | .wait _ => True

instance (registry : Registry) : ∀ a, Decidable (Allows registry a)
  | .control call => inferInstanceAs (Decidable (registry.Valid call))
  | .wait _ => inferInstanceAs (Decidable True)

/-- Each call of the sequence is valid where it is made. -/
def AllValid (actions : List RegistrationAction) : Prop :=
  Run.Meets (fun registry a => some (act registry a)) Allows ∅ actions

instance (actions : List RegistrationAction) : Decidable (AllValid actions) :=
  inferInstanceAs (Decidable (Run.Meets _ Allows ∅ actions))

end Registry

/-! ### The instance -/

/-- A descriptor with what it is mapped to. -/
def EpollEntry.registration (entry : EpollEntry) : Σ _ : Int, EpollEvent × Nat :=
  ⟨entry.fd, entry.event, entry.connection⟩

/-- The map that a list of entries represents. -/
def registryOf (entries : List EpollEntry) : Registry :=
  (entries.map EpollEntry.registration).toFinmap

def EpollInstance.registry (epoll : EpollInstance) : Registry := registryOf epoll.held

def ControlCall.control (call : ControlCall) (epoll : EpollInstance) :
    Option (Int × EpollInstance) :=
  epollTssxControlOperation true epoll call.operation call.fd call.event call.connection

def EpollEntry.reflag (flags : EpollEntry → BitVec 16) (entry : EpollEntry) : EpollEntry :=
  { entry with flags := flags entry }

/-- The entries in both places have other flags. -/
def EpollInstance.reflag (flags : EpollEntry → BitVec 16) (epoll : EpollInstance) :
    EpollInstance :=
  { epoll with
    first := epoll.first.reflag flags
    entries := { epoll.entries with
      data := epoll.entries.data.map fun cells => cells.map (Option.map (.reflag flags)) } }

def registrationStep (epoll : EpollInstance) : RegistrationAction → Option EpollInstance
  | .control call => (call.control epoll).map Prod.snd
  | .wait flags => some (epoll.reflag flags)

/-- The instance holds each registered descriptor once, in the places that a wait looks at. -/
structure RepresentsRegistry (epoll : EpollInstance) (registry : Registry) : Prop where
  map : epoll.registry = registry
  once : (epoll.held.map EpollEntry.fd).Nodup
  count : epoll.tssxCount = registry.keys.card
  size : epoll.entries.size = epoll.tssxCount - 1
  watched : 1 ≤ epoll.tssxCount → epoll.watched = some epoll.held

/-- What a control operation returns, and does to the entries.  An entry that is added or modified
is enabled, and has no edges. -/
structure ControlEffect (epoll : EpollInstance) (call : ControlCall) (code : Int)
    (epoll' : EpollInstance) : Prop where
  code : code =
    if call.operation = EPOLL_CTL_ADD ∨ call.operation = EPOLL_CTL_MOD ∨
      call.operation = EPOLL_CTL_DEL then SUCCESS else ERROR
  add : call.operation = EPOLL_CTL_ADD →
    epoll'.held = epoll.held ++
      [{ fd := call.fd, event := call.event, connection := call.connection, flags := ENABLED }]
  modify : call.operation = EPOLL_CTL_MOD →
    epoll'.held = epoll.held.map fun entry =>
      if entry.fd = call.fd then { entry with event := call.event, flags := ENABLED } else entry
  erase : call.operation = EPOLL_CTL_DEL →
    epoll'.held.Perm (epoll.held.filter fun entry => entry.fd ≠ call.fd)
  enabled : call.operation = EPOLL_CTL_ADD ∨ call.operation = EPOLL_CTL_MOD →
    ∀ entry ∈ epoll'.held, entry.fd = call.fd →
      isEnabled entry = true ∧ entry.flags &&& (READ_EDGE ||| WRITE_EDGE) = 0

variable {epoll epoll' : EpollInstance} {registry : Registry} {call : ControlCall} {code fd : Int}
  {xs ys : List EpollEntry} {entry : EpollEntry} {value : EpollEvent × Nat}

/-! ### The map of a list of entries -/

theorem nodupKeys_iff :
    (xs.map EpollEntry.registration).NodupKeys ↔ (xs.map EpollEntry.fd).Nodup := by
  rw [List.NodupKeys, List.keys, List.map_map]
  rfl

theorem mem_lookup_registryOf (hn : (xs.map EpollEntry.fd).Nodup) :
    value ∈ (registryOf xs).lookup fd ↔
      ∃ entry ∈ xs, entry.fd = fd ∧ (entry.event, entry.connection) = value := by
  rw [registryOf, Finmap.dlookup_list_toFinmap, List.mem_dlookup_iff (nodupKeys_iff.mpr hn),
    List.mem_map]
  constructor
  · rintro ⟨entry, hm, he⟩
    cases he
    exact ⟨entry, hm, rfl, rfl⟩
  · rintro ⟨entry, hm, rfl, rfl⟩
    exact ⟨entry, hm, rfl⟩

theorem mem_registryOf (hn : (xs.map EpollEntry.fd).Nodup) :
    fd ∈ registryOf xs ↔ fd ∈ xs.map EpollEntry.fd := by
  rw [Finmap.mem_iff, List.mem_map]
  constructor
  · rintro ⟨value, hv⟩
    obtain ⟨entry, hm, hfd, -⟩ := (mem_lookup_registryOf hn).mp hv
    exact ⟨entry, hm, hfd⟩
  · rintro ⟨entry, hm, hfd⟩
    exact ⟨_, (mem_lookup_registryOf hn).mpr ⟨entry, hm, hfd, rfl⟩⟩

theorem card_keys_registryOf (hn : (xs.map EpollEntry.fd).Nodup) :
    (registryOf xs).keys.card = xs.length := by
  have hkeys : (registryOf xs).keys = (xs.map EpollEntry.fd).toFinset := by
    ext fd
    rw [Finmap.mem_keys, mem_registryOf hn, List.mem_toFinset]
  rw [hkeys, List.toFinset_card_of_nodup hn, List.length_map]

/-- Only the listed entries matter for a map. -/
theorem registryOf_eq_iff (hn : (xs.map EpollEntry.fd).Nodup) :
    registryOf xs = registry ↔
      ∀ fd value, value ∈ registry.lookup fd ↔
        ∃ entry ∈ xs, entry.fd = fd ∧ (entry.event, entry.connection) = value := by
  constructor
  · rintro rfl fd value
    exact mem_lookup_registryOf hn
  · intro h
    refine Finmap.ext_lookup fun fd => Option.ext fun value => ?_
    exact (mem_lookup_registryOf hn).trans (h fd value).symm

theorem registryOf_perm (hn : (xs.map EpollEntry.fd).Nodup) (h : xs.Perm ys) :
    registryOf ys = registryOf xs := by
  refine (registryOf_eq_iff ((h.map _).nodup_iff.mp hn)).mpr fun fd value => ?_
  rw [mem_lookup_registryOf hn]
  simp only [h.mem_iff]

/-! ### The operations on lists -/

theorem registryOf_append (hn : (xs.map EpollEntry.fd).Nodup)
    (hm : entry.fd ∉ xs.map EpollEntry.fd) :
    ((xs ++ [entry]).map EpollEntry.fd).Nodup ∧
      registryOf (xs ++ [entry]) =
        (registryOf xs).insert entry.fd (entry.event, entry.connection) := by
  have hn' : ((xs ++ [entry]).map EpollEntry.fd).Nodup := by
    rw [List.map_append]
    exact hn.append (List.nodup_singleton _) (by simpa using hm)
  refine ⟨hn', (registryOf_eq_iff hn').mpr fun fd value => ?_⟩
  by_cases hfd : fd = entry.fd
  · subst hfd
    rw [Finmap.lookup_insert, Option.mem_some_iff]
    constructor
    · rintro rfl
      exact ⟨entry, by simp, rfl, rfl⟩
    · rintro ⟨e, he, hefd, rfl⟩
      rcases List.mem_append.mp he with he | he
      · exact absurd (List.mem_map.mpr ⟨e, he, hefd⟩) hm
      · rw [List.mem_singleton.mp he]
  · rw [Finmap.lookup_insert_of_ne _ hfd, mem_lookup_registryOf hn]
    constructor
    · rintro ⟨e, he, hefd⟩
      exact ⟨e, List.mem_append_left _ he, hefd⟩
    · rintro ⟨e, he, rfl, hvalue⟩
      rcases List.mem_append.mp he with he | he
      · exact ⟨e, he, rfl, hvalue⟩
      · rw [List.mem_singleton.mp he] at hfd
        exact absurd rfl hfd

theorem registryOf_update (hn : (xs.map EpollEntry.fd).Nodup) {event : EpollEvent}
    (hm : entry ∈ xs) (hfd : entry.fd = fd) :
    ((xs.map fun e => if e.fd = fd then e.update event else e).map EpollEntry.fd) =
        xs.map EpollEntry.fd ∧
      registryOf (xs.map fun e => if e.fd = fd then e.update event else e) =
        (registryOf xs).insert fd (event, entry.connection) := by
  have hfds : ((xs.map fun e => if e.fd = fd then e.update event else e).map EpollEntry.fd) =
      xs.map EpollEntry.fd := by
    rw [List.map_map]
    refine List.map_congr_left fun e _ => ?_
    rw [Function.comp]
    split <;> rfl
  refine ⟨hfds, (registryOf_eq_iff (hfds ▸ hn)).mpr fun fd' value => ?_⟩
  by_cases he : fd' = fd
  · subst he
    rw [Finmap.lookup_insert, Option.mem_some_iff]
    constructor
    · rintro rfl
      exact ⟨entry.update event, List.mem_map.mpr ⟨entry, hm, if_pos hfd⟩, hfd, rfl⟩
    · rintro ⟨e, he, hefd, rfl⟩
      obtain ⟨old, hold, rfl⟩ := List.mem_map.mp he
      by_cases hof : old.fd = fd'
      · obtain rfl := List.inj_on_of_nodup_map hn hold hm (hof.trans hfd.symm)
        rw [if_pos hof]
        rfl
      · rw [if_neg hof] at hefd
        exact absurd hefd hof
  · rw [Finmap.lookup_insert_of_ne _ he, mem_lookup_registryOf hn]
    constructor
    · rintro ⟨e, hmem, rfl, hvalue⟩
      exact ⟨e, List.mem_map.mpr ⟨e, hmem, if_neg he⟩, rfl, hvalue⟩
    · rintro ⟨e, hmem, rfl, rfl⟩
      obtain ⟨old, hold, rfl⟩ := List.mem_map.mp hmem
      by_cases hof : old.fd = fd
      · rw [if_pos hof] at he
        exact absurd hof he
      · rw [if_neg hof]
        exact ⟨old, hold, rfl, rfl⟩

theorem registryOf_filter (hn : (xs.map EpollEntry.fd).Nodup) :
    ((xs.filter fun e => e.fd ≠ fd).map EpollEntry.fd).Nodup ∧
      registryOf (xs.filter fun e => e.fd ≠ fd) = (registryOf xs).erase fd := by
  have hn' : ((xs.filter fun e => e.fd ≠ fd).map EpollEntry.fd).Nodup :=
    hn.sublist (List.filter_sublist.map _)
  refine ⟨hn', (registryOf_eq_iff hn').mpr fun fd' value => ?_⟩
  by_cases he : fd' = fd
  · subst he
    rw [Finmap.lookup_erase]
    refine iff_of_false (Option.not_mem_none value) ?_
    rintro ⟨e, hmem, hfd, -⟩
    simpa [hfd] using (List.mem_filter.mp hmem).2
  · rw [Finmap.lookup_erase_ne he, mem_lookup_registryOf hn]
    constructor
    · rintro ⟨e, hmem, rfl, hvalue⟩
      exact ⟨e, List.mem_filter.mpr ⟨hmem, by simpa using he⟩, rfl, hvalue⟩
    · rintro ⟨e, hmem, hfd⟩
      exact ⟨e, List.mem_of_mem_filter hmem, hfd⟩

theorem set_eq_map {index : Nat} {event : EpollEvent} (hn : (xs.map EpollEntry.fd).Nodup)
    (hi : xs[index]? = some entry) (hfd : entry.fd = fd) :
    xs.set index (entry.update event) =
      xs.map fun e => if e.fd = fd then e.update event else e := by
  induction xs generalizing index with
  | nil => cases hi
  | cons x xs ih =>
    obtain ⟨hx, hn⟩ := List.nodup_cons.mp hn
    cases index with
    | zero =>
      obtain rfl : x = entry := by simpa using hi
      rw [List.set_cons_zero, List.map_cons, if_pos hfd]
      congr 1
      refine (List.map_id' xs).symm.trans (List.map_congr_left fun e he => (if_neg ?_).symm)
      rintro he'
      exact hx (List.mem_map.mpr ⟨e, he, he'.trans hfd.symm⟩)
    | succ index =>
      rw [List.getElem?_cons_succ] at hi
      have hne : x.fd ≠ fd := by
        rintro rfl
        exact hx (List.mem_map.mpr ⟨entry, List.mem_of_getElem? hi, hfd⟩)
      rw [List.set_cons_succ, List.map_cons, if_neg hne, ih hn hi]

theorem perm_filter (hn : (xs.map EpollEntry.fd).Nodup) (h : xs.Perm (entry :: ys)) :
    ys.Perm (xs.filter fun e => e.fd ≠ entry.fd) := by
  have hys : entry.fd ∉ ys.map EpollEntry.fd :=
    (List.nodup_cons.mp ((h.map EpollEntry.fd).nodup_iff.mp hn)).1
  have hself : ys.filter (fun e => e.fd ≠ entry.fd) = ys := by
    rw [List.filter_eq_self]
    intro e he
    have hne : e.fd ≠ entry.fd := fun hfd => hys (List.mem_map.mpr ⟨e, he, hfd⟩)
    exact decide_eq_true hne
  have hfilter := (h.filter fun e => e.fd ≠ entry.fd).symm
  rw [List.filter_cons_of_neg (by simp), hself] at hfilter
  exact hfilter

/-! ### Waits -/

/-- A check of an entry changes its flags only. -/
theorem checkEpollEntry_reflag (o : Observation) (entry : EpollEntry) (events : EventBuffer)
    (n k : Nat) : (checkEpollEntry o entry events n k).entry =
      entry.reflag fun _ => (checkEpollEntry o entry events n k).entry.flags := by
  have hparts : ∀ check : EpollEntry, check.event = entry.event → check.fd = entry.fd →
      check.connection = entry.connection → check = entry.reflag fun _ => check.flags := by
    intro check he hf hc
    obtain ⟨fd, event, connection, flags⟩ := check
    subst he hf hc
    rfl
  unfold checkEpollEntry
  split
  · rfl
  · split
    · rfl
    · dsimp only
      split
      · rfl
      · obtain ⟨he, hf, hc⟩ := checkEpollEvent_entry (o.ready .read) entry
          { events.event k with events := 0 } .read
        obtain ⟨he', hf', hc'⟩ := checkEpollEvent_entry (o.ready .write)
          (checkEpollEvent (o.ready .read) entry { events.event k with events := 0 } .read).entry
          (checkEpollEvent (o.ready .read) entry { events.event k with events := 0 } .read).output
          .write
        exact hparts _ (he'.trans he) (hf'.trans hf) (hc'.trans hc)

theorem Vector.Holds.reflag {entries : Vector EpollEntry} (h : entries.Holds xs)
    (flags : EpollEntry → BitVec 16) :
    Vector.Holds { entries with
      data := entries.data.map fun cells => cells.map (Option.map (EpollEntry.reflag flags)) }
      (xs.map (EpollEntry.reflag flags)) := by
  obtain ⟨free, hd, hc⟩ := h.data
  refine ⟨by rw [List.length_map, h.size], h.capacity, h.elementSize, ?_⟩
  refine ⟨free.map (Option.map (.reflag flags)), ?_, by simpa using hc⟩
  simp [hd]

theorem EpollInstance.Holds.reflag (h : epoll.Holds xs) (flags : EpollEntry → BitVec 16) :
    (epoll.reflag flags).Holds (xs.map (.reflag flags)) := by
  match xs, h with
  | [], h => exact h
  | [_], h => exact ⟨h.1, congrArg (EpollEntry.reflag flags) h.2.1, h.2.2⟩
  | _ :: _ :: rest, h =>
    refine ⟨?_, congrArg (EpollEntry.reflag flags) h.2.1, h.2.2.reflag flags⟩
    rw [List.length_map]
    exact h.1

theorem registryOf_reflag (flags : EpollEntry → BitVec 16) :
    registryOf (xs.map (.reflag flags)) = registryOf xs := by
  rw [registryOf, registryOf, List.map_map]
  rfl

/-! ### One call -/

/-- The entries of the instance, which have different descriptors. -/
def HoldsOnce (epoll : EpollInstance) (registry : Registry) : Prop :=
  ∃ xs, epoll.Holds xs ∧ (xs.map EpollEntry.fd).Nodup ∧ registryOf xs = registry

theorem HoldsOnce.represents (h : HoldsOnce epoll registry) :
    RepresentsRegistry epoll registry := by
  obtain ⟨xs, hx, hn, rfl⟩ := h
  have hc : epoll.tssxCount = (registryOf xs).keys.card := by
    rw [hx.count, card_keys_registryOf hn]
  refine ⟨?_, ?_, hc, ?_, ?_⟩
  · rw [EpollInstance.registry, hx.held]
  · rw [hx.held]
    exact hn
  · rw [hx.size, hx.count]
  · intro hpos
    rw [hx.held]
    refine hx.watched_eq ?_
    rintro rfl
    rw [hx.count] at hpos
    exact absurd hpos (by decide)

theorem HoldsOnce.reflag (h : HoldsOnce epoll registry) (flags : EpollEntry → BitVec 16) :
    HoldsOnce (epoll.reflag flags) registry := by
  obtain ⟨xs, hx, hn, rfl⟩ := h
  refine ⟨xs.map (.reflag flags), hx.reflag flags, ?_, registryOf_reflag flags⟩
  rw [List.map_map]
  exact hn

theorem HoldsOnce.not_mem (h : HoldsOnce epoll registry) (hm : fd ∉ registry) :
    ∀ entry ∈ epoll.held, entry.fd ≠ fd := by
  obtain ⟨xs, hx, hn, rfl⟩ := h
  rw [hx.held]
  exact fun entry he hfd => hm ((mem_registryOf hn).mpr (List.mem_map.mpr ⟨entry, he, hfd⟩))

theorem add_refines (h : HoldsOnce epoll registry) (hm : fd ∉ registry) (event : EpollEvent)
    (connection : Nat) :
    ∃ epoll', epollAddToInstance true epoll fd event connection = some (SUCCESS, epoll') ∧
      HoldsOnce epoll' (registry.insert fd (event, connection)) ∧
      epoll'.held = epoll.held ++ [.new fd event connection] := by
  obtain ⟨xs, hx, hn, rfl⟩ := h
  obtain ⟨hn', hr⟩ := @registryOf_append xs (.new fd event connection) hn
    (mt (mem_registryOf hn).mpr hm)
  obtain ⟨code, epoll', hc, ⟨rfl, hx'⟩ | ⟨ha, -⟩⟩ := hx.add fd event connection true
  · exact ⟨epoll', hc, ⟨_, hx', hn', hr⟩, by rw [hx'.held, hx.held]⟩
  · cases ha

theorem update_refines (h : HoldsOnce epoll registry) (hm : fd ∈ registry) (event : EpollEvent) :
    ∃ epoll' old connection, epollUpdateInstance epoll fd event = some (SUCCESS, epoll') ∧
      registry.lookup fd = some (old, connection) ∧
      HoldsOnce epoll' (registry.insert fd (event, connection)) ∧
      epoll'.held = epoll.held.map fun e => if e.fd = fd then e.update event else e := by
  obtain ⟨xs, hx, hn, rfl⟩ := h
  obtain ⟨epoll', index, entry, hc, hi, hfd, hx'⟩ :=
    hx.update ((mem_registryOf hn).mp hm) event
  have hmem := List.mem_of_getElem? hi
  rw [set_eq_map hn hi hfd] at hx'
  obtain ⟨hfds, hr⟩ := @registryOf_update fd xs entry hn event hmem hfd
  refine ⟨epoll', entry.event, entry.connection, hc, ?_, ⟨_, hx', hfds ▸ hn, hr⟩, ?_⟩
  · exact (mem_lookup_registryOf hn).mpr ⟨entry, hmem, hfd, rfl⟩
  · rw [hx'.held, hx.held]

theorem erase_refines (h : HoldsOnce epoll registry) (hm : fd ∈ registry) :
    ∃ epoll', epollEraseFromInstance true epoll fd = some (SUCCESS, epoll') ∧
      HoldsOnce epoll' (registry.erase fd) ∧
      epoll'.held.Perm (epoll.held.filter fun e => e.fd ≠ fd) := by
  obtain ⟨xs, hx, hn, rfl⟩ := h
  obtain ⟨epoll', entry, ys, hc, rfl, hp, hx'⟩ | ⟨ha, -⟩ :=
    hx.erase ((mem_registryOf hn).mp hm) true
  · have hf := perm_filter hn hp
    obtain ⟨hn', hr⟩ := @registryOf_filter entry.fd xs hn
    refine ⟨epoll', hc, ⟨ys, hx', (hf.map _).nodup_iff.mpr hn', ?_⟩, ?_⟩
    · rw [← hr]
      exact registryOf_perm hn' hf.symm
    · rw [hx'.held, hx.held]
      exact hf
  · cases ha

theorem enabled_entry (h : entry.flags = ENABLED) :
    isEnabled entry = true ∧ entry.flags &&& (READ_EDGE ||| WRITE_EDGE) = 0 := by
  rw [isEnabled, h]
  decide

theorem enabled_of_add (hnew : ∀ entry ∈ epoll.held, entry.fd ≠ fd) {event : EpollEvent}
    {connection : Nat} (hadd : epoll'.held = epoll.held ++ [.new fd event connection]) :
    ∀ entry ∈ epoll'.held, entry.fd = fd → entry.flags = ENABLED := by
  intro entry he hfd
  rw [hadd] at he
  rcases List.mem_append.mp he with he | he
  · exact absurd hfd (hnew entry he)
  · rw [List.mem_singleton.mp he]
    rfl

theorem enabled_of_modify {event : EpollEvent}
    (hmodify : epoll'.held = epoll.held.map fun e => if e.fd = fd then e.update event else e) :
    ∀ entry ∈ epoll'.held, entry.fd = fd → entry.flags = ENABLED := by
  intro entry he hfd
  rw [hmodify] at he
  obtain ⟨old, -, rfl⟩ := List.mem_map.mp he
  by_cases ho : old.fd = fd
  · rw [if_pos ho]
    rfl
  · rw [if_neg ho] at hfd
    exact absurd hfd ho

/-- **A valid call** does to the instance what it does to the map. -/
theorem control_refines (h : HoldsOnce epoll registry) (hv : registry.Valid call) :
    ∃ code epoll', call.control epoll = some (code, epoll') ∧
      HoldsOnce epoll' (registry.control call) ∧ ControlEffect epoll call code epoll' := by
  obtain ⟨operation, fd, event, connection⟩ := call
  have hmod' : EPOLL_CTL_ADD ≠ EPOLL_CTL_MOD := by decide
  have hdel' : EPOLL_CTL_ADD ≠ EPOLL_CTL_DEL ∧ EPOLL_CTL_MOD ≠ EPOLL_CTL_DEL := by decide
  simp only [ControlCall.control, epollTssxControlOperation, Registry.control]
  by_cases hadd : operation = EPOLL_CTL_ADD
  · subst hadd
    have hm := hv.add rfl
    obtain ⟨epoll', hc, hh, heffect⟩ := add_refines h hm event connection
    refine ⟨SUCCESS, epoll', hc, hh, by simp, fun _ => heffect, fun he => absurd he hmod',
      fun he => absurd he hdel'.1, ?_⟩
    exact fun _ entry he hfd => enabled_entry (enabled_of_add (h.not_mem hm) heffect entry he hfd)
  · rw [if_neg hadd, if_neg hadd]
    by_cases hmod : operation = EPOLL_CTL_MOD
    · subst hmod
      obtain ⟨epoll', old, connection', hc, hl, hh, heffect⟩ :=
        update_refines h (hv.modify rfl) event
      rw [if_pos rfl, if_pos rfl, hl]
      refine ⟨SUCCESS, epoll', hc, hh, by simp, fun he => absurd he hadd, fun _ => heffect,
        fun he => absurd he hdel'.2, ?_⟩
      exact fun _ entry he hfd => enabled_entry (enabled_of_modify heffect entry he hfd)
    · rw [if_neg hmod, if_neg hmod]
      have hneither : ¬ (operation = EPOLL_CTL_ADD ∨ operation = EPOLL_CTL_MOD) :=
        not_or.mpr ⟨hadd, hmod⟩
      by_cases hdel : operation = EPOLL_CTL_DEL
      · subst hdel
        obtain ⟨epoll', hc, hh, heffect⟩ := erase_refines h (hv.erase rfl)
        exact ⟨SUCCESS, epoll', hc, hh, by simp, fun he => absurd he hadd,
          fun he => absurd he hmod, fun _ => heffect, fun he => absurd he hneither⟩
      · rw [if_neg hdel, if_neg hdel]
        exact ⟨ERROR, epoll, rfl, h, by simp [hadd, hmod, hdel], fun he => absurd he hadd,
          fun he => absurd he hmod, fun he => absurd he hdel, fun he => absurd he hneither⟩

theorem registration_step {a : RegistrationAction} (h : HoldsOnce epoll registry)
    (ha : registry.Allows a) :
    ∃ epoll', registrationStep epoll a = some epoll' ∧ HoldsOnce epoll' (registry.act a) := by
  cases a with
  | control call =>
    obtain ⟨code, epoll', hc, hh, -⟩ := control_refines h ha
    exact ⟨epoll', by rw [registrationStep, hc]; rfl, hh⟩
  | wait flags => exact ⟨epoll.reflag flags, rfl, h.reflag flags⟩

/-! ### Sequences of calls -/

/-- **The instance represents the map after every sequence of valid calls**, with any waits in
between, and a further valid call is answered as it should be. -/
theorem registration_refines (actions : List RegistrationAction)
    (hvalid : Registry.AllValid actions) :
    ∃ epoll, Run.run registrationStep .zero actions = some epoll ∧
      RepresentsRegistry epoll (actions.foldl Registry.act ∅) ∧
      ∀ call, (actions.foldl Registry.act ∅).Valid call →
        ∃ code epoll', call.control epoll = some (code, epoll') ∧
          ControlEffect epoll call code epoll' := by
  have hzero : HoldsOnce .zero ∅ := ⟨[], .zero, List.nodup_nil, rfl⟩
  obtain ⟨epoll, hrun, hh⟩ := Run.foldl_of_spec (fun _ _ _ => registration_step) hzero hvalid
  refine ⟨epoll, hrun, hh.represents, fun call hv => ?_⟩
  obtain ⟨code, epoll', hc, -, heffect⟩ := control_refines hh hv
  exact ⟨code, epoll', hc, heffect⟩

private def onReadable (operation fd : Int) : RegistrationAction :=
  .control ⟨operation, fd, { events := EPOLLIN, data := 0 }, fd.toNat⟩

/-- Three descriptors are added, waits disable the entries and set their edges, the second one is
modified and the first deleted. -/
private def registrations : List RegistrationAction :=
  [3, 4, 5].map (onReadable EPOLL_CTL_ADD) ++ [.wait fun _ => READ_EDGE,
    onReadable EPOLL_CTL_MOD 4, onReadable EPOLL_CTL_DEL 3]

theorem registration_refines_at :
    ∃ epoll, Run.run registrationStep .zero registrations = some epoll ∧
      RepresentsRegistry epoll (registrations.foldl Registry.act ∅) ∧
      ∃ code epoll', ControlCall.control
          ⟨EPOLL_CTL_MOD, 5, { events := EPOLLOUT, data := 0 }, 5⟩ epoll = some (code, epoll') ∧
        ControlEffect epoll ⟨EPOLL_CTL_MOD, 5, { events := EPOLLOUT, data := 0 }, 5⟩
          code epoll' := by
  obtain ⟨epoll, hrun, hrepresents, hcalls⟩ := registration_refines registrations (by decide)
  exact ⟨epoll, hrun, hrepresents, hcalls _ (by decide)⟩

end Tssx
