import Tssx.Bridge.Bookkeeping
import Tssx.Lib.Merge
import Tssx.Poll.Partition
import Tssx.Vector.Contents

/-!
# The array of `poll`

The array is split in two and merged again.  `tssxEntries` and `normalEntries` are its two parts,
and `partition_splits` says that the vectors of `_partition` hold them.  What the TSSX entries are
changed to is stored through the pointers (`store_pointers`), and the results of the others go
back by position (`joinPollPartition_eq`).
-/

namespace Tssx

/-- The descriptor has a connection. -/
def isTssx (bridge : Bridge) (poll : PollFd) : Bool := (bridge.connection poll.fd).isSome

/-- `fd` and `events` are the same. -/
def SameRequest (poll poll' : PollFd) : Prop := poll'.fd = poll.fd ∧ poll'.events = poll.events

def PollFd.cleared (poll : PollFd) : PollFd := { poll with revents := 0 }

/-- The pointers to the TSSX descriptors of the array, of which `fds` begins at `index`. -/
def tssxPointers (bridge : Bridge) (index : Nat) (fds : List PollFd) : List PollPointer :=
  (fds.zipIdx index).filterMap fun (poll, pollPointer) =>
    (bridge.connection poll.fd).map fun connection => { connection, pollPointer }

def tssxEntries (bridge : Bridge) (fds : List PollFd) : List PollEntry :=
  fds.filterMap fun poll =>
    (bridge.connection poll.fd).map fun connection => { connection, poll := poll.cleared }

def normalEntries (bridge : Bridge) (fds : List PollFd) : List PollFd :=
  (fds.filter fun poll => !isTssx bridge poll).map PollFd.cleared

variable {bridge bridge' : Bridge} {fds : List PollFd} {polls : List PollFd} {poll : PollFd}

theorem tssxEntries_polls (bridge : Bridge) (fds : List PollFd) :
    (tssxEntries bridge fds).map PollEntry.poll =
      (fds.filter (isTssx bridge)).map PollFd.cleared := by
  induction fds with
  | nil => rfl
  | cons poll fds ih =>
    unfold tssxEntries at ih ⊢
    cases hc : bridge.connection poll.fd <;> simp [isTssx, hc, ih]

/-- The array and the two vectors after the descriptors `fds`. -/
structure Partition.Splits (partition : Partition) (bridge : Bridge) (fds : List PollFd) :
    Prop where
  array : partition.fds = fds.map PollFd.cleared
  tssxFds : partition.tssxFds.Holds (tssxPointers bridge 0 fds)
  normalFds : partition.normalFds.Holds (normalEntries bridge fds)
  setUp : partition.bridge.SetUp
  table : partition.bridge.sessionTable = bridge.sessionTable

/-- A descriptor that `poll` takes. -/
def PollFd.InTable (poll : PollFd) : Prop := 0 < poll.fd ∧ poll.fd < SESSION_TABLE_SIZE

instance PollFd.decidableInTable (poll : PollFd) : Decidable poll.InTable :=
  inferInstanceAs (Decidable (_ ∧ _))

theorem connection_congr (h : bridge'.sessionTable = bridge.sessionTable) (fd : Int) :
    bridge'.connection fd = bridge.connection fd := by
  rw [Bridge.connection, Bridge.connection, h]

theorem bridgeLookup_inTable (hb : bridge.SetUp) (hp : poll.InTable) :
    ∃ bridge' session, bridgeLookup bridge poll.fd = some (bridge', session) ∧ bridge'.SetUp ∧
      bridge'.sessionTable = bridge.sessionTable ∧
      session.connection = bridge.connection poll.fd := by
  obtain ⟨bridge', hset, htable, hl⟩ := bridgeLookup_eq hb
  have hlt : sizeT poll.fd < bridge.sessionTable.sessions.length := by
    obtain ⟨hpos, hmax⟩ := hp
    rw [bridge.sessionTable.size]
    unfold sizeT
    omega
  refine ⟨bridge', bridge.sessionTable.sessions[sizeT poll.fd], ?_, hset, htable, ?_⟩
  · rw [hl, List.getElem?_eq_getElem hlt]
    rfl
  · rw [Bridge.connection, List.getElem?_eq_getElem hlt, Option.bind_some]

namespace Partition.Splits

variable {partition : Partition}

theorem one (h : partition.Splits bridge fds) (hp : poll.InTable) :
    ∃ partition', partitionOne true partition poll = some partition' ∧
      partition'.Splits bridge (fds ++ [poll]) := by
  obtain ⟨bridge', session, hlookup, hset, htable, hc⟩ := bridgeLookup_inTable h.setUp hp
  rw [connection_congr h.table] at hc
  have hlen : partition.fds.length = fds.length := by rw [h.array, List.length_map]
  rw [partitionOne, if_neg (by have := hp.1; omega)]
  dsimp only
  rw [hlookup, Option.bind_some]
  dsimp only
  rw [hc]
  cases hconn : bridge.connection poll.fd with
  | some connection =>
    obtain ⟨code, tssxFds, hpush, ⟨-, hholds⟩ | ⟨ha, -⟩⟩ :=
      h.tssxFds.pushBack { connection, pollPointer := partition.fds.length } true
    · dsimp only
      rw [hpush, Option.map_some]
      refine ⟨_, rfl, ⟨by simp [h.array, PollFd.cleared], ?_, ?_, hset, htable.trans h.table⟩⟩
      · simpa [tssxPointers, List.zipIdx_append, hconn, hlen] using hholds
      · simpa [normalEntries, isTssx, hconn] using h.normalFds
    · cases ha
  | none =>
    obtain ⟨code, normalFds, hpush, ⟨-, hholds⟩ | ⟨ha, -⟩⟩ :=
      h.normalFds.pushBack poll.cleared true
    · dsimp only
      rw [show ({ poll with revents := 0 } : PollFd) = poll.cleared from rfl, hpush,
        Option.map_some]
      refine ⟨_, rfl, ⟨by simp [h.array], ?_, ?_, hset, htable.trans h.table⟩⟩
      · simpa [tssxPointers, List.zipIdx_append, hconn] using h.tssxFds
      · simpa [normalEntries, isTssx, hconn] using hholds
    · cases ha

theorem loop {growth : Nat → Bool} (h : partition.Splits bridge fds)
    (hg : ∀ i, growth i = true) (hp : ∀ poll ∈ polls, poll.InTable) :
    ∃ partition', partitionLoop growth partition polls = some partition' ∧
      partition'.Splits bridge (fds ++ polls) := by
  induction polls generalizing partition fds with
  | nil => exact ⟨partition, rfl, by rwa [List.append_nil]⟩
  | cons poll polls ih =>
    obtain ⟨hpoll, hrest⟩ := List.forall_mem_cons.mp hp
    obtain ⟨next, hone, hnext⟩ := h.one hpoll
    obtain ⟨last, hloop, hlast⟩ := ih hnext hrest
    refine ⟨last, ?_, ?_⟩
    · rw [partitionLoop, hg, hone, Option.bind_some, hloop]
    · rwa [List.append_assoc] at hlast

end Partition.Splits

/-- **`_partition`** splits the array. -/
theorem partition_splits {allocations : PollAllocations} (hb : bridge.SetUp)
    (ht : allocations.tssxFds = true) (hn : allocations.normalFds = true)
    (hg : ∀ i, allocations.growth i = true) (hp : ∀ poll ∈ fds, poll.InTable) :
    ∃ partition', partition allocations bridge fds = some (SUCCESS, partition') ∧
      partition'.Splits bridge fds := by
  obtain ⟨htssx, hholds⟩ := @Vector.Holds.setup PollPointer 16 16 (by decide)
  obtain ⟨hnormal, hholds'⟩ := @Vector.Holds.setup PollFd 16 8 (by decide)
  have hstart : (Partition.mk [] (vectorSetup true 16 16).2 (vectorSetup true 16 8).2 bridge).Splits
      bridge [] := ⟨rfl, hholds, hholds', hb, rfl⟩
  obtain ⟨partition', hloop, hsplits⟩ := hstart.loop hg hp
  refine ⟨partition', ?_, hsplits⟩
  rw [partition, ht, hn]
  simp only [htssx, hnormal]
  rw [if_neg (by decide), if_neg (by decide), hloop]
  rfl

/-! ### The array and the entries -/

/-- **The pointers point to the TSSX entries.** -/
theorem load_pointers (bridge : Bridge) (done fds : List PollFd) :
    loadEntries (done ++ fds.map PollFd.cleared) (tssxPointers bridge done.length fds) =
      some (tssxEntries bridge fds) := by
  induction fds generalizing done with
  | nil => rfl
  | cons poll fds ih =>
    have hrest := ih (done ++ [poll.cleared])
    rw [List.length_append, List.length_singleton, List.append_assoc, List.singleton_append]
      at hrest
    unfold tssxPointers tssxEntries loadEntries at hrest ⊢
    rw [List.map_cons, List.zipIdx_cons]
    cases hc : bridge.connection poll.fd with
    | none => simpa [hc] using hrest
    | some connection => simp [hc, hrest]

/-- **What is stored through the pointers** replaces the TSSX entries. -/
theorem store_pointers {ys zs : List PollFd} {entries : List PollEntry} (done : List PollFd)
    (h : Merge.Fits (isTssx bridge) fds ys zs)
    (h' : Merge.Fits (isTssx bridge) fds (entries.map PollEntry.poll) zs) :
    storeEntries (done ++ Merge.merge (isTssx bridge) fds ys zs)
        (tssxPointers bridge done.length fds) entries =
      done ++ Merge.merge (isTssx bridge) fds (entries.map PollEntry.poll) zs := by
  induction fds generalizing done ys zs entries with
  | nil => cases entries <;> rfl
  | cons poll fds ih =>
    unfold tssxPointers
    rw [List.zipIdx_cons, List.filterMap_cons]
    cases hc : bridge.connection poll.fd with
    | none =>
      have hp : isTssx bridge poll = false := by rw [isTssx, hc]; rfl
      obtain ⟨z, zs, rfl, hfits⟩ := h.of_neg hp
      obtain ⟨z', zs', heq, hfits'⟩ := h'.of_neg hp
      obtain ⟨rfl, rfl⟩ := List.cons.inj heq
      have hrest := ih (done ++ [z]) hfits hfits'
      rw [List.length_append, List.length_singleton] at hrest
      rw [Merge.merge_right hp, Merge.merge_right hp]
      simpa [tssxPointers, hc] using hrest
    | some connection =>
      have hp : isTssx bridge poll = true := by rw [isTssx, hc]; rfl
      obtain ⟨y, ys, rfl, hfits⟩ := h.of_pos hp
      obtain ⟨y', ys', heq, hfits'⟩ := h'.of_pos hp
      obtain ⟨entry, entries, rfl, rfl, rfl⟩ := List.map_eq_cons_iff.mp heq
      have hrest := ih (done ++ [entry.poll]) hfits hfits'
      rw [List.length_append, List.length_singleton] at hrest
      rw [Merge.merge_left hp, List.map_cons, Merge.merge_left hp]
      simpa [tssxPointers, hc, storeEntries] using hrest

/-- **The join** puts the results of the normal entries in their places, and its assertion never
fails. -/
theorem joinPollPartition_eq {normalFds : Vector PollFd} {done ys zs zs' : List PollFd}
    (hb : bridge'.SetUp) (htable : bridge'.sessionTable = bridge.sessionTable)
    (hp : ∀ poll ∈ fds, poll.InTable)
    (hy : List.Forall₂ SameRequest (fds.filter (isTssx bridge)) ys)
    (hz : List.Forall₂ SameRequest (fds.filter fun poll => !isTssx bridge poll) zs)
    (hz' : List.Forall₂ SameRequest (fds.filter fun poll => !isTssx bridge poll) zs')
    (hv : normalFds.Holds (done ++ zs')) :
    joinPollPartition normalFds bridge' done.length (Merge.merge (isTssx bridge) fds ys zs) =
      some (Merge.merge (isTssx bridge) fds ys zs') := by
  induction fds generalizing bridge' done ys zs zs' with
  | nil => rfl
  | cons poll fds ih =>
    obtain ⟨hpoll, hrest⟩ := List.forall_mem_cons.mp hp
    have hlookup : ∀ {poll' : PollFd}, SameRequest poll poll' →
        ∃ bridge'' session, bridgeLookup bridge' poll'.fd = some (bridge'', session) ∧
          bridge''.SetUp ∧ bridge''.sessionTable = bridge.sessionTable ∧
          sessionHasConnection session = isTssx bridge poll := by
      rintro poll' ⟨hfd, -⟩
      obtain ⟨bridge'', session, hl, hset, ht, hc⟩ := bridgeLookup_inTable hb hpoll
      refine ⟨bridge'', session, by rw [hfd, hl], hset, ht.trans htable, ?_⟩
      rw [sessionHasConnection, hc, connection_congr htable, isTssx]
    cases hkind : isTssx bridge poll with
    | true =>
      rw [List.filter_cons_of_pos hkind] at hy
      rw [List.filter_cons_of_neg (by simp [hkind])] at hz hz'
      obtain ⟨y, ys, hsame, hys, rfl⟩ := List.forall₂_cons_left_iff.mp hy
      obtain ⟨bridge'', session, hl, hset, ht, hs⟩ := hlookup hsame
      rw [Merge.merge_left hkind, Merge.merge_left hkind, joinPollPartition, hl, Option.bind_some]
      simp only [hs, hkind, if_true, ih hset ht hrest hys hz hz' hv, Option.map_some]
    | false =>
      rw [List.filter_cons_of_neg (by simp [hkind])] at hy
      rw [List.filter_cons_of_pos (by simp [hkind])] at hz hz'
      obtain ⟨z, zs, hsame, hzs, rfl⟩ := List.forall₂_cons_left_iff.mp hz
      obtain ⟨z', zs', hsame', hzs', rfl⟩ := List.forall₂_cons_left_iff.mp hz'
      obtain ⟨bridge'', session, hl, hset, ht, hs⟩ := hlookup hsame
      have hget : vectorGet normalFds done.length = some (some z') := hv.get (by simp)
      have hv' : normalFds.Holds ((done ++ [z']) ++ zs') := by simpa using hv
      have hnext := ih hset ht hrest hy hzs hzs' hv'
      rw [List.length_append, List.length_singleton] at hnext
      have hentry : ({ z with revents := z'.revents } : PollFd) = z' := by
        obtain ⟨hfd, hevents⟩ := hsame
        obtain ⟨hfd', hevents'⟩ := hsame'
        cases z
        cases z'
        simp_all
      rw [Merge.merge_right hkind, Merge.merge_right hkind, joinPollPartition, hl,
        Option.bind_some]
      simp only [hs, hkind, Bool.false_eq_true, if_false, hget, Option.join_some, Option.bind_some]
      rw [if_pos (hsame'.1.trans hsame.1.symm), hnext, Option.map_some, hentry]

end Tssx
