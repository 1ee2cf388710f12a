import Tssx.Handshake

/-!
# The steps of a set-up with their results

`AcceptStep` and `ConnectStep` list every step of `accept` and of `connect` together with the state
after it, the failures each on their own.
-/

namespace Tssx

/-- A step of `accept`. -/
inductive AcceptStep (s : Handshake) : HandshakeAction → Handshake → Prop
  | refused (hpc : s.server = .accept) :
      AcceptStep s (.accept none) { s with server := .returned ERROR }
  | accepted {fd : Int} (hpc : s.server = .accept) (hfd : 0 ≤ fd ∧ s.descriptors fd = false) :
      AcceptStep s (.accept (some fd)) { s with
        server := .usage
        fd := Function.update s.fd .server fd
        descriptors := Function.update s.descriptors fd true }
  | usage {answer : Int} (hpc : s.server = .usage) :
      AcceptStep s (.usage .server answer) { s with
        server :=
          if answer = ERROR then .returned ERROR
          else if answer = 0 then .returned (s.fd .server) else .options }
  | options {bridge : Bridge} {session : Session} (hpc : s.server = .options)
      (hs : bridgeLookup (s.bridge .server) (s.fd .server) = some (bridge, session)) :
      AcceptStep s (.options .server) { s.setBridge .server bridge with server := .create }
  | created {id : Nat} (hpc : s.server = .create) (hid : s.segments id = none ∧ id < 2 ^ 31) :
      AcceptStep s (.create true id)
        { s.setSegment id createConnection with server := .send id, created := some id }
  | notCreated {id : Nat} (hpc : s.server = .create) :
      AcceptStep s (.create false id) { s with server := .returned ERROR }
  | sent {id n : Nat} (hpc : s.server = .send id) (hn : 1 ≤ n) (hle : n ≤ 4)
      (hopen : s.closed .server = false) :
      AcceptStep s (.send (.count n)) { s with
        stream := Function.update s.stream .client (s.stream .client ++ (intBytes id).take n)
        server := .synchronize id }
  | notSent {id : Nat} {segment segment' : Segment} (hpc : s.server = .send id)
      (hid : s.segments id = some segment) (hs : disconnect segment = some segment') :
      AcceptStep s (.send .error) { s.setSegment id segment' with server := .returned ERROR }
  | synchronized {id n : Nat} (hpc : s.server = .synchronize id) (hle : n ≤ 1)
      (hlen : n ≤ (s.stream .server).length)
      (hend : n = 0 → s.stream .server = [] ∧ s.closed .client = true) :
      AcceptStep s (.synchronize (.count n)) { s with
        stream := Function.update s.stream .server ((s.stream .server).drop n)
        consumed := Function.update s.consumed .server (s.consumed .server + n)
        server := .insert id }
  | notSynchronized {id : Nat} (hpc : s.server = .synchronize id) :
      AcceptStep s (.synchronize .error) { s with server := .returned ERROR }
  | insert {id : Nat} {bridge : Bridge} (hpc : s.server = .insert id)
      (hs : bridgeInsert (s.bridge .server) (s.fd .server) { connection := some id } =
        some bridge) :
      AcceptStep s (.insert .server)
        { s.setBridge .server bridge with server := .returned (s.fd .server) }

/-- A step of `connect`. -/
inductive ConnectStep (s : Handshake) : HandshakeAction → Handshake → Prop
  | connect {succeeds : Bool} (hpc : s.client = .connect) :
      ConnectStep s (.connect succeeds)
        { s with client := if succeeds then .usage else .returned ERROR }
  | usage {answer : Int} (hpc : s.client = .usage) :
      ConnectStep s (.usage .client answer) { s with
        client :=
          if answer = ERROR then .returned ERROR
          else if answer = 0 then .returned SUCCESS else .options }
  | options {bridge : Bridge} {session : Session} (hpc : s.client = .options)
      (hs : bridgeLookup (s.bridge .client) (s.fd .client) = some (bridge, session)) :
      ConnectStep s (.options .client) { s.setBridge .client bridge with client := .receive }
  | received {n : Nat} {garbage : List UInt8} {i : Int} (hpc : s.client = .receive) (hle : n ≤ 4)
      (hlen : n ≤ (s.stream .client).length)
      (hend : n = 0 → s.stream .client = [] ∧ s.closed .server = true)
      (hi : i = intOfBytes ((s.stream .client).take n ++ garbage.drop n)) :
      ConnectStep s (.receive (.count n) garbage) { s with
        stream := Function.update s.stream .client ((s.stream .client).drop n)
        consumed := Function.update s.consumed .client (s.consumed .client + n)
        client := if i = ERROR then .returned ERROR else .attach i }
  | notReceived {garbage : List UInt8} (hpc : s.client = .receive) :
      ConnectStep s (.receive .error garbage) { s with client := .returned ERROR }
  | attached {i : Int} {segment : Segment} (hpc : s.client = .attach i)
      (hs : s.attachable i = some segment) :
      ConnectStep s (.attach true)
        { s.setSegment i.toNat (setupConnection segment) with client := .acknowledge i.toNat }
  | exited {i : Int} (hpc : s.client = .attach i) (hs : s.attachable i = none) :
      ConnectStep s (.attach true) { s with client := .exited }
  | notAttached {i : Int} (hpc : s.client = .attach i) :
      ConnectStep s (.attach false) { s with client := .returned ERROR }
  | acknowledged {id n : Nat} (hpc : s.client = .acknowledge id) (hn : 1 ≤ n) (hle : n ≤ 1)
      (hopen : s.closed .client = false) :
      ConnectStep s (.acknowledge (.count n)) { s with
        stream := Function.update s.stream .server (s.stream .server ++ syncMessage.take n)
        client := .insert id }
  | notAcknowledged {id : Nat} (hpc : s.client = .acknowledge id) :
      ConnectStep s (.acknowledge .error) { s with client := .returned ERROR }
  | insert {id : Nat} {bridge : Bridge} (hpc : s.client = .insert id)
      (hs : bridgeInsert (s.bridge .client) (s.fd .client) { connection := some id } =
        some bridge) :
      ConnectStep s (.insert .client)
        { s.setBridge .client bridge with client := .returned SUCCESS }

section Steps

variable {s t : Handshake} {a : HandshakeAction}

theorem acceptStep (hs : serverStep s a = some t) : AcceptStep s a t := by
  cases serverStep_move hs with
  | @accept result _ hpc h =>
    cases result with
    | none =>
      obtain rfl := Option.some.inj h
      exact .refused hpc
    | some fd =>
      simp only [accept] at h
      split at h
      · obtain rfl := Option.some.inj h
        exact .accepted hpc ‹_›
      · cases h
  | usage hpc => exact .usage hpc
  | options hpc h => exact .options hpc h
  | @create allocated _ _ hpc h =>
    cases allocated with
    | true =>
      simp only [createSegment, if_true] at h
      split at h
      · obtain rfl := Option.some.inj h
        exact .created hpc ‹_›
      · cases h
    | false =>
      obtain rfl := Option.some.inj h
      exact .notCreated hpc
  | @send _ io _ hpc h =>
    cases io with
    | error =>
      obtain ⟨segment, hid, h⟩ := Option.bind_eq_some_iff.mp h
      obtain ⟨segment', hd, rfl⟩ := Option.map_eq_some_iff.mp h
      exact .notSent hpc hid hd
    | count n =>
      obtain ⟨u, hw, rfl⟩ := Option.map_eq_some_iff.mp h
      obtain ⟨hn, hle, hopen, rfl⟩ := Handshake.write_eq hw
      rw [length_intBytes] at hle
      exact .sent hpc hn hle hopen
  | @synchronize _ io _ hpc h =>
    cases io with
    | error =>
      obtain rfl := Option.some.inj h
      exact .notSynchronized hpc
    | count n =>
      obtain ⟨⟨u, bytes⟩, hr, rfl⟩ := Option.map_eq_some_iff.mp h
      obtain ⟨hle, hlen, hend, -, rfl⟩ := Handshake.read_eq hr
      exact .synchronized hpc hle hlen hend
  | insert hpc h => exact .insert hpc h

theorem connectStep (hs : clientStep s a = some t) : ConnectStep s a t := by
  cases clientStep_move hs with
  | connect hpc => exact .connect hpc
  | usage hpc => exact .usage hpc
  | options hpc h => exact .options hpc h
  | @receive io _ _ hpc h =>
    cases io with
    | error =>
      obtain rfl := Option.some.inj h
      exact .notReceived hpc
    | count n =>
      simp only [readSegmentIdFromServer] at h
      split at h
      · obtain ⟨⟨u, bytes⟩, hr, rfl⟩ := Option.map_eq_some_iff.mp h
        obtain ⟨hle, hlen, hend, rfl, rfl⟩ := Handshake.read_eq hr
        exact .received hpc hle hlen hend rfl
      · cases h
  | @attach allocated i hpc =>
    cases allocated with
    | true =>
      cases hfound : s.attachable i with
      | some segment =>
        simp only [attachSegment, if_true, hfound]
        exact .attached hpc hfound
      | none =>
        simp only [attachSegment, if_true, hfound]
        exact .exited hpc hfound
    | false => exact .notAttached hpc
  | @acknowledge _ io _ hpc h =>
    cases io with
    | error =>
      obtain rfl := Option.some.inj h
      exact .notAcknowledged hpc
    | count n =>
      obtain ⟨u, hw, rfl⟩ := Option.map_eq_some_iff.mp h
      obtain ⟨hn, hle, hopen, rfl⟩ := Handshake.write_eq hw
      exact .acknowledged hpc hn hle hopen
  | insert hpc h => exact .insert hpc h

end Steps

end Tssx
