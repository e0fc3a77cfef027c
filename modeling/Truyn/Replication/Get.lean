import Truyn.Dht.Isolation
import Truyn.Schemes.Frontier
import Truyn.Sdk.QuicDht

/-! replication:get | a read of the DHT: walk, then ask the nearest peers, a batch at a time

    `DhtReplicationManager.get` gives what is in the local store, or asks peers until one of a batch
    has answered with a record that verifies. Peers answer as they like; an answer has records and
    further contacts. The local store gives records of the namespace and key that it is asked for;
    nobody looks at the namespace and key of the records that come from peers. -/

namespace Truyn.Replication.Reads
open Trust (Value)
open Dht (Platform verifyDhtRecord Closer)
open Discovery (Peers Config verifyPeerRecord nodeIdOf contact hasEndpoints)
open Frontiers (Frontier)

/-- What `get` is called with, and what it reads of its manager: `alpha` is `none` if it is no number,
    `fanout` if it is not whole, and `lookupRounds` if there are none; `some none` are not whole. -/
structure Options where
  nameSpace : JsString
  key : JsString
  replicationFactor : ℕ
  fanout : Option ℤ
  lookupRounds : Option (Option ℤ)
  alpha : Option ℤ
  /-- The client ingests the peer records of an answer. -/
  ingests : Bool

namespace Options

variable (o : Options)

/-- `none` is thrown. -/
def normalizedRounds : Option ℕ :=
  match o.lookupRounds with
  | none => some 4
  | some none => none
  | some (some parsed) => if 0 ≤ parsed ∧ parsed ≤ 64 then some parsed.toNat else none

def normalizedFanout : ℕ :=
  max o.replicationFactor (min 64 (o.fanout.getD (o.replicationFactor + 4))).toNat

def batchSize : ℕ :=
  let alpha := o.alpha.getD 0
  (max 1 (min 8 (if alpha = 0 then 3 else alpha))).toNat

def iterativeQueryBudget : ℕ :=
  max o.normalizedFanout (min 64 (o.normalizedFanout + o.normalizedRounds.getD 0 * o.batchSize))

def target : JsString := o.nameSpace ++ js ":" ++ o.key

end Options

/-- A record of an answer, and when it is checked by the client, by `get` and by the store. -/
structure Told where
  record : Value
  checked : ℤ
  again : ℤ
  stored : ℤ

/-- A peer record of an answer. -/
structure Hint where
  record : Value
  checked : ℤ
  ingested : ℤ
  seenAt : JsString

/-- What a peer does with a request; also `error` where the answer is none. -/
inductive Answer
  | error (reason : JsString)
  | response (records : List Told) (hints : List Hint)

/-- What the client makes of it. -/
inductive Reply
  | failed (reason : JsString)
  | answered (records : List Told) (hints : List Dht.Peer)

structure Flight where
  peer : Dht.Peer
  reply : Option Reply

/-- What `expandKeyspace` gives. -/
structure Lookup where
  attempted : Bool
  queried : List JsString
  rounds : ℕ
  responses : ℕ
  error : Option JsString

structure Telemetry where
  localRecordCount : ℕ
  lookupAttempted : Bool
  lookupRounds : ℕ
  lookupQueriedPeers : ℕ
  seedPeerCount : ℕ
  iterativeQueryBudget : ℕ
  iterativeQueries : ℕ
  iterativeResponses : ℕ
  frontierHintsAccepted : ℕ
  foundAtNodeIds : List JsString

structure Result where
  records : List Value
  failures : List (JsString × JsString)
  lookup : Lookup
  readTelemetry : Telemetry

inductive Phase
  | looking
  | asking (batch : List Flight)
  | returned (result : Result)
  | threw (message : JsString)

/-- A call of `get` with the node's records; `received` are the records of answers that verified. -/
structure Read where
  peers : Peers
  store : Dht.Store
  phase : Phase
  lookup : Lookup
  frontier : Frontier Dht.Peer JsString
  seedPeerCount : ℕ
  byId : List (JsString × Value)
  received : List Value
  failures : List (JsString × JsString)
  foundAtNodeIds : List JsString
  iterativeQueries : ℕ
  iterativeResponses : ℕ
  frontierHintsAccepted : ℕ

/-- `stored` and `elsewhere` are other uses of the node's records. -/
inductive Event
  | walked (lookup : Lookup) (now : ℤ)
  | answer (call : ℕ) (answer : Answer)
  | settled
  | stored (call : Dht.Store.Call)
  | elsewhere (call : Discovery.Call)

def roundsError : JsString := js "lookupRounds must be between 0 and 64"

/-- Comparing values of any type may throw. -/
def typeError : JsString := js "Cannot convert object to primitive value"

/-- The id of a record that was verified. -/
def idOf (record : Value) : JsString :=
  match record.get "recordId" with
  | some (.string recordId) => recordId
  | _ => []

/-! ### The client -/

variable (P : Platform) (c : Config) (o : Options)

/-- The records of an answer that verify. -/
def verifiedRecords : List JsString → List Told → List JsString × List Told
  | verified, [] => (verified, [])
  | verified, t :: records =>
    match verifyDhtRecord P verified t.record t.checked false with
    | (verified, .ok ()) =>
      let (verified, records) := verifiedRecords verified records
      (verified, t :: records)
    | (verified, .error _) => verifiedRecords verified records

/-- The contacts of an answer that verify; `none` is thrown. -/
def verifiedHints : Peers → List Hint → Peers × Option (List Dht.Peer)
  | peers, [] => (peers, some [])
  | peers, h :: hints =>
    match verifyPeerRecord P peers.signatures h.record h.checked false with
    | .error _ => verifiedHints peers hints
    | .ok signatures =>
      let peers := { peers with signatures := signatures }
      let (peers, outcome) :=
        if o.ingests then peers.ingest P c h.record h.ingested false h.seenAt
        else (peers, .accepted false false false)
      match outcome with
      | .threw => (peers, none)
      | _ =>
        let (peers, contacts) := verifiedHints peers hints
        (peers, contacts.map (contact h.record [] :: ·))

def Verified (v : Value) : Prop := ∃ signatures now, Dht.Verifies P signatures v now false

namespace Read

variable (s : Read)

/-- `QuicDiscoveryRpc.findValue`, once the peer has answered. -/
def findValue : Answer → Read × Reply
  | .error reason => (s, .failed reason)
  | .response records hints =>
    let (signatures, records) := verifiedRecords P s.store.signatures records
    let (peers, contacts) := verifiedHints P c o s.peers hints
    ({ s with store := { s.store with signatures := signatures }, peers := peers },
      match contacts with
      | some contacts => .answered records contacts
      | none => .failed typeError)

/-! ### The peers to ask -/

/-- `uniquePeers`, after those that were seen. -/
def uniquePeers : List JsString → List Dht.Peer → List Dht.Peer
  | _, [] => []
  | seen, peer :: peers =>
    if peer.nodeId = [] ∨ peer.nodeId ∈ seen then uniquePeers seen peers
    else peer :: uniquePeers (seen ++ [peer.nodeId]) peers

def peerFromNodeId (nodeId : JsString) (now : ℤ) : Option Dht.Peer :=
  if nodeId = [] ∨ nodeId = c.localNodeId then none
  else
    match (s.peers.get P nodeId now).or (Maps.get s.peers.records nodeId) with
    | some record => if nodeIdOf record ≠ [] ∧ hasEndpoints record then some (contact record []) else none
    | none => none

def candidates (count : ℕ) : List Dht.Peer :=
  uniquePeers [] (s.peers.routing.closest P.toHost o.target (max count o.replicationFactor : ℕ))

/-! ### What the answers give -/

/-- The records of one answer: whether there is one; `none` is thrown. -/
def takeRecords (s : Read) : List Told → Read × Option Bool
  | [] => (s, some false)
  | t :: records =>
    match verifyDhtRecord P s.store.signatures t.record t.again false with
    | (signatures, .error _) =>
      takeRecords { s with store := { s.store with signatures := signatures } } records
    | (signatures, .ok ()) =>
      let (store, put) := ({ s.store with signatures := signatures } : Dht.Store).put P t.record
        t.stored false
      let s := { s with
        store := store
        byId := Maps.set (idOf t.record) t.record s.byId
        received := s.received ++ [t.record] }
      match put with
      | .threw => (s, none)
      | _ =>
        let (s, found) := takeRecords s records
        (s, found.map fun _ => true)

def takeHints (s : Read) : List Dht.Peer → Read
  | [] => s
  | hint :: hints =>
    match if hint.nodeId = [] then none else s.frontier.offer Dht.Peer.nodeId hint with
    | none => takeHints s hints
    | some frontier => takeHints { s with
        frontier := frontier, frontierHintsAccepted := s.frontierHintsAccepted + 1 } hints

/-- The loop over a batch that has settled. `true` is thrown. -/
def gather (s : Read) : List (Dht.Peer × Reply) → Read × Bool
  | [] => (s, false)
  | (peer, .failed reason) :: batch =>
    gather { s with failures := s.failures ++ [(peer.nodeId, reason)] } batch
  | (peer, .answered records hints) :: batch =>
    match takeRecords P { s with iterativeResponses := s.iterativeResponses + 1 } records with
    | (s, none) => (s, true)
    | (s, some found) =>
      let s := if found then { s with foundAtNodeIds := s.foundAtNodeIds ++ [peer.nodeId] } else s
      gather (s.takeHints hints) batch

/-! ### Rounds -/

def readTelemetry : Telemetry where
  localRecordCount := 0
  lookupAttempted := s.lookup.attempted
  lookupRounds := s.lookup.rounds
  lookupQueriedPeers := s.lookup.queried.length
  seedPeerCount := s.seedPeerCount
  iterativeQueryBudget := o.iterativeQueryBudget
  iterativeQueries := s.iterativeQueries
  iterativeResponses := s.iterativeResponses
  frontierHintsAccepted := s.frontierHintsAccepted
  foundAtNodeIds := s.foundAtNodeIds

/-- The end of `get`. The comparison of two records needs the sequence of each as a number. -/
def finish : Read :=
  let found := s.byId.map Prod.snd
  if 2 ≤ found.length ∧ found.any fun v => (Dht.operand P.toLanguage (v.get "sequence")).isNone then
    { s with phase := .threw typeError }
  else
    let records := found.insertionSort (Dht.Earlier P)
    { s with phase := .returned ⟨records, s.failures, s.lookup, s.readTelemetry o⟩ }

/-- One round of the loop, up to the requests. -/
def round : Read :=
  if s.frontier.pending = [] ∨ o.iterativeQueryBudget ≤ s.iterativeQueries ∨ s.byId ≠ [] then
    s.finish P o
  else
    let (batch, frontier) := s.frontier.advance Dht.Peer.nodeId (Closer P.toHost o.target)
      (min o.batchSize (o.iterativeQueryBudget - s.iterativeQueries))
    if batch = [] then { s with frontier := frontier }.finish P o
    else { s with
      frontier := frontier
      iterativeQueries := s.iterativeQueries + batch.length
      phase := .asking (batch.map fun peer => ⟨peer, none⟩) }

/-- `get` up to its first await. -/
def start (peers : Peers) (given : Dht.Store) (now : ℤ) : Read :=
  let (store, found) := given.get P (.string o.nameSpace) (.string o.key) now
  let s : Read := ⟨peers, store, .looking, ⟨false, [], 0, 0, none⟩, .start Dht.Peer.nodeId [], 0, [],
    [], [], [], 0, 0, 0⟩
  match o.normalizedRounds, found with
  | none, _ => { s with store := given, phase := .threw roundsError }
  | _, none => { s with phase := .threw typeError }
  | _, some [] => s
  | _, some records =>
    let byId := records.foldl (fun m record => Maps.set (idOf record) record m) []
    let readTelemetry : Telemetry :=
      ⟨records.length, false, 0, 0, 0, 0, 0, 0, 0, [c.localNodeId]⟩
    { s with
      byId := byId
      phase := .returned ⟨byId.map Prod.snd, [], s.lookup, readTelemetry⟩ }

/-- The walk over the keyspace has ended. -/
def walked (lookup : Lookup) (now : ℤ) : Read :=
  match s.phase with
  | .looking =>
    let currentPeers := s.candidates P o o.normalizedFanout
    let walkedPeers := lookup.queried.filterMap fun nodeId => s.peerFromNodeId P c nodeId now
    let queue := uniquePeers [] (walkedPeers ++ currentPeers)
    { s with
      lookup := lookup
      frontier := .start Dht.Peer.nodeId queue
      seedPeerCount := queue.length }.round P o
  | _ => s

def answer (call : ℕ) (answer : Answer) : Read :=
  match s.phase with
  | .asking batch =>
    match batch[call]? with
    | some ⟨peer, none⟩ =>
      let (s, reply) := s.findValue P c o answer
      { s with phase := .asking (batch.set call ⟨peer, some reply⟩) }
    | _ => s
  | _ => s

/-- `none`: not all requests of the batch have settled. -/
def settledBatch : Option (List (Dht.Peer × Reply)) :=
  match s.phase with
  | .asking batch => batch.mapM fun flight => flight.reply.map fun reply => (flight.peer, reply)
  | _ => none

def settled : Read :=
  match s.settledBatch with
  | some batch =>
    match s.gather P batch with
    | (s, true) => { s with phase := .threw typeError }
    | (s, false) => s.round P o
  | none => s

def step : Event → Read
  | .walked lookup now => s.walked P c o lookup now
  | .answer call answer => s.answer P c o call answer
  | .settled => s.settled P o
  | .stored call => { s with store := s.store.apply P call }
  | .elsewhere call => { s with peers := s.peers.apply P c call }

def run (peers : Peers) (store : Dht.Store) (now : ℤ) (es : List Event) : Read :=
  es.foldl (step P c o) (start P c o peers store now)

/-! ### Safe reads -/

/-- Nobody is asked twice, each one asked is nearest to the target among those that wait, and what is
    returned verifies. -/
structure Asks (s : Read) : Prop where
  once : (s.frontier.visits.map fun v => v.1.nodeId).Nodup
  bounded : s.frontier.visits.length ≤ o.iterativeQueryBudget
  nearest : ∀ v ∈ s.frontier.visits, v.1 ∈ v.2 ∧ ∀ peer ∈ v.2,
    Dht.xorDistance P.toHost v.1.nodeId o.target ≤ Dht.xorDistance P.toHost peer.nodeId o.target
  verified : ∀ result, s.phase = .returned result → ∀ v ∈ result.records, Verified P v

/-- What is returned was asked for, and is the newest of its publisher that was received. -/
structure Returns (s : Read) : Prop where
  requested : ∀ result, s.phase = .returned result → ∀ v ∈ result.records,
    Dht.Of (.string o.nameSpace) (.string o.key) v
  highest : ∀ result, s.phase = .returned result → ∀ v ∈ result.records, ∀ w ∈ s.received,
    w.get "publisherNodeId" = v.get "publisherNodeId" → ¬Dht.Lower P w v

/-- The records of a batch that verify are of the namespace and key that were asked for, and none is
    lower than another one of its publisher. -/
def Matching (s : Read) : Event → Prop
  | .settled => ∀ batch, s.settledBatch = some batch → (s.gather P batch).2 = false →
    ∀ v ∈ (s.gather P batch).1.received, Dht.Of (.string o.nameSpace) (.string o.key) v ∧
      ∀ w ∈ (s.gather P batch).1.received,
        w.get "publisherNodeId" = v.get "publisherNodeId" → ¬Dht.Lower P w v
  | _ => True

end Read

variable {P c o} {s : Read}

theorem budget_le (o : Options) : o.iterativeQueryBudget ≤ max o.replicationFactor 64 := by
  simp only [Options.iterativeQueryBudget, Options.normalizedFanout]
  omega

/-! ### The frontier -/

theorem uniquePeers_fresh {seen : List JsString} {peers : List Dht.Peer} :
    ∀ id ∈ (Read.uniquePeers seen peers).map Dht.Peer.nodeId, id ∉ seen := by
  induction peers generalizing seen with
  | nil => simp [Read.uniquePeers]
  | cons peer peers ih =>
    rw [Read.uniquePeers]
    split
    · exact ih
    · rename_i hnew
      intro id hid
      rw [List.map_cons, List.mem_cons] at hid
      rcases hid with rfl | hid
      · exact fun hseen => hnew (.inr hseen)
      · exact fun hseen => ih id hid (List.mem_append_left _ hseen)

theorem nodup_uniquePeers {seen : List JsString} {peers : List Dht.Peer} :
    ((Read.uniquePeers seen peers).map Dht.Peer.nodeId).Nodup := by
  induction peers generalizing seen with
  | nil => simp [Read.uniquePeers]
  | cons peer peers ih =>
    rw [Read.uniquePeers]
    split
    · exact ih
    · rw [List.map_cons, List.nodup_cons]
      refine ⟨fun hmem => uniquePeers_fresh _ hmem ?_, ih⟩
      exact List.mem_append_right _ (List.mem_singleton.mpr rfl)

/-- What every step of a batch keeps: what is collected was received, and verified. -/
structure Collecting (P : Platform) (o : Options) (s : Read) : Prop where
  frontier : s.frontier.Valid Dht.Peer.nodeId (Closer P.toHost o.target)
  queries : s.frontier.visits.length = s.iterativeQueries
  budget : s.iterativeQueries ≤ o.iterativeQueryBudget
  received : ∀ p ∈ s.byId, p.2 ∈ s.received
  found : s.byId = [] → s.received = []
  verified : ∀ v ∈ s.received, Verified P v

/-- The other fields say nothing of it. -/
theorem Collecting.of_eq {t : Read} (h : Collecting P o s) (hfrontier : t.frontier = s.frontier)
    (hqueries : t.iterativeQueries = s.iterativeQueries) (hbyId : t.byId = s.byId)
    (hreceived : t.received = s.received) : Collecting P o t := by
  obtain ⟨hvalid, hcount, hbudget, hsub, hfound, hverified⟩ := h
  rw [← hfrontier] at hvalid
  rw [← hfrontier, ← hqueries] at hcount
  rw [← hqueries] at hbudget
  rw [← hbyId] at hsub hfound
  rw [← hreceived] at hsub hfound hverified
  exact ⟨hvalid, hcount, hbudget, hsub, hfound, hverified⟩

theorem Collecting.takeRecords {records : List Told} (h : Collecting P o s) :
    Collecting P o (s.takeRecords P records).1 := by
  induction records generalizing s with
  | nil => exact h
  | cons t records ih =>
    rw [Read.takeRecords]
    split
    · exact ih (h.of_eq rfl rfl rfl rfl)
    · rename_i signatures hverdict
      have htaken (store : Dht.Store) : Collecting P o { s with
          store := store
          byId := Maps.set (idOf t.record) t.record s.byId
          received := s.received ++ [t.record] } := by
        refine ⟨h.frontier, h.queries, h.budget, fun p hp => ?_, fun hempty => ?_, fun v hv => ?_⟩
        · rcases Maps.mem_set hp with rfl | hp
          · exact List.mem_append_right _ (List.mem_singleton.mpr rfl)
          · exact List.mem_append_left _ (h.received p hp)
        · replace hempty : Maps.set (idOf t.record) t.record s.byId = [] := hempty
          have hmem : (idOf t.record, t.record) ∈ Maps.set (idOf t.record) t.record s.byId :=
            Maps.mem_set_self
          rw [hempty] at hmem
          cases hmem
        · rcases List.mem_append.mp hv with hv | hv
          · exact h.verified v hv
          · rw [List.mem_singleton.mp hv]
            exact ⟨s.store.signatures, t.again, congrArg Prod.snd hverdict⟩
      simp only
      split
      · exact htaken _
      · exact ih (htaken _)

theorem Collecting.takeHints {hints : List Dht.Peer} (h : Collecting P o s) :
    Collecting P o (s.takeHints hints) := by
  induction hints generalizing s with
  | nil => exact h
  | cons hint hints ih =>
    rw [Read.takeHints]
    split
    · exact ih h
    · rename_i frontier hoffer
      rw [Option.ite_none_left_eq_some] at hoffer
      obtain ⟨hvalid, hvisits⟩ := h.frontier.offer hoffer.2
      exact ih { h with frontier := hvalid, queries := by rw [← h.queries, hvisits] }

theorem Collecting.gather {batch : List (Dht.Peer × Reply)} (h : Collecting P o s) :
    Collecting P o (s.gather P batch).1 := by
  induction batch generalizing s with
  | nil => exact h
  | cons settled batch ih =>
    obtain ⟨peer, reply⟩ := settled
    cases reply with
    | failed reason =>
      exact ih (h.of_eq rfl rfl rfl rfl)
    | answered records hints =>
      have htaken : Collecting P o (Read.takeRecords P { s with
          iterativeResponses := s.iterativeResponses + 1 } records).1 :=
        Collecting.takeRecords (h.of_eq rfl rfl rfl rfl)
      rw [Read.gather]
      split
      · rename_i t ht
        rw [ht] at htaken
        exact htaken
      · rename_i t found ht
        rw [ht] at htaken
        refine ih (Collecting.takeHints ?_)
        split
        · exact htaken.of_eq rfl rfl rfl rfl
        · exact htaken

/-! ### Rounds -/

/-- A record that may be returned. -/
structure Wanted (P : Platform) (o : Options) (received : List Value) (v : Value) : Prop where
  requested : Dht.Of (.string o.nameSpace) (.string o.key) v
  highest : ∀ w ∈ received, w.get "publisherNodeId" = v.get "publisherNodeId" → ¬Dht.Lower P w v

/-- What is returned is `good`, given all that was received. -/
structure Inv (P : Platform) (o : Options) (good : List Value → Value → Prop) (s : Read) : Prop where
  frontier : s.frontier.Valid Dht.Peer.nodeId (Closer P.toHost o.target)
  queries : s.frontier.visits.length = s.iterativeQueries
  budget : s.iterativeQueries ≤ o.iterativeQueryBudget
  looking : s.phase = .looking → s.byId = [] ∧ s.received = [] ∧ s.iterativeQueries = 0
  asking : ∀ batch, s.phase = .asking batch → s.byId = [] ∧ s.received = []
  returned : ∀ result, s.phase = .returned result → ∀ v ∈ result.records, good s.received v

variable {good : List Value → Value → Prop}

theorem Collecting.finish (h : Collecting P o s) (hgood : ∀ v ∈ s.received, good s.received v) :
    Inv P o good (s.finish P o) := by
  simp only [Read.finish]
  split
  · exact ⟨h.frontier, h.queries, h.budget, Phase.noConfusion, fun _ => Phase.noConfusion,
      fun _ => Phase.noConfusion⟩
  · refine ⟨h.frontier, h.queries, h.budget, Phase.noConfusion, fun _ => Phase.noConfusion,
      fun result hphase v hv => ?_⟩
    cases hphase
    rw [List.mem_insertionSort] at hv
    obtain ⟨p, hp, rfl⟩ := List.mem_map.mp hv
    exact hgood p.2 (h.received p hp)

theorem Collecting.round (h : Collecting P o s) (hgood : ∀ v ∈ s.received, good s.received v) :
    Inv P o good (s.round P o) := by
  simp only [Read.round]
  split
  · exact h.finish hgood
  · rename_i hgo
    have hempty : s.byId = [] := by
      by_contra hne
      exact hgo (.inr (.inr hne))
    have hvisit := h.frontier.advance
      (min o.batchSize (o.iterativeQueryBudget - s.iterativeQueries))
    generalize s.frontier.advance Dht.Peer.nodeId (Closer P.toHost o.target)
      (min o.batchSize (o.iterativeQueryBudget - s.iterativeQueries)) = visited at hvisit ⊢
    obtain ⟨batch, frontier⟩ := visited
    obtain ⟨hvalid, hvisits, hroom⟩ := hvisit
    have hcount : frontier.visits.length = s.iterativeQueries + batch.length := by
      rw [← h.queries]
      exact hvisits
    simp only
    split
    · rename_i hnone
      refine Collecting.finish { h with frontier := hvalid, queries := ?_ } hgood
      rw [hcount, hnone, List.length_nil, Nat.add_zero]
    · refine ⟨hvalid, hcount, ?_, Phase.noConfusion, fun _ _ => ⟨hempty, h.found hempty⟩,
        fun _ => Phase.noConfusion⟩
      change s.iterativeQueries + batch.length ≤ o.iterativeQueryBudget
      replace hroom : batch.length ≤ min o.batchSize (o.iterativeQueryBudget - s.iterativeQueries) :=
        hroom
      have hbudget := h.budget
      omega

/-! ### The local store -/

theorem verifies_of_verifying {now : ℤ} {verified : List JsString}
    {records : List (JsString × Value)} :
    ∀ r ∈ (Dht.verifying P now verified records).2, ∃ signatures, Dht.Verifies P signatures r.2 now false := by
  induction records generalizing verified with
  | nil => exact fun r hr => by cases hr
  | cons first records ih =>
    rw [Dht.verifying]
    generalize hresult : verifyDhtRecord P verified first.2 now false = result
    obtain ⟨signatures, verdict⟩ := result
    cases verdict with
    | error reason => exact ih
    | ok =>
      intro r hr
      rcases List.mem_cons.mp hr with rfl | hr
      · exact ⟨verified, congrArg Prod.snd hresult⟩
      · exact ih r hr

/-- What the local store gives verifies, and is of the namespace and key. -/
theorem good_of_given {store : Dht.Store} {found : List Value} {v : Value} {now : ℤ}
    (h : (store.get P (.string o.nameSpace) (.string o.key) now).2 = some found) (hv : v ∈ found) :
    Verified P v ∧ Wanted P o [] v := by
  simp only [Dht.Store.get] at h
  split at h
  · cases h
  · cases h
    rw [List.mem_insertionSort, List.mem_map] at hv
    obtain ⟨r, hr, rfl⟩ := hv
    obtain ⟨signatures, hverifies⟩ := verifies_of_verifying r hr
    have hasked := List.of_mem_filter (Dht.verifying_sublist.subset hr)
    rw [Bool.and_eq_true] at hasked
    refine ⟨⟨signatures, now, hverifies⟩, ⟨?_, ?_⟩, fun w hw => ?_⟩
    · exact Dht.eq_of_strictEq hasked.1
    · exact Dht.eq_of_strictEq hasked.2
    · cases hw

theorem mem_byId {records : List Value} {m : List (JsString × Value)} :
    ∀ p ∈ records.foldl (fun m record => Maps.set (idOf record) record m) m, p ∈ m ∨ p.2 ∈ records := by
  induction records generalizing m with
  | nil => exact fun p hp => .inl hp
  | cons record records ih =>
    intro p hp
    rcases ih p hp with hp | hp
    · rcases Maps.mem_set hp with rfl | hp
      · exact .inr List.mem_cons_self
      · exact .inl hp
    · exact .inr (List.mem_cons_of_mem record hp)

theorem inv_start (hgood : ∀ v, Verified P v → Wanted P o [] v → good [] v) (peers : Peers)
    (store : Dht.Store) (now : ℤ) :
    Inv P o good (Read.start P c o peers store now) := by
  have hnone : (Frontier.start Dht.Peer.nodeId ([] : List Dht.Peer)).Valid Dht.Peer.nodeId
      (Closer P.toHost o.target) := .start List.nodup_nil
  simp only [Read.start]
  split
  · exact ⟨hnone, rfl, Nat.zero_le _, Phase.noConfusion, fun _ => Phase.noConfusion,
      fun _ => Phase.noConfusion⟩
  · exact ⟨hnone, rfl, Nat.zero_le _, Phase.noConfusion, fun _ => Phase.noConfusion,
      fun _ => Phase.noConfusion⟩
  · exact ⟨hnone, rfl, Nat.zero_le _, fun _ => ⟨rfl, rfl, rfl⟩, fun _ => Phase.noConfusion,
      fun _ => Phase.noConfusion⟩
  · rename_i hfound _
    refine ⟨hnone, rfl, Nat.zero_le _, Phase.noConfusion, fun _ => Phase.noConfusion,
      fun result hphase v hv => ?_⟩
    cases hphase
    obtain ⟨p, hp, rfl⟩ := List.mem_map.mp hv
    rcases mem_byId p hp with hp | hp
    · cases hp
    · obtain ⟨hverified, hwanted⟩ := good_of_given hfound hp
      exact hgood p.2 hverified hwanted

/-! ### Steps -/

/-- Before a batch has settled nothing is collected. -/
theorem Inv.collecting (h : Inv P o good s) (hempty : s.byId = [] ∧ s.received = []) :
    Collecting P o s := by
  refine ⟨h.frontier, h.queries, h.budget, fun p hp => ?_, fun _ => hempty.2, fun v hv => ?_⟩
  · rw [hempty.1] at hp
    cases hp
  · rw [hempty.2] at hv
    cases hv

theorem Inv.walked (h : Inv P o good s) (lookup : Lookup) (now : ℤ) : Inv P o good (s.walked P c o lookup now) := by
  unfold Read.walked
  split
  · rename_i hphase
    obtain ⟨hbyId, hreceived, hqueries⟩ := h.looking hphase
    refine Collecting.round ⟨.start nodup_uniquePeers, hqueries.symm, h.budget, fun p hp => ?_,
      fun _ => hreceived, fun v hv => ?_⟩ fun v hv => ?_
    · change p ∈ s.byId at hp
      rw [hbyId] at hp
      cases hp
    · change v ∈ s.received at hv
      rw [hreceived] at hv
      cases hv
    · change v ∈ s.received at hv
      rw [hreceived] at hv
      cases hv
  · exact h

/-- The records of the node may change at any time. -/
theorem Inv.elsewhere (h : Inv P o good s) (peers : Peers) (store : Dht.Store) :
    Inv P o good { s with peers := peers, store := store } :=
  { h with }

theorem findValue_moves (answer : Answer) : ∃ peers store,
    (s.findValue P c o answer).1 = { s with peers := peers, store := store } := by
  cases answer with
  | error reason => exact ⟨s.peers, s.store, rfl⟩
  | response records hints => exact ⟨_, _, rfl⟩

theorem Inv.answer (h : Inv P o good s) (call : ℕ) (answer : Answer) :
    Inv P o good (s.answer P c o call answer) := by
  unfold Read.answer
  split
  · rename_i batch hphase
    split
    · rename_i peer hcall
      obtain ⟨peers, store, hmoves⟩ := findValue_moves (P := P) (c := c) (o := o) (s := s) answer
      simp only [hmoves]
      exact ⟨h.frontier, h.queries, h.budget, Phase.noConfusion, fun _ _ => h.asking batch hphase,
        fun _ => Phase.noConfusion⟩
    · exact h
  · exact h

/-- All that a batch has given is `good`, if it is not thrown. -/
def Gives (P : Platform) (good : List Value → Value → Prop) (s : Read) : Event → Prop
  | .settled => ∀ batch, s.settledBatch = some batch → (s.gather P batch).2 = false →
    ∀ v ∈ (s.gather P batch).1.received, Verified P v → good (s.gather P batch).1.received v
  | _ => True

theorem Inv.settled (h : Inv P o good s) (hgives : Gives P good s .settled) :
    Inv P o good (s.settled P o) := by
  unfold Read.settled
  split
  · rename_i batch hbatch
    have hempty : s.byId = [] ∧ s.received = [] := by
      unfold Read.settledBatch at hbatch
      split at hbatch
      · rename_i flights hphase
        exact h.asking flights hphase
      · cases hbatch
    have hgathered : Collecting P o (s.gather P batch).1 := (h.collecting hempty).gather
    split
    · rename_i t ht
      rw [ht] at hgathered
      exact ⟨hgathered.frontier, hgathered.queries, hgathered.budget, Phase.noConfusion,
        fun _ => Phase.noConfusion, fun _ => Phase.noConfusion⟩
    · rename_i t ht
      have hgood := hgives batch hbatch (congrArg Prod.snd ht)
      rw [ht] at hgathered hgood
      exact hgathered.round fun v hv => hgood v hv (hgathered.verified v hv)
  · exact h

theorem Inv.step {e : Event} (h : Inv P o good s) (hgives : Gives P good s e) :
    Inv P o good (s.step P c o e) := by
  cases e with
  | walked lookup now => exact h.walked lookup now
  | answer call answer => exact h.answer call answer
  | settled => exact h.settled hgives
  | stored call => exact h.elsewhere s.peers (s.store.apply P call)
  | elsewhere call => exact h.elsewhere (s.peers.apply P c call) s.store

theorem Inv.asks (h : Inv P o (fun _ => Verified P) s) : Read.Asks P o s where
  once := by
    have honce := h.frontier.once
    exact (List.nodup_append.mp honce).1
  bounded := h.queries ▸ h.budget
  nearest v hv := by
    obtain ⟨hmem, hbest⟩ := h.frontier.best v hv
    refine ⟨hmem, fun peer hpeer => ?_⟩
    rcases hbest peer hpeer with hlt | ⟨heq, -⟩
    · exact hlt.le
    · exact heq.le
  verified := h.returned

theorem Inv.returns (h : Inv P o (Wanted P o) s) : Read.Returns P o s where
  requested result hphase v hv := (h.returned result hphase v hv).requested
  highest result hphase v hv := (h.returned result hphase v hv).highest

/-- A read asks each node once and few nodes, the nearest first; and where the records of answers that
    verify are of the namespace and key and none is lower than another of its publisher, it returns such
    records only. The client of the SDK returns what its peer answers with. -/
theorem reads_safe (P : Platform) (c : Config) (o : Options) (peers : Peers) (store : Dht.Store)
    (now : ℤ) (es : List Event) :
    (Read.run P c o peers store now es).Asks P o ∧
      o.iterativeQueryBudget ≤ max o.replicationFactor 64 ∧
      (Runs.Along (Read.step P c o) (Read.Matching P o) (.start P c o peers store now) es →
        (Read.run P c o peers store now es).Returns P o) ∧
      ∀ S nameSpace key response clock records,
        Sdk.findValue S nameSpace key response clock = .ok records →
        ((∀ v ∈ records, Dht.Of (.string nameSpace) (.string key) v) ↔
          ∀ v ∈ Sdk.repliedRecords response, Dht.Of (.string nameSpace) (.string key) v) := by
  have hall : Runs.Along (Read.step P c o) (fun _ _ => True) (.start P c o peers store now) es :=
    Runs.along_of_forall fun _ _ => trivial
  have hasks : Inv P o (fun _ => Verified P) (Read.run P c o peers store now es) := by
    refine hall.keeps (inv_start (fun _ hverified _ => hverified) peers store now)
      fun s e hinv _ => hinv.step ?_
    cases e with
    | settled => exact fun _ _ _ _ _ hverified => hverified
    | _ => trivial
  refine ⟨hasks.asks, budget_le o, fun h => ?_, fun S nameSpace key response clock records hfound => ?_⟩
  · have hreturns : Inv P o (Wanted P o) (Read.run P c o peers store now es) := by
      refine h.keeps (inv_start (fun _ _ hwanted => hwanted) peers store now)
        fun s e hinv hmatching => hinv.step ?_
      cases e with
      | settled =>
        intro batch hbatch hdone v hv _
        obtain ⟨hrequested, hhighest⟩ := hmatching batch hbatch hdone v hv
        exact ⟨hrequested, hhighest⟩
      | _ => trivial
    exact hreturns.returns
  · rw [Sdk.findValue_ok hfound]

/-! ### A record of another key -/

def question (nameSpace : String) : Options where
  nameSpace := js nameSpace
  key := js "k"
  replicationFactor := 3
  fanout := none
  lookupRounds := some (some 4)
  alpha := none
  ingests := true

/-- Node B knows node A. -/
def acquainted : Peers :=
  (Peers.new.ingest Dht.plain Discovery.nodeB (Discovery.signedByA 2 90) 10 false (js "t")).1

/-- Node A is asked, and answers with these records. -/
def asked (records : List Value) : List Event :=
  [.walked ⟨true, [js "A"], 1, 1, none⟩ 12,
    .answer 0 (.response (records.map fun record => ⟨record, 13, 13, 13⟩) []), .settled]

/-- A platform with one key, whose id is the publisher of an entry. -/
def oneKey : Sdk.Platform :=
  { Dht.plain with
    canonical := fun v =>
      match v with
      | some v => (Dht.plain.canonicalize v).mapError fun _ => js "TCJ1 invalid JSON"
      | none => .error (js "TCJ1 invalid JSON")
    createPublicKey := fun _ => .ok ⟨true, List.replicate 64 97⟩
    verify := fun _ _ _ => .ok true }

/-- The answer of a peer of the SDK: a record of `n` and `k`. -/
def answered : Value :=
  .object [(js "ok", .bool true),
    (js "result", .object [(js "records", .array [Dht.entry "n" "k" 1])])]

set_option maxRecDepth 8000 in
/-- Asked for `n` and `k`, the peer answers with a record of theirs. -/
theorem reads_safe_answered :
    Runs.Along (Read.step Dht.plain Discovery.nodeB (question "n"))
      (Read.Matching Dht.plain (question "n"))
      (.start Dht.plain Discovery.nodeB (question "n") acquainted .new 11)
      (asked [Dht.published 1 90]) ∧
    (Read.run Dht.plain Discovery.nodeB (question "n") acquainted .new 11
      (asked [Dht.published 1 90])).Returns Dht.plain (question "n") ∧
    ∃ result, (Read.run Dht.plain Discovery.nodeB (question "n") acquainted .new 11
        (asked [Dht.published 1 90])).phase = .returned result ∧
      result.records = [Dht.published 1 90] := by
  have h : Runs.Along (Read.step Dht.plain Discovery.nodeB (question "n"))
      (Read.Matching Dht.plain (question "n"))
      (.start Dht.plain Discovery.nodeB (question "n") acquainted .new 11)
      (asked [Dht.published 1 90]) := by
    refine ⟨trivial, trivial, fun batch hbatch _ v hv => ?_, trivial⟩
    cases hbatch
    replace hv : v ∈ [Dht.published 1 90] := hv
    obtain rfl := List.mem_singleton.mp hv
    refine ⟨⟨rfl, rfl⟩, fun w hw _ hlower => ?_⟩
    replace hw : w ∈ [Dht.published 1 90] := hw
    obtain rfl := List.mem_singleton.mp hw
    cases hlower
  refine ⟨h, ?_, _, rfl, rfl⟩
  obtain ⟨-, -, hreturns, -⟩ := reads_safe Dht.plain Discovery.nodeB (question "n") acquainted .new 11
    (asked [Dht.published 1 90])
  exact hreturns h

set_option maxRecDepth 8000 in
/-- Asked for `m` and `k`, a peer answers with two records of `n` and `k`: both are returned, also the
    older one. So is a record of `n` and `k` by the client of the SDK. -/
theorem other_key_returned :
    (∃ result, (Read.run Dht.plain Discovery.nodeB (question "m") acquainted .new 11
        (asked [Dht.published 1 90, Dht.published 2 80])).phase = .returned result ∧
      result.records = [Dht.published 2 80, Dht.published 1 90]) ∧
    ¬(Read.run Dht.plain Discovery.nodeB (question "m") acquainted .new 11
      (asked [Dht.published 1 90, Dht.published 2 80])).Returns Dht.plain (question "m") ∧
    Sdk.findValue oneKey (js "m") (js "k") (.ok answered) (fun _ => 10) =
      .ok [Dht.entry "n" "k" 1] ∧
    ¬Dht.Of (.string (js "m")) (.string (js "k")) (Dht.entry "n" "k" 1) := by
  have hother : js "n" ≠ js "m" := by decide
  have hreturned : ∃ result, (Read.run Dht.plain Discovery.nodeB (question "m") acquainted .new 11
        (asked [Dht.published 1 90, Dht.published 2 80])).phase = .returned result ∧
      result.records = [Dht.published 2 80, Dht.published 1 90] := ⟨_, rfl, rfl⟩
  refine ⟨hreturned, fun h => ?_, rfl, fun h => ?_⟩
  · obtain ⟨result, hphase, hrecords⟩ := hreturned
    have hof := h.requested result hphase (Dht.published 2 80) (hrecords ▸ List.mem_cons_self)
    exact hother (Value.string.inj (Option.some.inj hof.1))
  · exact hother (Value.string.inj (Option.some.inj h.1))

end Truyn.Replication.Reads
