import Truyn.Context.Holders
import Truyn.Schemes.Maps

/-! context:coordinator | replicas of each partition are asked, and a candidate needs a quorum

    Offers are grouped by partition and ranked by a score, of which only the order matters here. The
    replicas are the best of each failure domain first, then whoever is left. Their answers count
    towards the quorum of responses, and their candidates are grouped by partition and CID. -/

namespace Truyn.Context
open Checks

/-- `payload.metadata.distributedContext` of an offer; `none` is what is no string or integer. -/
structure Placement where
  rootCid : Option JsString
  holderNodeId : Option JsString
  partitionCount : Option ℤ
  partitionIndex : Option ℤ
  blockCount : Option ℤ
  failureDomainCommitment : Option JsString

/-- `score` is what `holderOperationalTrust` makes of the offer. -/
structure Offer where
  from_ : NodeId
  publicKey : JsString
  metadata : Option Placement
  score : ℚ

/-- A parsed offer; `object` tells it from its equals. -/
structure Holder where
  object : ℕ
  nodeId : NodeId
  publicKey : JsString
  partitionIndex : ℤ
  partitionCount : ℤ
  domain : Option JsString
  score : ℚ

/-- What a holder answered; `none` is what is missing or of another type. -/
structure Response where
  providerNodeId : Option JsString
  rootCid : Option JsString
  queryHash : Option JsString
  holderNodeId : Option JsString
  partitionIndex : Option ℤ
  partitionCount : Option ℤ
  candidates : List Candidate

/-- The options of a coordinator, which its constructor checks. -/
structure Coordinator where
  replicaReads : ℕ
  quorum : ℕ
  quorum_pos : 1 ≤ quorum
  quorum_le : quorum ≤ replicaReads
  reads_le : replicaReads ≤ 16

variable (S : Signatures)

/-! ### Coverage -/

def parsePlacementOffer (m : Manifest) (rootCid : JsString) (object : ℕ) (o : Offer) :
    Except JsString (Option Holder) :=
  match o.metadata with
  | none => return none
  | some p =>
    match p.partitionCount, p.partitionIndex with
    | some count, some index =>
      if p.rootCid ≠ some rootCid ∨ p.holderNodeId ≠ some o.from_ ∨ count < 1 ∨ 4096 < count ∨
          index < 0 ∨ count ≤ index then return none
      else do
        let expected ← expectedManifestPartition S.toPlatform m index count
        if p.blockCount ≠ some (expected.length : ℤ) then return none
        else
          let domain := if p.failureDomainCommitment = some [] then none
            else p.failureDomainCommitment
          return some ⟨object, o.from_, o.publicKey, index, count, domain, o.score⟩
    | _, _ => return none

def parseOffers (m : Manifest) (rootCid : JsString) : List (Offer × ℕ) →
    Except JsString (List Holder)
  | [] => return []
  | (o, object) :: l => do
    let holder ← parsePlacementOffer S m rootCid object o
    let rest ← parseOffers m rootCid l
    return holder.toList ++ rest

structure Coverage where
  holders : List Holder
  partitionCount : ℕ

/-- `byPartition.get(index)` -/
def Coverage.at (c : Coverage) (index : ℕ) : List Holder :=
  c.holders.filter fun h => h.partitionIndex = index

def groupPlacementCoverage (m : Manifest) (offers : List Offer) (rootCid : JsString) :
    Except JsString Coverage := do
  let holders ← parseOffers S m rootCid offers.zipIdx
  match (holders.map Holder.partitionCount).eraseDups with
  | [] => throw (js "distributed_context_no_federated_holders")
  | [count] =>
    let coverage : Coverage := ⟨holders, count.toNat⟩
    if (List.range coverage.partitionCount).any fun k => (coverage.at k).isEmpty then
      throw (js "distributed_context_incomplete_federated_coverage")
    else return coverage
  | _ => throw (js "distributed_context_partition_contract_mismatch")

/-! ### Replicas -/

/-- The better score first, then the language's order of the node ids. -/
def ranks (C : Collation) (a b : Holder) : Prop :=
  b.score < a.score ∨ a.score = b.score ∧ C.le a.nodeId b.nodeId = true

instance (C : Collation) : DecidableRel (ranks C) := fun _ _ => inferInstanceAs (Decidable (_ ∨ _))

/-- The first pass: one of each failure domain, until there are enough. -/
def pickDiverse (reads : ℕ) : List Holder → List Holder → List JsString → List Holder
  | [], selected, _ => selected
  | h :: ranked, selected, usedDomains =>
    if h.domain.any (· ∈ usedDomains) then pickDiverse reads ranked selected usedDomains
    else if reads ≤ selected.length + 1 then selected ++ [h]
    else pickDiverse reads ranked (selected ++ [h]) (usedDomains ++ h.domain.toList)

/-- The second pass: whoever is not selected, until there are enough. -/
def pickOthers (reads : ℕ) : List Holder → List Holder → List Holder
  | [], selected => selected
  | h :: ranked, selected =>
    if selected.any fun s => s.object = h.object then pickOthers reads ranked selected
    else if reads ≤ selected.length + 1 then selected ++ [h]
    else pickOthers reads ranked (selected ++ [h])

def selectTrustedReplicaSet (c : Coordinator) (holders : List Holder) :
    Except JsString (List Holder) :=
  let unavailable := js "distributed_context_replica_quorum_unavailable"
  if holders.length < c.quorum then throw unavailable
  else
    let ranked := holders.insertionSort (ranks S.collation)
    let first := pickDiverse c.replicaReads ranked [] []
    let selected :=
      if first.length < c.replicaReads then pickOthers c.replicaReads ranked first else first
    if selected.length < c.quorum then throw unavailable else return selected

/-- The replicas of the partitions from `index` on. -/
def selectAllReplicas (c : Coordinator) (coverage : Coverage) :
    List ℕ → Except JsString (List (List Holder))
  | [] => return []
  | index :: l => do
    let selected ← selectTrustedReplicaSet S c (coverage.at index)
    let rest ← selectAllReplicas c coverage l
    return selected :: rest

/-- The coverage, and the replicas of each partition. -/
def discover (c : Coordinator) (m : Manifest) (offers : List Offer) (rootCid : JsString) :
    Except JsString (Coverage × List (List Holder)) := do
  let coverage ← groupPlacementCoverage S m offers rootCid
  let selected ← selectAllReplicas S c coverage (List.range coverage.partitionCount)
  return (coverage, selected)

/-! ### Responses -/

/-- Whether a response counts as an answer of the holder. -/
def answers (rootCid queryHash : JsString) (h : Holder) (r : Response) : Bool :=
  (r.providerNodeId.getD [] = [] ∨ r.providerNodeId = some h.nodeId) ∧ r.rootCid = some rootCid ∧
    r.queryHash = some queryHash ∧ r.holderNodeId = some h.nodeId ∧
    r.partitionIndex = some h.partitionIndex ∧ r.partitionCount = some h.partitionCount

/-- A candidate that was verified, who answered with it, and his score then. -/
structure Verified where
  candidate : Candidate
  holder : Holder
  holderTrust : ℚ

def Holder.ref (h : Holder) : HolderRef := ⟨h.nodeId, h.partitionIndex, h.partitionCount⟩

variable (respond : Holder → Option Response) (holderTrust : Holder → ℚ)

def verifyAll (m : Manifest) (rootCid queryHash : JsString) (h : Holder) :
    List Candidate → Except JsString (List Verified)
  | [] => return []
  | c :: cs => do
    let reason ← verifyDistributedCandidate S m rootCid queryHash h.ref c h.publicKey
    let rest ← verifyAll m rootCid queryHash h cs
    return if reason = none then ⟨c, h, holderTrust h⟩ :: rest else rest

/-- The replicas that answered. -/
def answered (rootCid queryHash : JsString) (replicas : List Holder) : List Holder :=
  replicas.filter fun h => (respond h).any (answers rootCid queryHash h)

def collectVerified (m : Manifest) (rootCid queryHash : JsString) :
    List Holder → Except JsString (List Verified)
  | [] => return []
  | h :: hs => do
    let candidates := (respond h).elim [] Response.candidates
    let verified ← verifyAll S holderTrust m rootCid queryHash h candidates
    let rest ← collectVerified m rootCid queryHash hs
    return verified ++ rest

/-! ### Quorums -/

/-- `${partitionIndex}|${cid}` -/
def Verified.key (v : Verified) : ℤ × JsString :=
  (v.holder.partitionIndex, v.candidate.cid.getD [])

/-- The first candidate of each holder supports its group. -/
def addSupport (groups : List ((ℤ × JsString) × List Verified)) (v : Verified) :
    List ((ℤ × JsString) × List Verified) :=
  if v.candidate.cid.getD [] = [] ∨ v.holder.nodeId = [] then groups
  else
    let byHolder := (Maps.get groups v.key).getD []
    if byHolder.any fun w => w.holder.nodeId = v.holder.nodeId then groups
    else Maps.set v.key (byHolder ++ [v]) groups

structure QuorumCandidate where
  primary : Verified
  supporters : List Verified

def supportRanks (C : Collation) (a b : Verified) : Prop :=
  b.holderTrust < a.holderTrust ∨
    a.holderTrust = b.holderTrust ∧ C.le a.holder.nodeId b.holder.nodeId = true

instance (C : Collation) : DecidableRel (supportRanks C) := fun _ _ =>
  inferInstanceAs (Decidable (_ ∨ _))

/-- The candidate of a group with enough supporters. -/
def quorumCandidate (c : Coordinator) (byHolder : List Verified) : Option QuorumCandidate :=
  if byHolder.length < c.quorum then none
  else
    match byHolder.insertionSort (supportRanks S.collation) with
    | [] => none
    | primary :: rest => some ⟨primary, primary :: rest⟩

def buildCandidateQuorum (c : Coordinator) (verified : List Verified) : List QuorumCandidate :=
  (verified.foldl addSupport []).filterMap fun g => quorumCandidate S c g.2

/-! ### Retrieval -/

/-- What the selector of candidates picks: a string, or an object with a `cid`. -/
inductive Pick
  | named (item : JsString)
  | item (cid : Option JsString)

def QuorumCandidate.id (q : QuorumCandidate) : Option JsString := q.primary.candidate.id

def QuorumCandidate.cid (q : QuorumCandidate) : Option JsString := q.primary.candidate.cid

def pickedCid (candidates : List QuorumCandidate) : Pick → Option (Option JsString)
  | .named item =>
    (candidates.find? fun q => q.id = some item ∨ q.cid = some item).map QuorumCandidate.cid
  | .item cid => some cid

/-- `byCid.get(candidate.cid)` -/
def pick (candidates : List QuorumCandidate) (p : Pick) : Option QuorumCandidate :=
  (pickedCid candidates p).bind fun cid => candidates.reverse.find? fun q => q.cid = cid

/-- The question was asked of these replicas, and these candidates are the result. -/
structure Retrieval where
  replicas : List (List Holder)
  selected : List QuorumCandidate

/-- `queryHash` is that of the question; `selector` gives `none` where it throws or gives no array. -/
def retrieve (c : Coordinator) (m : Manifest) (rootCid queryHash : JsString) (offers : List Offer)
    (selector : List QuorumCandidate → Option (List Pick)) (topK : ℕ) :
    Except JsString Retrieval := do
  if topK < 1 ∨ 8 < topK then throw (js "federated retrieval topK must be 1..8")
  let _ ← (verifyContextManifest S.toPlatform m (some rootCid)).mapError
    fun reason => js "federated manifest verification failed: " ++ reason
  let (_, replicas) ← discover S c m offers rootCid
  let verified ← collectVerified S respond holderTrust m rootCid queryHash
    (replicas.map (answered respond rootCid queryHash)).flatten
  if replicas.any fun l => decide ((answered respond rootCid queryHash l).length < c.quorum) then
    throw (js "distributed_context_response_quorum_failed")
  let candidates := buildCandidateQuorum S c verified
  if candidates.isEmpty then throw (js "distributed_context_no_byzantine_quorum_candidate")
  match selector candidates with
  | none => throw (js "federated candidate selector returned too few candidates")
  | some picks =>
    if picks.length < topK then
      throw (js "federated candidate selector returned too few candidates")
    else
      match (picks.take topK).mapM (pick candidates) with
      | none => throw (js "federated selector selected a non-quorum candidate")
      | some selected => return ⟨replicas, selected⟩

end Truyn.Context
