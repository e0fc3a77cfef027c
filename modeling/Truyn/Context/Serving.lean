import Truyn.Context.Queries
import Truyn.Context.Holders
import Truyn.Schemes.Servers

/-! context:serving | what a holder of a partition answers

    A need comes out of the mailbox with its verification. The holder refuses who is not on its list
    and what is not well asked, and otherwise retrieves blocks and signs a receipt for each. Only one
    message of the retrieval is caught; whatever else throws leaves `handleNeed`. -/

namespace Truyn.Serving
open Checks Context Servers

/-- A result that is sent: the need that it answers, and an error or an output. -/
structure Result (α : Type) where
  requestId : Option Json
  body : Except JsString α

/-- An event of a poll; `verified` is its `verification.ok`. -/
structure Event where
  verified : Bool
  envelope : Option Json

/-! ### Needs -/

/-- `envelope.payload?.[key]`. -/
def payloadField (envelope : Json) (key : String) : Option Json :=
  (envelope.get (js "payload")).bind (Json.get (js key))

/-- `envelope.payload?.capability?.name || envelope.payload?.capability`. -/
def capabilityOf (envelope : Json) : Option Json :=
  let capability := payloadField envelope "capability"
  match capability.bind (Json.get (js "name")) with
  | some name => if name.truthy then some name else capability
  | none => capability

/-- The envelope of a verified need for this capability. -/
def Event.need (event : Event) (requestCapability : JsString) : Option Json :=
  event.envelope.filter fun envelope => event.verified &&
    decide (asText (envelope.get (js "type")) = some (js "NEED")) &&
    decide (asText (capabilityOf envelope) = some requestCapability)

/-- `allowedRequesterSet.has(envelope.from)`. -/
def allows (allowedRequesterIds : List JsString) (envelope : Json) : Bool :=
  match asText (envelope.get (js "from")) with
  | some requesterId => decide (requesterId ∈ allowedRequesterIds)
  | none => false

def Authorized (requestCapability : JsString) (allowed : List JsString) (event : Event)
    (id : Option Json) : Prop :=
  ∃ envelope, event.need requestCapability = some envelope ∧ allows allowed envelope = true ∧
    envelope.get (js "id") = id

def Denied (requestCapability : JsString) (allowed : List JsString) (event : Event)
    (id : Option Json) : Prop :=
  ∃ envelope, event.need requestCapability = some envelope ∧ allows allowed envelope = false ∧
    envelope.get (js "id") = id

/-- A send goes through, or throws. -/
def send {α : Type} (ok : Bool) (result : Result α) : List (Result α) × Bool :=
  if ok then ([result], false) else ([], true)

/-! ### Holders -/

/-- What a holder takes from its surroundings; `readNumber` is the value of a numeral. -/
structure HolderHost extends Unicode, Signatures where
  readNumber : NumberText → Option ℚ

/-- A block that was retrieved; `score` is finite, or `none`. -/
structure Found where
  id : JsString
  cid : JsString
  text : JsString
  bytes : Option Json
  score : Option NumberText

/-- The options of `DistributedContextHolderHost`, which its constructor checks. -/
structure Holder where
  identity : Context.Identity
  rootCid : JsString
  blocks : List Item
  partitionIndex : ℤ
  partitionCount : ℤ
  requestCapability : JsString
  allowedRequesterIds : List JsString
  candidateK : ℕ
  candidateK_range : 1 ≤ candidateK ∧ candidateK ≤ 8

/-- What happens while a need is handled: the retrieval, and whether the result is sent. -/
structure HolderTurn where
  retrieval : List Item → JsString → ℕ → Except JsString (List Found)
  sent : Bool

structure Scored extends Candidate where
  score : Option NumberText

structure HolderOutput where
  rootCid : JsString
  queryHash : JsString
  holderNodeId : JsString
  partitionIndex : ℤ
  partitionCount : ℤ
  candidates : List Scored

variable (S : HolderHost) (h : Holder)

def normalizeCandidateK (value : Option Json) (fallback : ℕ) : Except JsString ℕ :=
  match value with
  | none | some .null => return fallback
  | some (.number n) =>
    match S.readNumber n with
    | some k =>
      if k.den = 1 ∧ 1 ≤ k ∧ k ≤ 8 then return k.num.toNat
      else throw (js "distributed candidateK must be 1..8")
    | none => throw (js "distributed candidateK must be 1..8")
  | some _ => throw (js "distributed candidateK must be 1..8")

/-- The blocks that were retrieved; that there are none is caught. -/
def relevant : Except JsString (List Found) → Except JsString (List Found)
  | .error message =>
    if message = js "context retrieval produced no relevant blocks" then return []
    else throw message
  | .ok found => return found

def candidate (queryHash : JsString) (found : Found) (localRank : ℕ) : Except JsString Scored := do
  let rank : Json := .number (.ofNat localRank)
  let bytes := bytesOr found.bytes found.text
  let receipt ← createDistributedHolderReceipt S.toSignatures h.identity h.rootCid queryHash found.id
    found.cid found.text (some bytes) h.partitionIndex h.partitionCount (some rank)
  return ⟨candidateOf found.id found.cid found.text (some bytes) (some rank) receipt, found.score⟩

/-- The candidates in their order, with their receipts. -/
def candidatesOf (queryHash : JsString) (found : List Found) : Except JsString (List Scored) :=
  found.zipIdx.mapM fun p => candidate S h queryHash p.1 (p.2 + 1)

/-- What is made of the input of an allowed need: a result, unless it throws. -/
def holderAnswer (input : Json) (turn : HolderTurn) :
    Except JsString (Except JsString HolderOutput) :=
  if asText (input.get (js "rootCid")) ≠ some h.rootCid then
    return .error (js "DISTRIBUTED_CONTEXT_INVALID_REQUEST")
  else match asText (input.get (js "query")) with
  | none => return .error (js "DISTRIBUTED_CONTEXT_INVALID_REQUEST")
  | some query =>
    if (trim query).length < 3 then
      return .error (js "DISTRIBUTED_CONTEXT_INVALID_REQUEST")
    else do
      let queryHash ← contextQueryHash S.toUnicode query
      if asText (input.get (js "queryHash")) ≠ some queryHash then
        return .error (js "DISTRIBUTED_CONTEXT_QUERY_HASH_MISMATCH")
      let requestedK ← normalizeCandidateK S (input.get (js "candidateK")) h.candidateK
      let localK := min (min requestedK h.candidateK) (max 1 h.blocks.length)
      let found ← relevant (turn.retrieval h.blocks query localK)
      let candidates ← candidatesOf S h queryHash found
      return .ok ⟨h.rootCid, queryHash, h.identity.nodeId, h.partitionIndex, h.partitionCount,
        candidates⟩

/-- `envelope.payload?.input || {}`. -/
def inputOf (envelope : Json) : Json :=
  match payloadField envelope "input" with
  | some input => if input.truthy then input else .object []
  | none => .object []

/-- `DistributedContextHolderHost.handleNeed`. -/
def holderHandleNeed (p : Event × HolderTurn) : List (Result HolderOutput) × Bool :=
  match p.1.need h.requestCapability with
  | none => ([], false)
  | some envelope =>
    let id := envelope.get (js "id")
    if !allows h.allowedRequesterIds envelope then
      send p.2.sent ⟨id, .error (js "DISTRIBUTED_CONTEXT_ACCESS_DENIED")⟩
    else match holderAnswer S h (inputOf envelope) p.2 with
    | .error _ => ([], true)
    | .ok body => send p.2.sent ⟨id, body⟩

/-! ### What is asked of a holder -/

/-- So many candidates are asked for: by a whole number from 1 to 8, or by nothing or `null`. -/
def CandidateCount (value : Option Json) (fallback k : ℕ) : Prop :=
  match value with
  | none | some .null => k = fallback
  | some (.number n) => ∃ q, S.readNumber n = some q ∧ (q.den = 1 ∧ 1 ≤ q ∧ q ≤ 8) ∧ k = q.num.toNat
  | some _ => False

/-- What the receipt of a block says can be signed. -/
def Signable (queryHash : JsString) (found : Found) (localRank : ℕ) : Prop :=
  (h.identity.nodeId ≠ [] ∧ h.identity.privateKeyPem ≠ []) ∧
  (receiptPayload h.rootCid queryHash ⟨h.identity.nodeId, h.partitionIndex, h.partitionCount⟩ found.id
    found.cid (bytesOr found.bytes found.text) (some (.number (.ofNat localRank)))).wellFormed = true

/-- The retrieval finds nothing, or blocks whose receipts can be signed. -/
def Retrieves (queryHash : JsString) : Except JsString (List Found) → Prop
  | .error message => message = js "context retrieval produced no relevant blocks"
  | .ok found => ∀ p ∈ found.zipIdx, Signable h queryHash p.1 (p.2 + 1)

/-- What is asked so is answered: something is left of the query and, where its hash is right, the count
    is one and the retrieval goes well. -/
def HolderSmooth (input : Json) (turn : HolderTurn) : Prop :=
  asText (input.get (js "rootCid")) = some h.rootCid →
  ∀ query, asText (input.get (js "query")) = some query → 3 ≤ (trim query).length →
    ∃ queryHash, contextQueryHash S.toUnicode query = .ok queryHash ∧
      (asText (input.get (js "queryHash")) = some queryHash →
        ∃ k, CandidateCount S (input.get (js "candidateK")) h.candidateK k ∧
          Retrieves h queryHash
            (turn.retrieval h.blocks query (min (min k h.candidateK) (max 1 h.blocks.length))))

/-- A need is answered, and the answer goes through. -/
def HolderCalm (p : Event × HolderTurn) : Prop :=
  ∀ envelope, p.1.need h.requestCapability = some envelope → p.2.sent = true ∧
    (allows h.allowedRequesterIds envelope = true → HolderSmooth S h (inputOf envelope) p.2)

variable {S h} {input : Json} {turn : HolderTurn}

theorem normalizeCandidateK_ok {value : Option Json} {fallback k : ℕ} :
    normalizeCandidateK S value fallback = .ok k ↔ CandidateCount S value fallback k := by
  unfold normalizeCandidateK CandidateCount
  split
  · exact pure_ok.trans eq_comm
  · exact pure_ok.trans eq_comm
  · next n =>
    cases S.readNumber n with
    | none => simp [throw, throwThe, MonadExceptOf.throw]
    | some q =>
      by_cases hq : q.den = 1 ∧ 1 ≤ q ∧ q ≤ 8
      · simp only [if_pos hq, pure_ok]
        simp [hq, eq_comm]
      · simp [throw_ne, hq]
  · simp [throw_ne]

theorem candidate_ok {queryHash : JsString} {found : Found} {localRank : ℕ} :
    (∃ c, candidate S h queryHash found localRank = .ok c) ↔ Signable h queryHash found localRank := by
  have hbytes : bytesOr (some (bytesOr found.bytes found.text)) found.text =
      bytesOr found.bytes found.text := by
    cases found.bytes with
    | none => rfl
    | some v => cases v <;> rfl
  simp only [candidate, createDistributedHolderReceipt, signValue, Json.canonicalize, Signable, bind_ok,
    guard_ok, pure_ok, hbytes]
  constructor
  · rintro ⟨-, -, ⟨hidentity, -, -, ⟨text, htext, -⟩, -⟩, -⟩
    refine ⟨not_or.mp hidentity, ?_⟩
    by_contra hbad
    rw [if_neg hbad] at htext
    cases htext
  · rintro ⟨hidentity, hgood⟩
    exact ⟨_, _, ⟨not_or.mpr hidentity, by simp, _, ⟨_, if_pos hgood, rfl⟩, rfl⟩, rfl⟩

theorem relevant_ok {queryHash : JsString} {retrieval : Except JsString (List Found)} :
    (∃ found, relevant retrieval = .ok found ∧ ∃ m, candidatesOf S h queryHash found = .ok m) ↔
      Retrieves h queryHash retrieval := by
  cases retrieval with
  | error message =>
    by_cases hnone : message = js "context retrieval produced no relevant blocks"
    · exact iff_of_true ⟨[], if_pos hnone, [], rfl⟩ hnone
    · simp [relevant, Retrieves, hnone, throw_ne]
  | ok found =>
    simp only [relevant, pure_ok, exists_eq_left', candidatesOf, mapM_ok, candidate_ok, Retrieves]

/-- What is asked so is answered, in one way or another. -/
theorem holderAnswer_ok : (∃ body, holderAnswer S h input turn = .ok body) ↔ HolderSmooth S h input turn := by
  unfold holderAnswer HolderSmooth
  by_cases hroot : asText (input.get (js "rootCid")) = some h.rootCid
  swap
  · simp [hroot, pure_ok]
  rw [if_neg (not_not.mpr hroot)]
  cases hquery : asText (input.get (js "query")) with
  | none => simp [pure_ok]
  | some query =>
    by_cases hshort : (trim query).length < 3
    · simp [hshort, pure_ok]
    · simp only [if_neg hshort, bind_ok, hroot, true_imp_iff, Option.some.injEq, forall_eq']
      constructor
      · rintro ⟨body, queryHash, hhash, hbody⟩ -
        refine ⟨queryHash, hhash, fun hmatch => ?_⟩
        rw [if_neg (not_not.mpr hmatch)] at hbody
        simp only [bind_ok] at hbody
        obtain ⟨k, hk, found, hfound, m, hm, -⟩ := hbody
        exact ⟨k, normalizeCandidateK_ok.mp hk, relevant_ok.mp ⟨found, hfound, m, hm⟩⟩
      · intro hsmooth
        obtain ⟨queryHash, hhash, hrest⟩ := hsmooth (not_lt.mp hshort)
        by_cases hmatch : asText (input.get (js "queryHash")) = some queryHash
        · obtain ⟨k, hk, hretrieves⟩ := hrest hmatch
          obtain ⟨found, hfound, m, hm⟩ := (relevant_ok (S := S)).mpr hretrieves
          refine ⟨.ok ⟨h.rootCid, queryHash, h.identity.nodeId, h.partitionIndex, h.partitionCount, m⟩,
            queryHash, hhash, ?_⟩
          rw [if_neg (not_not.mpr hmatch)]
          exact bind_ok.mpr ⟨k, normalizeCandidateK_ok.mpr hk,
            bind_ok.mpr ⟨found, hfound, bind_ok.mpr ⟨m, hm, rfl⟩⟩⟩
        · exact ⟨_, queryHash, hhash, if_pos hmatch⟩

/-! ### What is sent -/

/-- Exactly one result for each need of an allowed requester, one refusal for each other need, and
    nothing else; the loop goes on, and each event of each batch has been handled. -/
structure Serves {τ α : Type} (handle : Event × τ → List (Result α) × Bool)
    (requestCapability : JsString) (allowed : List JsString) (denial : JsString)
    (polls : List (Option (List (Event × τ)))) : Prop where
  all : serve handle polls = ((received polls).flatMap fun p => (handle p).1, false)
  answered : ∀ p ∈ received polls, ∀ id, Authorized requestCapability allowed p.1 id →
    ∃ body, (handle p).1 = [⟨id, body⟩]
  refused : ∀ p ∈ received polls, ∀ id, Denied requestCapability allowed p.1 id →
    (handle p).1 = [⟨id, .error denial⟩]
  silent : ∀ p ∈ received polls, p.1.need requestCapability = none → (handle p).1 = []

/-- A handler that throws, or sends one result for a need and nothing otherwise, serves just when no poll
    throws and no event makes it throw. -/
theorem serves_iff {τ α : Type} {handle : Event × τ → List (Result α) × Bool}
    {requestCapability denial : JsString} {allowed : List JsString}
    {polls : List (Option (List (Event × τ)))}
    (hneed : ∀ p envelope, p.1.need requestCapability = some envelope → (handle p).2 = true ∨
      ∃ body, (handle p).1 = [⟨envelope.get (js "id"), body⟩] ∧
        (allows allowed envelope = false → body = .error denial))
    (hsilent : ∀ p, p.1.need requestCapability = none → handle p = ([], false)) :
    Serves handle requestCapability allowed denial polls ↔
      (∀ poll ∈ polls, poll ≠ none) ∧ ∀ p ∈ received polls, (handle p).2 = false := by
  have hcalm : ∀ p, (handle p).2 = false → ¬(handle p).2 = true := fun p hp => by simp [hp]
  refine ⟨fun h => serve_calm_iff.mp h.all, fun h => ⟨serve_calm_iff.mpr h, ?_, ?_, fun p _ hnone => by
    rw [hsilent p hnone]⟩⟩
  · rintro p hp id ⟨envelope, henvelope, -, rfl⟩
    obtain ⟨body, hbody, -⟩ := (hneed p envelope henvelope).resolve_left (hcalm p (h.2 p hp))
    exact ⟨body, hbody⟩
  · rintro p hp id ⟨envelope, henvelope, hdenied, rfl⟩
    obtain ⟨body, hbody, hrefusal⟩ :=
      (hneed p envelope henvelope).resolve_left (hcalm p (h.2 p hp))
    rw [hbody, hrefusal hdenied]

theorem send_throws {α : Type} {ok : Bool} {result : Result α} : (send ok result).2 = !ok := by
  cases ok <;> rfl

theorem send_cases {α : Type} {ok : Bool} {result : Result α} :
    (send ok result).2 = true ∨ (send ok result).1 = [result] := by
  cases ok
  · exact .inl rfl
  · exact .inr rfl

theorem holderHandleNeed_need (p : Event × HolderTurn) (envelope : Json)
    (hneed : p.1.need h.requestCapability = some envelope) : (holderHandleNeed S h p).2 = true ∨
    ∃ body, (holderHandleNeed S h p).1 = [⟨envelope.get (js "id"), body⟩] ∧
      (allows h.allowedRequesterIds envelope = false →
        body = .error (js "DISTRIBUTED_CONTEXT_ACCESS_DENIED")) := by
  simp only [holderHandleNeed, hneed]
  cases allows h.allowedRequesterIds envelope with
  | false => exact send_cases.imp_right fun hsent => ⟨_, hsent, fun _ => rfl⟩
  | true =>
    simp only [Bool.not_true, Bool.false_eq_true, if_false]
    cases holderAnswer S h (inputOf envelope) p.2 with
    | error e => exact .inl rfl
    | ok body => exact send_cases.imp_right fun hsent => ⟨body, hsent, fun h => by cases h⟩

theorem holderHandleNeed_calm {p : Event × HolderTurn} :
    (holderHandleNeed S h p).2 = false ↔ HolderCalm S h p := by
  unfold holderHandleNeed HolderCalm
  cases p.1.need h.requestCapability with
  | none => simp
  | some envelope =>
    simp only [Option.some.injEq, forall_eq', ← holderAnswer_ok]
    cases allows h.allowedRequesterIds envelope with
    | false => simp [send_throws]
    | true =>
      cases holderAnswer S h (inputOf envelope) p.2 with
      | error e => simp
      | ok body => simp [send_throws]

/-- A holder serves just while no poll throws and each need is answered. -/
theorem holder_serves {polls : List (Option (List (Event × HolderTurn)))} :
    Serves (holderHandleNeed S h) h.requestCapability h.allowedRequesterIds
        (js "DISTRIBUTED_CONTEXT_ACCESS_DENIED") polls ↔
      (∀ poll ∈ polls, poll ≠ none) ∧ ∀ p ∈ received polls, HolderCalm S h p := by
  simp only [← holderHandleNeed_calm]
  exact serves_iff holderHandleNeed_need fun p hnone => by simp [holderHandleNeed, hnone]

end Truyn.Serving
