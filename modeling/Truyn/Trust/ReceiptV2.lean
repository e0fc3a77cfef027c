import Truyn.Trust.Delegation

/-! trust:receipt-v2 | receipt-v2.js, receipts checked against the head of a log

    A receipt carries the head of a log, a digest of what is revoked at that head, and a list of what
    it says of its own subjects. The digest does not cover the list, so the list is what its author
    wants it to be. The caller's revocation state speaks of the ids that the caller asked for: one that
    was not asked for counts as not revoked (`revoked_refused_iff`). -/

namespace Truyn.Trust.Pki

open Checks

/-- The host of a log whose sorting keeps what it sorts. -/
structure SortingHost extends LogHost where
  sorts : ∀ l sorted, sortRevocations l = some sorted → sorted.Perm l

variable (H : PkiHost) (K : SortingHost)

/-! ### The revocation state of a log -/

structure RevocationItem where
  targetId : JsString
  revoked : Bool
  revocationEntryHash : Option Value
  revocationSequence : Option Value

structure RevocationState where
  logId : JsString
  sourceOwnerId : JsString
  sequence : ℚ
  headHash : JsString
  stateDigest : JsString
  relevant : List RevocationItem

/-- The REVOKE entries. -/
def revokes (entry : Value) : Bool := strictEq (entry.get "eventType") (some (.string (js "REVOKE")))

def sortedRevocations (entries : List Value) : Except String (List Value) := do
  let revocations ← (entries.filter revokes).mapM revocation
  orThrow (K.sortRevocations revocations) "Cannot read properties of null (reading 'localeCompare')"

/-- What is said of an id: `revocations.filter(...).at(-1) || null`. -/
def relevantItem (revocations : List Value) (targetId : JsString) : RevocationItem :=
  let matching := (revocations.filter fun entry =>
    strictEq (entry.get "targetId") (some (.string targetId))).getLast?
  { targetId := targetId
    revoked := matching.isSome
    revocationEntryHash := (matching.bind (Value.get "entryHash")).filter fun v => truthy (some v)
    revocationSequence := (matching.bind (Value.get "sequence")).filter fun v => truthy (some v) }

def revocationState (log : Log) (entries : List Value) (relevantTargetIds : List JsString) :
    Except String RevocationState := do
  let revocations ← sortedRevocations K entries
  let stateDigest ← stateDigest K.toLogHost log entries
  pure
    { logId := log.logId K.toPlatform
      sourceOwnerId := log.sourceOwnerId
      sequence := lastSequence entries
      headHash := headHash entries
      stateDigest := stateDigest
      relevant := (sortStrings (setOf relevantTargetIds)).map (relevantItem revocations) }

/-! ### The receipt -/

/-- `new Map(relevant.map((item) => [item.targetId, item]))`. -/
def relevantMap (relevant : Option Value) : Except String (List (Option Value × Value)) := do
  let items ← listOf relevant
  items.mapM fun item =>
    match item with
    | .null => .error "Cannot read properties of null (reading 'targetId')"
    | item => .ok (item.get "targetId", item)

/-- `map.get(key)`: the last that was set. -/
def lookup {α : Type} (map : List (Option Value × α)) (key : Option Value) : Option α :=
  (map.reverse.find? fun p => strictEq p.1 key).map Prod.snd

/-- `map.get(key)?.revoked`. -/
def saysRevoked (map : List (Option Value × Value)) (key : Option Value) : Bool :=
  truthy ((lookup map key).bind (Value.get "revoked"))

def validateCommittedState (lifecycleHead revocationState sourceOwnerId delegationId
    claimId : Option Value) : Except String Unit := do
  if !truthy lifecycleHead ∨ !truthy revocationState then
    throw "trust receipt v2 requires lifecycleHead and revocationState"
  let head := lifecycleHead.getD .null
  let state := revocationState.getD .null
  if !strictEq (head.get "sourceOwnerId") sourceOwnerId ∨
      !strictEq (state.get "sourceOwnerId") sourceOwnerId then
    throw "trust receipt v2 source owner state mismatch"
  if !strictEq (head.get "logId") (state.get "logId") ∨
      !strictEq (head.get "sequence") (state.get "sequence") ∨
      !strictEq (head.get "headHash") (state.get "headHash") then
    throw "trust receipt v2 lifecycle/revocation head mismatch"
  if !strictEq (head.get "revocationStateDigest") (state.get "stateDigest") then
    throw "trust receipt v2 revocation digest mismatch"
  let relevant ← relevantMap (state.get "relevant")
  if (lookup relevant delegationId).isNone ∨ (lookup relevant claimId).isNone then
    throw "trust receipt v2 revocation state lacks relevant subjects"
  if saysRevoked relevant delegationId then throw "trust receipt v2 verifier delegation is revoked"
  if saysRevoked relevant claimId then throw "trust receipt v2 claim is revoked"

/-- A member of a member. -/
def at2 (v : Value) (key key' : String) : Option Value := (member v key).get key'

def ownerOf (receipt : Value) : Option Value := at2 receipt "authorityChain" "ownerCertificate"
def delegationOf (receipt : Value) : Option Value := at2 receipt "authorityChain" "delegation"

/-- The ids that a receipt relies on. -/
def delegationId (receipt : Value) : Option Value := (delegationOf receipt).bind (Value.get "delegationId")
def claimId (receipt : Value) : Option Value := at2 receipt "payload" "claimId"

def authorityChainDigest (ownerCertificate delegation : Option Value) : Except String JsString := do
  let delegation ← defined delegation
  let ownerCertificate ← defined ownerCertificate
  let hash ← contentHash H
    (.object [(js "delegation", delegation), (js "ownerCertificate", ownerCertificate)])
  pure (js "sha256:" ++ hash)

/-- A head as a caller has it from a log. -/
structure CurrentHead where
  logId : JsString
  head : Head

def checkLifecycleHead (receipt : Value) (current : CurrentHead) : Except String Unit :=
  let committed := member (member receipt "payload") "lifecycleHead"
  if !strictEq (committed.get "logId") (some (.string current.logId)) ∨
      !strictEq (committed.get "sequence") (some (.number current.head.sequence)) ∨
      !strictEq (committed.get "headHash") (some (.string current.head.headHash)) then
    throw "trust_receipt_v2_lifecycle_head_stale"
  else pure ()

/-- `relevant.get(key)?.revoked`, of the caller's own state. -/
def RevocationState.revoked (current : RevocationState) (key : Option Value) : Bool :=
  ((lookup (current.relevant.map fun item => (some (Value.string item.targetId), item)) key).map
    RevocationItem.revoked).getD false

def checkRevocationState (receipt : Value) (current : RevocationState) : Except String Unit := do
  let committed := member (member receipt "payload") "revocationState"
  if !strictEq (committed.get "logId") (some (.string current.logId)) ∨
      !strictEq (committed.get "sequence") (some (.number current.sequence)) ∨
      !strictEq (committed.get "headHash") (some (.string current.headHash)) ∨
      !strictEq (committed.get "stateDigest") (some (.string current.stateDigest)) then
    throw "trust_receipt_v2_revocation_state_stale"
  if current.revoked (delegationId receipt) then throw "trust_receipt_v2_verifier_revoked"
  if current.revoked (claimId receipt) then throw "trust_receipt_v2_claim_revoked"

structure AcceptedReceipt where
  receiptId : Option Value
  status : Option Value
  lifecycleHeadHash : Option Value
  revocationStateDigest : Option Value
  sourceOwnerId : Option Value

def verifyTrustReceiptV2 (receipt : Value) (expectedClaimId : Option JsString)
    (currentLifecycleHead : Option CurrentHead) (currentRevocationState : Option RevocationState)
    (now : ℤ) : Except String AcceptedReceipt := do
  if !(["receiptId", "payload", "verifierNodeId", "createdAt", "authorityChain", "publicKey",
      "signature"].all fun k => truthy (receipt.get k)) then
    throw "trust_receipt_v2_missing_required_field"
  let payload := member receipt "payload"
  if !strictEq (payload.get "protocol") (some (.string (js "truyn-trust-receipt-v2"))) ∨
      !strictEq (payload.get "version") (some (.number 2)) then
    throw "trust_receipt_v2_protocol_mismatch"
  if expectedClaimId.any fun c => c ≠ [] ∧ !strictEq (claimId receipt) (some (.string c)) then
    throw "trust_receipt_v2_claim_mismatch"
  let nodeId ← nodeIdFromPublicKey H (member receipt "publicKey")
  if !strictEq (receipt.get "verifierNodeId") (some (.string nodeId)) then
    throw "trust_receipt_v2_verifier_key_mismatch"
  let chainDigest ← authorityChainDigest H (ownerOf receipt) (delegationOf receipt)
  let authority := member payload "verifierAuthority"
  if !strictEq (authority.get "authorityChainDigest") (some (.string chainDigest)) then
    throw "trust_receipt_v2_authority_commitment_mismatch"
  let owner := (ownerOf receipt).getD .null
  let delegation := (delegationOf receipt).getD .null
  let ownerId ← verifySourceOwnerCertificate H owner now
  let (_, _, delegateNodeId) ← verifyDelegationCertificate H delegation owner now
    (some (js "trust.verify"))
  if !strictEq delegateNodeId (receipt.get "verifierNodeId") then
    throw "trust_receipt_v2_delegate_mismatch"
  if !strictEq (authority.get "sourceOwnerId") ownerId ∨
      !strictEq (authority.get "delegationId") (delegationId receipt) then
    throw "trust_receipt_v2_authority_identity_mismatch"
  validateCommittedState (payload.get "lifecycleHead") (payload.get "revocationState") ownerId
    (delegationId receipt) (claimId receipt)
  let hash ← contentHash H (.object [(js "payload", payload),
    (js "verifierNodeId", member receipt "verifierNodeId")])
  if !strictEq (receipt.get "receiptId") (some (.string (js "truyn:trust:v2:" ++ hash))) then
    throw "trust_receipt_v2_content_id_mismatch"
  if !H.verifyValue (.object [(js "createdAt", member receipt "createdAt"), (js "payload", payload),
      (js "receiptId", member receipt "receiptId"),
      (js "verifierNodeId", member receipt "verifierNodeId")]) (member receipt "signature")
      (member receipt "publicKey") then throw "trust_receipt_v2_signature_invalid"
  currentLifecycleHead.elim (pure ()) (checkLifecycleHead receipt)
  currentRevocationState.elim (pure ()) (checkRevocationState receipt)
  pure
    { receiptId := receipt.get "receiptId"
      status := ((payload.get "truthAssessment").bind (Value.get "status")).filter fun v =>
        truthy (some v)
      lifecycleHeadHash := (member payload "lifecycleHead").get "headHash"
      revocationStateDigest := (member payload "revocationState").get "stateDigest"
      sourceOwnerId := authority.get "sourceOwnerId" }

/-! ### What is known to be revoked -/

/-- An entry of the log revokes the id. -/
def Revoked (entries : List Value) (id : Option Value) : Prop :=
  ∃ e ∈ entries, revokes e = true ∧ strictEq (e.get "targetId") id = true

/-- The caller asked for the id. -/
def Named (ids : List JsString) (id : Option Value) : Prop := ∃ s ∈ ids, id = some (.string s)

theorem mem_relevantItem {entries revocations : List Value}
    (h : sortedRevocations K entries = .ok revocations) (s : JsString) :
    (relevantItem revocations s).revoked = true ↔ Revoked entries (some (.string s)) := by
  simp only [sortedRevocations, bind_ok, orThrow_ok] at h
  obtain ⟨unsorted, hunsorted, hsorted⟩ := h
  have hmem : ∀ r, r ∈ revocations ↔ ∃ e ∈ entries.filter revokes, revocation e = .ok r := by
    intro r
    rw [(K.sorts _ _ hsorted).mem_iff]
    exact mem_mapM hunsorted
  have htarget : ∀ e r, revocation e = .ok r → r.get "targetId" = e.get "targetId" := by
    intro e r hr
    simp only [revocation, bind_ok, pure_ok] at hr
    obtain ⟨_, -, _, -, t, ht, rfl⟩ := hr
    cases hget : e.get "targetId" with
    | none =>
      rw [hget] at ht
      cases ht
    | some v =>
      rw [hget] at ht
      cases ht
      rfl
  rw [relevantItem, List.getLast?_isSome, ne_eq, List.filter_eq_nil_iff]
  push Not
  constructor
  · rintro ⟨r, hr, hs⟩
    obtain ⟨e, he, hrevocation⟩ := (hmem r).mp hr
    obtain ⟨hein, hrevokes⟩ := List.mem_filter.mp he
    exact ⟨e, hein, hrevokes, by rwa [← htarget e r hrevocation]⟩
  · rintro ⟨e, hein, hrevokes, hs⟩
    have hkept : e ∈ entries.filter revokes := List.mem_filter.mpr ⟨hein, hrevokes⟩
    obtain ⟨r, hr⟩ := mapM_ok.mp ⟨_, hunsorted⟩ e hkept
    exact ⟨r, (hmem r).mpr ⟨e, hkept, hr⟩, by rwa [htarget e r hr]⟩

/-- The state of a log says of an id that it is revoked exactly if it was asked for and is. -/
theorem revoked_iff {log : Log} {entries : List Value} {ids : List JsString}
    {current : RevocationState} (h : revocationState K log entries ids = .ok current)
    (id : Option Value) : current.revoked id = true ↔ Named ids id ∧ Revoked entries id := by
  simp only [revocationState, bind_ok, pure_ok] at h
  obtain ⟨revocations, hrevocations, _, -, rfl⟩ := h
  have hasked : ∀ s, s ∈ sortStrings (setOf ids) ↔ s ∈ ids := fun s => by
    rw [(sortStrings_perm _).mem_iff, mem_setOf]
  rw [RevocationState.revoked, lookup]
  simp only [List.map_map]
  cases hfind : (((sortStrings (setOf ids)).map
      ((fun item => (some (Value.string item.targetId), item)) ∘ relevantItem revocations)).reverse).find?
      fun p => strictEq p.1 id with
  | none =>
    refine ⟨fun hfalse => Bool.noConfusion hfalse, ?_⟩
    rintro ⟨⟨s, hs, rfl⟩, -⟩
    have hall := List.find?_eq_none.mp hfind
    exact absurd (strictEq_string.mpr rfl) (hall _ (List.mem_reverse.mpr
      (List.mem_map_of_mem ((hasked s).mpr hs))))
  | some p =>
    have hp := List.mem_reverse.mp (List.mem_of_find?_eq_some hfind)
    have heq := List.find?_some hfind
    obtain ⟨s, hs, rfl⟩ := List.mem_map.mp hp
    obtain rfl : id = some (.string s) := strictEq_of_string heq
    have hitem := mem_relevantItem K hrevocations s
    exact ⟨fun hrevoked => ⟨⟨s, (hasked s).mp hs, rfl⟩, hitem.mp hrevoked⟩, fun h => hitem.mpr h.2⟩

/-! ### What a receipt is accepted for -/

/-- What a receipt is checked for whatever its log says now. -/
structure Stands (receipt : Value) (expectedClaimId : Option JsString) (now : ℤ) : Prop where
  fields : ∀ k ∈ ["receiptId", "payload", "verifierNodeId", "createdAt", "authorityChain", "publicKey",
    "signature"], truthy (receipt.get k) = true
  protocol : at2 receipt "payload" "protocol" = some (.string (js "truyn-trust-receipt-v2"))
  version : at2 receipt "payload" "version" = some (.number 2)
  expected : ∀ c ∈ expectedClaimId, c ≠ [] → claimId receipt = some (.string c)
  verifier : ∃ f, H.publicKeyFingerprint (member receipt "publicKey") = some f ∧
    receipt.get "verifierNodeId" = some (.string (js "truyn:node:" ++ f))
  chain : ∃ t, authorityChainDigest H (ownerOf receipt) (delegationOf receipt) = .ok t ∧
    at2 (member receipt "payload") "verifierAuthority" "authorityChainDigest" = some (.string t)
  delegation : Genuine.Delegation H ((delegationOf receipt).getD .null) ((ownerOf receipt).getD .null) now
    (some (js "trust.verify"))
  ends : EndsWithin H ((delegationOf receipt).getD .null) ((ownerOf receipt).getD .null)
  delegate : strictEq ((member ((delegationOf receipt).getD .null) "body").get "delegateNodeId")
    (receipt.get "verifierNodeId") = true
  authority : strictEq (at2 (member receipt "payload") "verifierAuthority" "sourceOwnerId")
      ((member ((ownerOf receipt).getD .null) "body").get "sourceOwnerId") = true ∧
    strictEq (at2 (member receipt "payload") "verifierAuthority" "delegationId")
      (delegationId receipt) = true
  committed : validateCommittedState (at2 receipt "payload" "lifecycleHead")
    (at2 receipt "payload" "revocationState")
    ((member ((ownerOf receipt).getD .null) "body").get "sourceOwnerId") (delegationId receipt)
    (claimId receipt) = .ok ()
  content : ∃ t, contentHash H (.object [(js "payload", member receipt "payload"),
      (js "verifierNodeId", member receipt "verifierNodeId")]) = .ok t ∧
    receipt.get "receiptId" = some (.string (js "truyn:trust:v2:" ++ t))
  signed : H.verifyValue (.object [(js "createdAt", member receipt "createdAt"),
    (js "payload", member receipt "payload"), (js "receiptId", member receipt "receiptId"),
    (js "verifierNodeId", member receipt "verifierNodeId")]) (member receipt "signature")
    (member receipt "publicKey") = true

/-- The receipt names the head and the digest of this log. -/
structure Commits (receipt : Value) (head : CurrentHead) (state : RevocationState) : Prop where
  head : checkLifecycleHead receipt head = .ok ()
  logId : at2 (member receipt "payload") "revocationState" "logId" = some (.string state.logId)
  sequence : at2 (member receipt "payload") "revocationState" "sequence" = some (.number state.sequence)
  headHash : at2 (member receipt "payload") "revocationState" "headHash" = some (.string state.headHash)
  stateDigest : at2 (member receipt "payload") "revocationState" "stateDigest" =
    some (.string state.stateDigest)

theorem elim_some_ok {α : Type} (a : α) (f : α → Except String Unit) :
    ((some a).elim (pure ()) f : Except String Unit) = f a := rfl

theorem expected_iff {found : Option Value} {expectedClaimId : Option JsString} :
    (expectedClaimId.any fun c => decide (c ≠ [] ∧ strictEq found (some (.string c)) = false)) = false ↔
      ∀ c ∈ expectedClaimId, c ≠ [] → found = some (.string c) := by
  cases expectedClaimId with
  | none => simp
  | some c =>
    rw [Option.any_some, decide_eq_false_iff_not, not_and, Bool.not_eq_false, strictEq_string]
    simp

/-- A receipt is accepted exactly if it stands by itself, commits to the log as it is, and names no id
    that the caller knows to be revoked. -/
theorem verifyTrustReceiptV2_ok {receipt : Value} {expectedClaimId : Option JsString}
    {head : CurrentHead} {state : RevocationState} {now : ℤ} :
    (∃ r, verifyTrustReceiptV2 H receipt expectedClaimId (some head) (some state) now = .ok r) ↔
      Stands H receipt expectedClaimId now ∧ Commits receipt head state ∧
        state.revoked (delegationId receipt) = false ∧ state.revoked (claimId receipt) = false := by
  unfold verifyTrustReceiptV2 checkRevocationState
  simp only [guard_ok, bind_ok, last_guard_ok, nodeIdFromPublicKey, fingerprint, map_ok, orThrow_ok,
    Bool.not_eq_true', Bool.not_eq_false, not_or, strictEq_string, strictEq_number, Bool.not_eq_true,
    pure_ok, List.all_eq_true, verifySourceOwnerCertificate_ok, verifyDelegationCertificate_ok,
    elim_some_ok, expected_iff]
  constructor
  · rintro ⟨_, hfields, ⟨hprotocol, hversion⟩, hexpected, _, ⟨f, hf, rfl⟩, hnode, t, ht, hchain, _,
      ⟨-, rfl⟩, _, ⟨⟨hdelegation, hends⟩, rfl⟩, hdelegate, hauthority, ⟨⟩, hcommitted, hash, hhash,
      hcontent, hsigned, ⟨⟩, hhead, -, ⟨⟨hlog, hsequence, hheadHash, hdigest⟩, hd, hc, -⟩, -⟩
    exact ⟨⟨hfields, hprotocol, hversion, hexpected, ⟨f, hf, hnode⟩, ⟨t, ht, hchain⟩, hdelegation, hends,
      hdelegate, hauthority, hcommitted, ⟨hash, hhash, hcontent⟩, hsigned⟩,
      ⟨hhead, hlog, hsequence, hheadHash, hdigest⟩, hd, hc⟩
  · rintro ⟨h, hcommits, hd, hc⟩
    obtain ⟨f, hf, hnode⟩ := h.verifier
    obtain ⟨t, ht, hchain⟩ := h.chain
    obtain ⟨hash, hhash, hcontent⟩ := h.content
    exact ⟨_, h.fields, ⟨h.protocol, h.version⟩, h.expected, _, ⟨f, hf, rfl⟩, hnode, t, ht, hchain, _,
      ⟨h.delegation.owner, rfl⟩, _, ⟨⟨h.delegation, h.ends⟩, rfl⟩, h.delegate, h.authority, (),
      h.committed, hash, hhash, hcontent, h.signed, (), hcommits.head, (),
      ⟨⟨hcommits.logId, hcommits.sequence, hcommits.headHash, hcommits.stateDigest⟩, hd, hc, trivial⟩,
      rfl⟩

/-- FRESHNESS: that a receipt accepted at the head of a log relies on nothing the log revokes holds
    exactly if the caller asked for a revoked one of the two ids, where there is one and the receipt
    stands otherwise. The list in the receipt plays no part. -/
theorem revoked_refused_iff (log : Log) (entries : List Value) (ids : List JsString) (receipt : Value)
    (expectedClaimId : Option JsString) (now : ℤ) :
    (∀ h state, head K.toLogHost log entries = .ok h → revocationState K log entries ids = .ok state →
      (∃ r, verifyTrustReceiptV2 H receipt expectedClaimId (some ⟨log.logId K.toPlatform, h⟩)
        (some state) now = .ok r) →
      ¬Revoked entries (delegationId receipt) ∧ ¬Revoked entries (claimId receipt)) ↔
    ∀ h state, head K.toLogHost log entries = .ok h → revocationState K log entries ids = .ok state →
      Stands H receipt expectedClaimId now → Commits receipt ⟨log.logId K.toPlatform, h⟩ state →
      Revoked entries (delegationId receipt) ∨ Revoked entries (claimId receipt) →
      (Named ids (delegationId receipt) ∧ Revoked entries (delegationId receipt)) ∨
        (Named ids (claimId receipt) ∧ Revoked entries (claimId receipt)) := by
  refine forall₄_congr fun h state _ hstate => ?_
  rw [verifyTrustReceiptV2_ok]
  have hd := revoked_iff K hstate (delegationId receipt)
  have hc := revoked_iff K hstate (claimId receipt)
  constructor
  · intro hfresh hstands hcommits hrevoked
    by_contra hunknown
    rw [not_or, ← hd, ← hc, Bool.not_eq_true, Bool.not_eq_true] at hunknown
    obtain ⟨hdelegation, hclaim⟩ := hfresh ⟨hstands, hcommits, hunknown.1, hunknown.2⟩
    exact hrevoked.elim hdelegation hclaim
  · rintro hknown ⟨hstands, hcommits, hdelegation, hclaim⟩
    rw [← not_or]
    intro hrevoked
    rcases hknown hstands hcommits hrevoked with hnamed | hnamed
    · exact Bool.eq_false_iff.mp hdelegation (hd.mpr hnamed)
    · exact Bool.eq_false_iff.mp hclaim (hc.mpr hnamed)

/-! ### A receipt whose delegation the log revokes -/

def sortingHost : SortingHost where
  toPlatform := plain
  numberOf _ := none
  sortRevocations := some
  sorts l sorted h := by
    cases h
    exact List.Perm.refl l

def sampleLog : Log := ⟨js "truyn:source-owner:owner"⟩

/-- The log revokes `wideDelegation`. -/
def sampleEntries : List Value :=
  (newEntry sortingHost.toLogHost sampleLog []
    { identity := ⟨js "owner", js "owner", js "secret"⟩, eventType := js "REVOKE"
      targetId := member wideDelegation "delegationId"
      createdAt := js "1970-01-01T00:00:00.000Z" }).toOption.toList

/-- The author says of both ids that they are not revoked. -/
def notRevoked (targetId : Value) : Value :=
  .object [(js "revoked", .bool false), (js "targetId", targetId)]

def samplePayload (digest : JsString) : Value := .object [(js "claimId", .string (js "claim")),
  (js "lifecycleHead", .object [(js "headHash", .string (headHash sampleEntries)),
    (js "logId", .string (sampleLog.logId sortingHost.toPlatform)),
    (js "revocationStateDigest", .string digest), (js "sequence", .number 1),
    (js "sourceOwnerId", .string sampleLog.sourceOwnerId)]),
  (js "protocol", .string (js "truyn-trust-receipt-v2")),
  (js "revocationState", .object [(js "headHash", .string (headHash sampleEntries)),
    (js "logId", .string (sampleLog.logId sortingHost.toPlatform)),
    (js "relevant", .array [notRevoked (member wideDelegation "delegationId"),
      notRevoked (.string (js "claim"))]), (js "sequence", .number 1),
    (js "sourceOwnerId", .string sampleLog.sourceOwnerId), (js "stateDigest", .string digest)]),
  (js "verifierAuthority", .object [(js "authorityChainDigest", .string (js "sha256:" ++ checksum
      (valueText (.object [(js "delegation", wideDelegation), (js "ownerCertificate", sampleOwner)])))),
    (js "delegationId", member wideDelegation "delegationId"),
    (js "sourceOwnerId", .string sampleLog.sourceOwnerId)]),
  (js "version", .number 2)]

def sampleReceipt (digest : JsString) : Value := .object [
  (js "authorityChain", .object [(js "delegation", wideDelegation),
    (js "ownerCertificate", sampleOwner)]),
  (js "createdAt", .string (toISOString 86400000)), (js "payload", samplePayload digest),
  (js "publicKey", .string (js "delegate")),
  (js "receiptId", .string (js "truyn:trust:v2:" ++ checksum (valueText (.object [
    (js "payload", samplePayload digest),
    (js "verifierNodeId", .string (js "truyn:node:delegate"))])))),
  (js "signature", .string (js "signed")),
  (js "verifierNodeId", .string (js "truyn:node:delegate"))]

theorem delegationId_sampleReceipt (digest : JsString) :
    delegationId (sampleReceipt digest) = wideDelegation.get "delegationId" := by
  unfold delegationId delegationOf sampleReceipt
  generalize wideDelegation = d
  rfl

/-- It is accepted at the head of that log, by a caller who asked for no id. -/
theorem revoked_delegation_accepted : ∃ h state digest,
    head sortingHost.toLogHost sampleLog sampleEntries = .ok h ∧
    revocationState sortingHost sampleLog sampleEntries [] = .ok state ∧
    (∃ r, verifyTrustReceiptV2 sampleHost (sampleReceipt digest) (some (js "claim"))
      (some ⟨sampleLog.logId sortingHost.toPlatform, h⟩) (some state) 86400000 = .ok r) ∧
    Revoked sampleEntries (delegationId (sampleReceipt digest)) := by
  have hok : (do
      let digest ← stateDigest sortingHost.toLogHost sampleLog sampleEntries
      let h ← head sortingHost.toLogHost sampleLog sampleEntries
      let state ← revocationState sortingHost sampleLog sampleEntries []
      verifyTrustReceiptV2 sampleHost (sampleReceipt digest) (some (js "claim"))
        (some ⟨sampleLog.logId sortingHost.toPlatform, h⟩) (some state) 86400000).isOk = true := by
    decide +kernel
  have hrevoked : sampleEntries.any (fun e => revokes e && strictEq (e.get "targetId")
      (wideDelegation.get "delegationId")) = true := by decide +kernel
  obtain ⟨r, hr⟩ := ok_of_isOk hok
  simp only [bind_ok] at hr
  obtain ⟨digest, -, h, hh, state, hstate, hr⟩ := hr
  refine ⟨h, state, digest, hh, hstate, ⟨r, hr⟩, ?_⟩
  obtain ⟨e, he, hboth⟩ := List.any_eq_true.mp hrevoked
  rw [Bool.and_eq_true] at hboth
  exact ⟨e, he, hboth.1, by rw [delegationId_sampleReceipt, hboth.2]⟩

end Truyn.Trust.Pki
