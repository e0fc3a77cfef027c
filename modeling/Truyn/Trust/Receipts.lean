import Truyn.Trust.Assessment

/-! trust:receipts | signed records of an assessment

    `createTrustReceipt` assesses a claim, and signs what came out together with the digest of the
    provenance graph and commitments to the attestations. -/

namespace Truyn.Trust

structure ReceiptPayload where
  claimId : JsString
  claimDigest : JsString
  retrievalIntegrity : Retrieval
  truthAssessment : TruthAssessment
  policy : Policy
  provenanceGraphDigest : JsString
  attestationCommitments : List JsString

structure TrustReceipt where
  receiptId : JsString
  payload : ReceiptPayload
  verifierNodeId : JsString
  createdAt : JsString
  publicKey : JsString
  signature : JsString

structure Identity where
  nodeId : JsString
  publicKeyPem : JsString
  privateKeyPem : JsString

/-! ### What is digested -/

/-- What a digest refuses: a member that is `undefined`. -/
def defined : Option Value → Except String Value
  | some v => .ok v
  | none => .error "TCJ1 requires JSON value"

def Retrieval.value : Retrieval → Except String Value
  | .notBound => .ok (.object [(js "reason", .string (js "not_retrieval_bound")),
      (js "required", .bool false), (js "verified", .null)])
  | .failed reason => .ok (.object [(js "reason", .string (js reason)),
      (js "required", .bool true), (js "verified", .bool false)])
  | .bound rootCid queryHash provenanceDigest selectedEvidence => do
    let rootCid ← defined rootCid
    let queryHash ← defined queryHash
    pure (.object [(js "provenanceDigest", .string provenanceDigest), (js "queryHash", queryHash),
      (js "required", .bool true), (js "rootCid", rootCid),
      (js "selectedEvidence", .number selectedEvidence), (js "verified", .bool true)])

def TruthAssessment.value (t : TruthAssessment) : Value := .object [
  (js "calibratedTruthProbability", .null), (js "contradictGroups", .number t.contradictGroups),
  (js "evidenceBalance", (t.evidenceBalance.map Value.number).getD .null),
  (js "independentKnownGroups", .number t.independentKnownGroups),
  (js "mixedGroups", .number t.mixedGroups), (js "rawAttestations", .number t.rawAttestations),
  (js "reason", .string (js t.reason)), (js "status", .string t.status.text),
  (js "supportGroups", .number t.supportGroups),
  (js "uncertainGroups", .number t.uncertainGroups),
  (js "unknownLineageGroups", .number t.unknownLineageGroups)]

def Policy.value (p : Policy) : Value := .object [
  (js "maxContradictForVerified", .number p.maxContradictForVerified),
  (js "minIndependentSupport", .number p.minIndependentSupport),
  (js "requireKnownLineage", .bool p.requireKnownLineage), (js "version", .number 1)]

def ReceiptPayload.value (p : ReceiptPayload) : Except String Value := do
  let retrievalIntegrity ← p.retrievalIntegrity.value
  pure (.object [(js "attestationCommitments", strings p.attestationCommitments),
    (js "claimDigest", .string p.claimDigest), (js "claimId", .string p.claimId),
    (js "policy", p.policy.value), (js "protocol", .string (js "truyn-trust-receipt-v1")),
    (js "provenanceGraphDigest", .string p.provenanceGraphDigest),
    (js "retrievalIntegrity", retrievalIntegrity), (js "truthAssessment", p.truthAssessment.value),
    (js "version", .number 1)])

/-! ### Signing -/

def attestationCommitment (P : Platform) (a : Attestation) : JsString := P.digest (.object [
  (js "attestationId", .string a.attestationId), (js "attesterNodeId", .string a.attesterNodeId),
  (js "verdict", .string a.body.verdict.text)])

/-- `payload`, in `createTrustReceipt`. -/
def payloadOf (P : Platform) (claim : Claim) (attestations : List Attestation)
    (assessment : Assessment) : ReceiptPayload where
  claimId := claim.claimId
  claimDigest := claimDigest P claim
  retrievalIntegrity := assessment.retrievalIntegrity
  truthAssessment := assessment.truthAssessment
  policy := assessment.policy
  provenanceGraphDigest := assessment.provenanceGraph.graphDigest
  attestationCommitments := sortStrings (attestations.map (attestationCommitment P))

def createTrustReceipt (P : Platform) (identity : Identity) (claim : Claim)
    (attestations : List Attestation) (retrievalProvenance : Option Value) (policy : PolicyInput)
    (createdAt : JsString) : Except String TrustReceipt := do
  if identity.nodeId.isEmpty ∨ identity.publicKeyPem.isEmpty ∨ identity.privateKeyPem.isEmpty then
    throw "trust receipt verifier identity is required"
  if P.nodeIdFromPublicKey identity.publicKeyPem ≠ some identity.nodeId then
    throw "trust receipt verifier identity key mismatch"
  let assessment ← assessClaimEvidence P claim attestations retrievalProvenance policy
  let payload := payloadOf P claim attestations assessment
  let value ← payload.value
  let receiptId := js "truyn:trust:" ++ P.hex (.object [(js "payload", value),
    (js "verifierNodeId", .string identity.nodeId)])
  let signed : Value := .object [(js "createdAt", .string createdAt), (js "payload", value),
    (js "receiptId", .string receiptId), (js "verifierNodeId", .string identity.nodeId)]
  return ⟨receiptId, payload, identity.nodeId, createdAt, identity.publicKeyPem,
    P.signValue signed identity.privateKeyPem⟩

variable {P : Platform} {identity : Identity} {claim : Claim} {l : List Attestation}
  {rp : Option Value} {policy : PolicyInput} {createdAt : JsString} {r : TrustReceipt}

/-- A receipt is about an assessment. -/
theorem createTrustReceipt_payload
    (h : createTrustReceipt P identity claim l rp policy createdAt = .ok r) :
    ∃ a, assessClaimEvidence P claim l rp policy = .ok a ∧ r.payload = payloadOf P claim l a := by
  unfold createTrustReceipt at h
  by_cases hmissing : identity.nodeId.isEmpty ∨ identity.publicKeyPem.isEmpty ∨
      identity.privateKeyPem.isEmpty
  · rw [if_pos hmissing] at h
    cases h
  by_cases hkey : P.nodeIdFromPublicKey identity.publicKeyPem ≠ some identity.nodeId
  · rw [if_neg hmissing, if_pos hkey] at h
    cases h
  rw [if_neg hmissing, if_neg hkey] at h
  cases ha : assessClaimEvidence P claim l rp policy with
  | error e =>
    rw [ha] at h
    cases h
  | ok a =>
    rw [ha] at h
    cases hv : (payloadOf P claim l a).value with
    | error e => simp [bind, Except.bind, hv] at h
    | ok v =>
      simp only [bind, Except.bind, pure, Except.pure, hv, Except.ok.injEq] at h
      exact ⟨a, rfl, by rw [← h]⟩

end Truyn.Trust
