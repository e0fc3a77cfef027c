import Truyn.Trust.Assessment

/-! trust:lifecycle | certificates, revocations, and the attestations that are active

    An attestation is active when it is valid and fresh, its issuer has not revoked it, and
    certificates of its sources cover all lineage that it declares. `certificateIndex` holds one
    certificate for every source: the last of the list that is valid and not revoked. -/

namespace Truyn.Trust

structure CertificateBody where
  protocol : JsString
  version : ℤ
  sourceCommitment : JsString
  ownerNodeId : JsString
  originCommitments : List JsString
  publisherCommitments : List JsString
  generatorCommitments : List JsString
  parentCertificateIds : List JsString
  deriving DecidableEq

structure LineageCertificate where
  certificateId : JsString
  body : CertificateBody
  issuedAt : JsString
  expiresAt : JsString
  publicKey : JsString
  signature : JsString
  deriving DecidableEq

def sourceLineageCommitment (P : Platform) (sourceId : JsString) : JsString :=
  P.digest (.object [(js "sourceId", .string (trim (P.nfkc sourceId)))])

def CertificateBody.value (b : CertificateBody) : Value := .object [
  (js "generatorCommitments", strings b.generatorCommitments),
  (js "originCommitments", strings b.originCommitments),
  (js "ownerNodeId", .string b.ownerNodeId),
  (js "parentCertificateIds", strings b.parentCertificateIds),
  (js "protocol", .string b.protocol),
  (js "publisherCommitments", strings b.publisherCommitments),
  (js "sourceCommitment", .string b.sourceCommitment), (js "version", .number b.version)]

def verifyLineageCertificate (P : Platform) (c : LineageCertificate) (now : ℤ)
    (allowExpired : Bool) : Except String Unit := do
  if c.certificateId.isEmpty ∨ c.issuedAt.isEmpty ∨ c.expiresAt.isEmpty ∨ c.publicKey.isEmpty ∨
      c.signature.isEmpty then throw "lineage_certificate_missing_required_field"
  if c.body.protocol ≠ js "truyn-lineage-cert-v1" ∨ c.body.version ≠ 1 then
    throw "lineage_certificate_protocol_mismatch"
  if P.nodeIdFromPublicKey c.publicKey ≠ some c.body.ownerNodeId then
    throw "lineage_certificate_owner_key_mismatch"
  if js "truyn:lineage:" ++ P.hex c.body.value ≠ c.certificateId then
    throw "lineage_certificate_content_id_mismatch"
  match P.getTime c.issuedAt, P.getTime c.expiresAt with
  | some issued, some expires =>
    if expires ≤ issued then throw "lineage_certificate_time_invalid"
    if !allowExpired ∧ expires ≤ now then throw "lineage_certificate_expired"
    if !P.verifyValue (.object [(js "body", c.body.value),
        (js "certificateId", .string c.certificateId), (js "expiresAt", .string c.expiresAt),
        (js "issuedAt", .string c.issuedAt)]) c.signature c.publicKey then
      throw "lineage_certificate_signature_invalid"
  | _, _ => throw "lineage_certificate_time_invalid"

/-! ### Signed objects -/

/-- `{ objectId, body, signerNodeId, [atField], publicKey, signature }`. -/
structure Signed (β : Type) where
  objectId : JsString
  body : β
  signerNodeId : JsString
  atValue : JsString
  publicKey : JsString
  signature : JsString

/-- What `verifyObject` is told of a kind of objects; `signedValue` is what their signers sign. -/
structure Kind (β : Type) where
  label : String
  protocol : JsString
  protocolOf : β → JsString
  versionOf : β → ℤ
  value : β → Value
  signedValue : Signed β → Value

def verifyObject {β : Type} (P : Platform) (kind : Kind β) (o : Signed β) : Except String Unit := do
  if o.objectId.isEmpty ∨ o.signerNodeId.isEmpty ∨ o.atValue.isEmpty ∨ o.publicKey.isEmpty ∨
      o.signature.isEmpty then throw (kind.label ++ "_missing_required_field")
  if kind.protocolOf o.body ≠ kind.protocol ∨ kind.versionOf o.body ≠ 1 then
    throw (kind.label ++ "_protocol_mismatch")
  if P.nodeIdFromPublicKey o.publicKey ≠ some o.signerNodeId then
    throw (kind.label ++ "_signer_key_mismatch")
  if js ("truyn:" ++ kind.label ++ ":") ++ P.hex (.object [(js "body", kind.value o.body),
      (js "signerNodeId", .string o.signerNodeId)]) ≠ o.objectId then
    throw (kind.label ++ "_content_id_mismatch")
  if !P.verifyValue (kind.signedValue o) o.signature o.publicKey then
    throw (kind.label ++ "_signature_invalid")

structure RevocationBody where
  protocol : JsString
  version : ℤ
  targetType : JsString
  targetId : JsString
  reasonDigest : Option JsString

abbrev Revocation := Signed RevocationBody

def RevocationBody.value (b : RevocationBody) : Value := .object [
  (js "protocol", .string b.protocol), (js "reasonDigest", nullable b.reasonDigest),
  (js "targetId", .string b.targetId), (js "targetType", .string b.targetType),
  (js "version", .number b.version)]

def revocationKind : Kind RevocationBody where
  label := "trust-revoke"
  protocol := js "truyn-trust-revoke-v1"
  protocolOf := RevocationBody.protocol
  versionOf := RevocationBody.version
  value := RevocationBody.value
  signedValue o := .object [(js "body", o.body.value), (js "objectId", .string o.objectId),
    (js "revokedAt", .string o.atValue), (js "signerNodeId", .string o.signerNodeId)]

def verifyTrustRevocation (P : Platform) (revocation : Revocation) : Except String Unit :=
  verifyObject P revocationKind revocation

structure DisputeBody where
  protocol : JsString
  version : ℤ
  claimId : JsString
  targetAttestationIds : List JsString
  groundsDigest : JsString
  evidenceCommitments : List JsString

abbrev Dispute := Signed DisputeBody

def DisputeBody.value (b : DisputeBody) : Value := .object [(js "claimId", .string b.claimId),
  (js "evidenceCommitments", strings b.evidenceCommitments),
  (js "groundsDigest", .string b.groundsDigest), (js "protocol", .string b.protocol),
  (js "targetAttestationIds", strings b.targetAttestationIds), (js "version", .number b.version)]

def disputeKind : Kind DisputeBody where
  label := "dispute"
  protocol := js "truyn-dispute-v1"
  protocolOf := DisputeBody.protocol
  versionOf := DisputeBody.version
  value := DisputeBody.value
  signedValue o := .object [(js "body", o.body.value), (js "createdAt", .string o.atValue),
    (js "objectId", .string o.objectId), (js "signerNodeId", .string o.signerNodeId)]

def verifyDispute (P : Platform) (dispute : Dispute) (expectedClaimId : JsString) :
    Except String Unit := do
  verifyObject P disputeKind dispute
  if !expectedClaimId.isEmpty ∧ dispute.body.claimId ≠ expectedClaimId then
    throw "dispute_claim_mismatch"

/-- `.ok`. -/
def ok : Except String Unit → Bool
  | .ok _ => true
  | .error _ => false

/-! ### Revocations and certificates -/

def validRevocations (P : Platform) (revocations : List Revocation) : List Revocation :=
  revocations.filter fun item => ok (verifyTrustRevocation P item)

def revokedByIssuer (P : Platform) (targetType : String) (targetId issuerNodeId : JsString)
    (revocations : List Revocation) : Bool :=
  (validRevocations P revocations).any fun item => item.body.targetType = js targetType ∧
    item.body.targetId = targetId ∧ item.signerNodeId = issuerNodeId

/-- The certificate is valid, and its owner has not revoked it. -/
def stands (P : Platform) (revocations : List Revocation) (now : ℤ) (c : LineageCertificate) :
    Bool :=
  ok (verifyLineageCertificate P c now false) &&
    !revokedByIssuer P "lineage-certificate" c.certificateId c.body.ownerNodeId revocations

/-- `certs.get`, of the index. -/
abbrev Index := JsString → Option LineageCertificate

def certificateIndex (P : Platform) (certificates : List LineageCertificate)
    (revocations : List Revocation) (now : ℤ) : Index :=
  certificates.foldl (fun map certificate =>
    if stands P revocations now certificate then
      fun k => if k = certificate.body.sourceCommitment then some certificate else map k
    else map) fun _ => none

inductive Dimension
  | originIds
  | publisherIds
  | generatorIds
  deriving DecidableEq

def dimensions : List Dimension := [.originIds, .publisherIds, .generatorIds]

/-- `declared[dimension]`. -/
def Dimension.declared : Dimension → Lineage → List JsString
  | .originIds => Lineage.originIds
  | .publisherIds => Lineage.publisherIds
  | .generatorIds => Lineage.generatorIds

/-- What a certificate adds to `certified[dimension]`. -/
def Dimension.certified : Dimension → CertificateBody → List JsString
  | .originIds => CertificateBody.originCommitments
  | .publisherIds => CertificateBody.publisherCommitments
  | .generatorIds => CertificateBody.generatorCommitments

/-- `list(declared[dimension])`. -/
def declaredIds (a : Attestation) (d : Dimension) : List JsString :=
  normalizeStringList (d.declared a.body.lineage) 64

def declaredLineageIsCertified (P : Platform) (a : Attestation) (certs : Index) : Bool :=
  let sourceCerts := a.body.evidence.filterMap fun e =>
    certs (sourceLineageCommitment P e.sourceId)
  if sourceCerts.isEmpty then false
  else
    dimensions.all (fun d => (declaredIds a d).all fun id =>
      sourceLineageCommitment P id ∈ sourceCerts.flatMap fun c => d.certified c.body) &&
    decide (0 < (dimensions.map fun d => (declaredIds a d).length).sum)

/-! ### Assessment -/

structure ActiveTrustRequest where
  claim : Claim
  attestations : List Attestation := []
  lineageCertificates : List LineageCertificate := []
  revocations : List Revocation := []
  disputes : List Dispute := []
  authorizedDisputerNodeIds : List JsString := []
  retrievalProvenance : Option Value := none
  policy : PolicyInput := {}
  now : ℤ
  maxAttestationAgeMs : ℤ := 24 * 60 * 60000
  maxFutureSkewMs : ℤ := 5 * 60000

inductive LifecycleStatus
  | revoked
  | staleOrUncertified
  | of (status : Status)
  deriving DecidableEq

/-- What is returned; `lifecycleStatus` and `reason` stand in the place of those of
    `truthAssessment`. -/
structure ActiveTrust where
  claimId : JsString
  lifecycleStatus : LifecycleStatus
  reason : String
  retrievalIntegrity : Option Retrieval
  truthAssessment : Option TruthAssessment
  activeAttestations : ℕ
  staleAttestations : ℕ
  revokedAttestations : ℕ
  uncertifiedAttestations : ℕ
  activeDisputes : ℕ
  provenanceGraphDigest : Option JsString

/-- The local variables of the loop over the attestations. -/
structure Sifting where
  active : List Attestation
  staleAttestations : ℕ
  revokedAttestations : ℕ
  uncertifiedAttestations : ℕ

/-- The attestation is neither too old nor from the future. -/
def fresh (P : Platform) (q : ActiveTrustRequest) (a : Attestation) : Bool :=
  match P.getTime a.createdAt with
  | none => false
  | some created =>
    !(q.maxAttestationAgeMs < q.now - created || q.maxFutureSkewMs < created - q.now)

def sift (P : Platform) (q : ActiveTrustRequest) (certs : Index) (s : Sifting) (a : Attestation) :
    Sifting :=
  if !ok (verifyAttestation P a q.claim.claimId) then s
  else if revokedByIssuer P "attestation" a.attestationId a.attesterNodeId q.revocations then
    { s with revokedAttestations := s.revokedAttestations + 1 }
  else if !fresh P q a then { s with staleAttestations := s.staleAttestations + 1 }
  else if !declaredLineageIsCertified P a certs then
    { s with uncertifiedAttestations := s.uncertifiedAttestations + 1 }
  else { s with active := s.active ++ [a] }

def siftAll (P : Platform) (q : ActiveTrustRequest) : Sifting :=
  q.attestations.foldl
    (sift P q (certificateIndex P q.lineageCertificates q.revocations q.now)) ⟨[], 0, 0, 0⟩

/-- `revokedByIssuer('claim', claim.claimId, claim.issuedBy, revocations)`. -/
def claimRevoked (P : Platform) (q : ActiveTrustRequest) : Bool :=
  revokedByIssuer P "claim" q.claim.claimId q.claim.issuedBy q.revocations

def assessActiveTrust (P : Platform) (q : ActiveTrustRequest) : Except String ActiveTrust := do
  (verifyClaim P q.claim).mapError ("invalid claim: " ++ ·)
  if claimRevoked P q then
    return ⟨q.claim.claimId, .revoked, "claim_revoked", none, none, 0, 0, q.attestations.length, 0, 0,
      none⟩
  let s := siftAll P q
  let base ← assessClaimEvidence P q.claim s.active q.retrievalProvenance q.policy
  let validDisputes := q.disputes.filter fun d =>
    ok (verifyDispute P d q.claim.claimId) && q.authorizedDisputerNodeIds.contains d.signerNodeId
  let status := base.truthAssessment.status
  let (lifecycleStatus, reason) : LifecycleStatus × String :=
    if 0 < validDisputes.length ∧ status ≠ .retrievalUnverified then
      (.of .disputed, "active_authorized_dispute_present")
    else if s.active.length = 0 ∧ (0 < s.staleAttestations ∨ 0 < s.uncertifiedAttestations ∨
        0 < s.revokedAttestations) then
      (.staleOrUncertified, "no_fresh_certified_attestations")
    else (.of status, base.truthAssessment.reason)
  return ⟨q.claim.claimId, lifecycleStatus, reason, some base.retrievalIntegrity,
    some base.truthAssessment, s.active.length, s.staleAttestations, s.revokedAttestations,
    s.uncertifiedAttestations, validDisputes.length, some base.provenanceGraph.graphDigest⟩

end Truyn.Trust
