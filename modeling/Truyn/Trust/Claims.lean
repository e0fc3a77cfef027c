import Truyn.Js.Sets
import Truyn.Js.Json

/-! trust:claims | claims, attestations, and when they are valid

    A claim and an attestation carry a body in normal form, an id that is a digest of the body, and a
    signature over both. `Platform` is what the program takes from its surroundings: canonical JSON
    text, SHA-256, Ed25519 keys, and what a string is in Unicode. -/

namespace Truyn.Trust

/-- A JSON value with finite numbers; the members of an object are in canonical order. -/
inductive Value
  | null
  | bool (b : Bool)
  | number (x : ℚ)
  | string (s : JsString)
  | array (l : List Value)
  | object (members : List (JsString × Value))

/-! ### JSON values -/

/-- `value?.[key]`. -/
def Value.get (key : String) : Value → Option Value
  | .object members => (members.find? fun m => m.1 = js key).map Prod.snd
  | _ => none

/-- `Boolean(value)`; `none` is `undefined`. -/
def truthy : Option Value → Bool
  | none => false
  | some .null => false
  | some (.bool b) => b
  | some (.number x) => x ≠ 0
  | some (.string s) => !s.isEmpty
  | some _ => true

/-- `a === b`, where no two values share an array or an object. -/
def strictEq : Option Value → Option Value → Bool
  | none, none => true
  | some .null, some .null => true
  | some (.bool a), some (.bool b) => a = b
  | some (.number x), some (.number y) => x = y
  | some (.string s), some (.string t) => s = t
  | _, _ => false

/-- `value || []`, where an array is needed. -/
def listOf (value : Option Value) : Except String (List Value) :=
  if !truthy value then .ok []
  else match value with
    | some (.array l) => .ok l
    | _ => .error "map is not a function"

/-! ### The host -/

/-- What is taken from the host. `nodeIdFromPublicKey` throws where it gives `none`, `verifyValue` is
    `false` also where it throws, and `getTime` is `new Date(s).getTime()`, `none` for `NaN`. -/
structure Platform where
  canonicalize : Value → JsString
  sha256 : JsString → JsString
  nodeIdFromPublicKey : JsString → Option JsString
  signValue : Value → JsString → JsString
  verifyValue : Value → JsString → JsString → Bool
  getTime : JsString → Option ℤ
  nfkc : JsString → JsString
  toLowerCase : JsString → JsString
  collation : Collation

/-- `digest`. -/
def Platform.digest (P : Platform) (v : Value) : JsString :=
  js "sha256:" ++ P.sha256 (P.canonicalize v)

/-- `digest(value).slice('sha256:'.length)`. -/
def Platform.hex (P : Platform) (v : Value) : JsString := P.sha256 (P.canonicalize v)

def strings (l : List JsString) : Value := .array (l.map .string)

def nullable : Option JsString → Value
  | none => .null
  | some s => .string s

/-! ### Text -/

/-- `s.replace(/\s+/g, ' ')`; `inside` tells whether a run of white space goes on. -/
def collapse : Bool → JsString → JsString
  | _, [] => []
  | inside, c :: s =>
    if isSpace c then if inside then collapse true s else 32 :: collapse true s
    else c :: collapse false s

def normalizeText (P : Platform) (value : JsString) (label : String) (max : ℕ) :
    Except String JsString :=
  if (trim value).isEmpty then .error (label ++ " is required")
  else
    let normalized := trim (collapse false (P.nfkc value))
    if max < normalized.length then .error (label ++ " is too long") else .ok normalized

/-- `normalizeStringList`. -/
def normalizeStringList (l : List JsString) (max : ℕ) : List JsString :=
  (sortStrings (setOf ((l.map trim).filter fun s => !s.isEmpty))).take max

/-- `typeof value === 'string' && value.trim() ? value.trim() : null`. -/
def normalizeOptional (value : Option JsString) : Option JsString :=
  (value.map trim).filter fun s => !s.isEmpty

/-! ### Claims -/

structure ClaimBody where
  protocol : JsString
  version : ℤ
  domain : JsString
  statement : JsString
  subject : Option JsString
  basis : Value
  qualifiers : Value

structure Claim where
  claimId : JsString
  body : ClaimBody
  issuedBy : JsString
  createdAt : JsString
  publicKey : JsString
  signature : JsString

def ClaimBody.value (b : ClaimBody) : Value := .object [(js "basis", b.basis),
  (js "domain", .string b.domain), (js "protocol", .string b.protocol),
  (js "qualifiers", b.qualifiers), (js "statement", .string b.statement),
  (js "subject", nullable b.subject), (js "version", .number b.version)]

/-- `value && typeof value === 'object'`. -/
def Value.isObject : Value → Bool
  | .array _ => true
  | .object _ => true
  | _ => false

def claimContentId (P : Platform) (b : ClaimBody) : Except String (JsString × ClaimBody) := do
  let domain ← normalizeText P b.domain "claim domain" 256
  let statement ← normalizeText P b.statement "claim statement" 16384
  let subject ← b.subject.mapM fun s => normalizeText P s "claim subject" 2048
  let body : ClaimBody := ⟨js "truyn-claim-v1", 1, P.toLowerCase domain, statement, subject,
    if b.basis.isObject then b.basis else .null,
    if b.qualifiers.isObject then b.qualifiers else .object []⟩
  pure (js "truyn:claim:" ++ P.hex body.value, body)

def verifyClaim (P : Platform) (c : Claim) : Except String Unit := do
  if c.claimId.isEmpty ∨ c.issuedBy.isEmpty ∨ c.createdAt.isEmpty ∨ c.publicKey.isEmpty ∨
      c.signature.isEmpty then throw "claim_missing_required_field"
  if P.nodeIdFromPublicKey c.publicKey ≠ some c.issuedBy then throw "claim_issuer_key_mismatch"
  let (claimId, body) ← claimContentId P c.body
  if claimId ≠ c.claimId ∨ P.canonicalize body.value ≠ P.canonicalize c.body.value then
    throw "claim_content_id_mismatch"
  if !P.verifyValue (.object [(js "body", c.body.value), (js "claimId", .string c.claimId),
      (js "createdAt", .string c.createdAt), (js "issuedBy", .string c.issuedBy)])
      c.signature c.publicKey then throw "claim_signature_invalid"

/-- `claimDigest`. -/
def claimDigest (P : Platform) (c : Claim) : JsString :=
  P.digest (.object [(js "body", c.body.value), (js "claimId", .string c.claimId)])

/-! ### Attestations -/

inductive Verdict
  | support
  | contradict
  | uncertain
  | other (s : JsString)
  deriving DecidableEq

def Verdict.text : Verdict → JsString
  | .support => js "support"
  | .contradict => js "contradict"
  | .uncertain => js "uncertain"
  | .other s => s

structure Evidence where
  kind : JsString
  sourceId : JsString
  contentDigest : Option JsString
  parentSourceIds : List JsString
  deriving DecidableEq

structure Lineage where
  originIds : List JsString
  publisherIds : List JsString
  generatorIds : List JsString
  parentAttestationIds : List JsString
  deriving DecidableEq

structure AttestationBody where
  protocol : JsString
  version : ℤ
  claimId : JsString
  verdict : Verdict
  domain : JsString
  method : JsString
  evidence : List Evidence
  lineage : Lineage
  rationaleDigest : Option JsString
  deriving DecidableEq

structure Attestation where
  attestationId : JsString
  body : AttestationBody
  attesterNodeId : JsString
  createdAt : JsString
  publicKey : JsString
  signature : JsString
  deriving DecidableEq

def Evidence.value (e : Evidence) : Value := .object [(js "contentDigest", nullable e.contentDigest),
  (js "kind", .string e.kind), (js "parentSourceIds", strings e.parentSourceIds),
  (js "sourceId", .string e.sourceId)]

def Lineage.value (l : Lineage) : Value := .object [(js "generatorIds", strings l.generatorIds),
  (js "originIds", strings l.originIds),
  (js "parentAttestationIds", strings l.parentAttestationIds),
  (js "publisherIds", strings l.publisherIds)]

def AttestationBody.members (b : AttestationBody) : List (JsString × Value) :=
  [(js "claimId", .string b.claimId), (js "domain", .string b.domain),
    (js "evidence", .array (b.evidence.map Evidence.value)), (js "lineage", b.lineage.value),
    (js "method", .string b.method), (js "protocol", .string b.protocol),
    (js "rationaleDigest", nullable b.rationaleDigest), (js "verdict", .string b.verdict.text),
    (js "version", .number b.version)]

def AttestationBody.value (b : AttestationBody) : Value := .object b.members

/-- `{ ...body, attesterNodeId }`. -/
def AttestationBody.attested (b : AttestationBody) (attesterNodeId : JsString) : Value :=
  .object ((js "attesterNodeId", .string attesterNodeId) :: b.members)

def normalizeEvidence (P : Platform) (evidence : List Evidence) : Except String (List Evidence) := do
  if 64 < evidence.length then throw "attestation evidence exceeds limit"
  evidence.mapM fun item => do
    let kind ← normalizeText P (if item.kind.isEmpty then js "source" else item.kind)
      "evidence kind" 80
    let sourceId ← normalizeText P item.sourceId "evidence sourceId" 512
    pure ⟨kind, sourceId, normalizeOptional item.contentDigest,
      normalizeStringList item.parentSourceIds 32⟩

def normalizeLineage (l : Lineage) : Lineage where
  originIds := normalizeStringList l.originIds 64
  publisherIds := normalizeStringList l.publisherIds 64
  generatorIds := normalizeStringList l.generatorIds 64
  parentAttestationIds := normalizeStringList l.parentAttestationIds 64

/-- The body in normal form, with the protocol and the version that it must have. -/
def normalizedBody (P : Platform) (b : AttestationBody) : Except String AttestationBody := do
  let domain ← normalizeText P b.domain "claim domain" 256
  let method ← normalizeText P b.method "attestation method" 256
  let evidence ← normalizeEvidence P b.evidence
  pure ⟨js "truyn-attest-v1", 1, b.claimId, b.verdict, P.toLowerCase domain, method, evidence,
    normalizeLineage b.lineage, normalizeOptional b.rationaleDigest⟩

def attestationIdOf (P : Platform) (b : AttestationBody) (attesterNodeId : JsString) : JsString :=
  js "truyn:attest:" ++ P.hex (b.attested attesterNodeId)

def verifyAttestation (P : Platform) (a : Attestation) (expectedClaimId : JsString) :
    Except String Unit := do
  if a.attestationId.isEmpty ∨ a.attesterNodeId.isEmpty ∨ a.createdAt.isEmpty ∨
      a.publicKey.isEmpty ∨ a.signature.isEmpty then throw "attestation_missing_required_field"
  if !expectedClaimId.isEmpty ∧ a.body.claimId ≠ expectedClaimId then
    throw "attestation_claim_mismatch"
  if a.body.verdict ∉ [Verdict.support, .contradict, .uncertain] then
    throw "attestation_verdict_invalid"
  if P.nodeIdFromPublicKey a.publicKey ≠ some a.attesterNodeId then
    throw "attestation_attester_key_mismatch"
  let normal ← normalizedBody P a.body
  if P.canonicalize normal.value ≠ P.canonicalize a.body.value then
    throw "attestation_body_not_canonical"
  if attestationIdOf P normal a.attesterNodeId ≠ a.attestationId then
    throw "attestation_content_id_mismatch"
  if !P.verifyValue (.object [(js "attestationId", .string a.attestationId),
      (js "attesterNodeId", .string a.attesterNodeId), (js "body", a.body.value),
      (js "createdAt", .string a.createdAt)]) a.signature a.publicKey then
    throw "attestation_signature_invalid"

/-! ### A platform to compute with -/

mutual

/-- Canonical text, of values with whole numbers. -/
def valueText : Value → JsString
  | .null => js "null"
  | .bool b => js (if b then "true" else "false")
  | .number x => decimal (some x.num)
  | .string s => quote s
  | .array l => array (itemTexts l)
  | .object members => object (memberTexts members)

def itemTexts : List Value → List JsString
  | [] => []
  | v :: l => valueText v :: itemTexts l

def memberTexts : List (JsString × Value) → List (JsString × JsString)
  | [] => []
  | (k, v) :: l => (k, valueText v) :: memberTexts l

end

/-- A checksum in sixteen hexadecimal digits. -/
def checksum (s : JsString) : JsString :=
  let sum := s.foldl (fun h u => (h * 65599 + u.toNat + 1) % 2 ^ 64) 0
  (List.range 16).map fun i => hexDigit (sum / 16 ^ i % 16)

/-- A digest is a checksum, and every key is its own node's. -/
def plain : Platform where
  canonicalize := valueText
  sha256 := checksum
  nodeIdFromPublicKey := some
  signValue _ _ := js "signed"
  verifyValue _ _ _ := true
  getTime s :=
    if s = js "1970-01-01T00:00:00.000Z" then some 0
    else if s = js "1970-01-02T00:00:00.000Z" then some 86400000
    else none
  nfkc := id
  toLowerCase := id
  collation := ⟨unitsLe, unitsLe_trans, unitsLe_total⟩

def plainClaim : Claim :=
  let body : ClaimBody :=
    ⟨js "truyn-claim-v1", 1, js "weather", js "It rained.", none, .null, .object []⟩
  ⟨js "truyn:claim:" ++ plain.hex body.value, body, js "issuer", js "1970-01-01T00:00:00.000Z",
    js "issuer", js "signed"⟩

def plainAttestation (attesterNodeId : JsString) (verdict : Verdict) (evidence : List Evidence)
    (lineage : Lineage) : Attestation :=
  let body : AttestationBody := ⟨js "truyn-attest-v1", 1, plainClaim.claimId, verdict,
    js "weather", js "review", evidence, lineage, none⟩
  ⟨attestationIdOf plain body attesterNodeId, body, attesterNodeId,
    js "1970-01-01T00:00:00.000Z", attesterNodeId, js "signed"⟩

end Truyn.Trust
