import Truyn.Js.Parse
import Truyn.Trust.Claims

/-! trust:wire | claims and attestations as JSON

    A claim, or an attestation, is printed by `JSON.stringify`, and what `JSON.parse` reads of the text
    is the claim again, or the attestation (`parse_stringify`, `Claim.read_value`,
    `Attestation.read_value`). -/

namespace Truyn.Trust

/-! ### JSON -/

/-- How the language prints a number, and reads one. -/
structure Host extends Platform where
  numberText : ℚ → NumberText
  readNumber : NumberText → Option ℚ

namespace Host
variable (H : Host)

mutual

/-- The value that `JSON.stringify` prints. -/
def json : Value → Json
  | .null => .null
  | .bool b => .bool b
  | .number x => .number (H.numberText x)
  | .string s => .string s
  | .array l => .array (jsonItems l)
  | .object m => .object (jsonMembers m)

def jsonItems : List Value → List Json
  | [] => []
  | v :: l => json v :: jsonItems l

def jsonMembers : List (JsString × Value) → List (JsString × Json)
  | [] => []
  | (k, v) :: m => (k, json v) :: jsonMembers m

end

mutual

/-- The value that `JSON.parse` makes. -/
def ofJson : Json → Option Value
  | .null => some .null
  | .bool b => some (.bool b)
  | .number n => (H.readNumber n).map .number
  | .string s => some (.string s)
  | .array l => (ofItems l).map .array
  | .object m => (ofMembers m).map .object

def ofItems : List Json → Option (List Value)
  | [] => some []
  | v :: l => do
    let v ← ofJson v
    let l ← ofItems l
    return v :: l

def ofMembers : List (JsString × Json) → Option (List (JsString × Value))
  | [] => some []
  | (k, v) :: m => do
    let v ← ofJson v
    let m ← ofMembers m
    return (k, v) :: m

end

def stringify (v : Value) : JsString := (H.json v).text

def parse (t : JsString) : Option Value := (Json.parse t).bind H.ofJson

end Host

def Claim.value (c : Claim) : Value := .object [(js "body", c.body.value),
  (js "claimId", .string c.claimId), (js "createdAt", .string c.createdAt),
  (js "issuedBy", .string c.issuedBy), (js "publicKey", .string c.publicKey),
  (js "signature", .string c.signature)]

def Attestation.value (a : Attestation) : Value := .object
  [(js "attestationId", .string a.attestationId), (js "attesterNodeId", .string a.attesterNodeId),
    (js "body", a.body.value), (js "createdAt", .string a.createdAt),
    (js "publicKey", .string a.publicKey), (js "signature", .string a.signature)]

def asString : Value → Option JsString
  | .string s => some s
  | _ => none

def asInteger : Value → Option ℤ
  | .number x => some x.num
  | _ => none

def asNullable : Value → Option (Option JsString)
  | .null => some none
  | .string s => some (some s)
  | _ => none

def asList {α : Type} (read : Value → Option α) : Value → Option (List α)
  | .array l => l.mapM read
  | _ => none

def asVerdict (v : Value) : Option Verdict := (asString v).map fun s =>
  if s = js "support" then .support
  else if s = js "contradict" then .contradict
  else if s = js "uncertain" then .uncertain
  else .other s

def ClaimBody.read (v : Value) : Option ClaimBody := do
  let protocol ← (v.get "protocol").bind asString
  let version ← (v.get "version").bind asInteger
  let domain ← (v.get "domain").bind asString
  let statement ← (v.get "statement").bind asString
  let subject ← (v.get "subject").bind asNullable
  let basis ← v.get "basis"
  let qualifiers ← v.get "qualifiers"
  return ⟨protocol, version, domain, statement, subject, basis, qualifiers⟩

def Claim.read (v : Value) : Option Claim := do
  let claimId ← (v.get "claimId").bind asString
  let body ← (v.get "body").bind ClaimBody.read
  let issuedBy ← (v.get "issuedBy").bind asString
  let createdAt ← (v.get "createdAt").bind asString
  let publicKey ← (v.get "publicKey").bind asString
  let signature ← (v.get "signature").bind asString
  return ⟨claimId, body, issuedBy, createdAt, publicKey, signature⟩

def Evidence.read (v : Value) : Option Evidence := do
  let kind ← (v.get "kind").bind asString
  let sourceId ← (v.get "sourceId").bind asString
  let contentDigest ← (v.get "contentDigest").bind asNullable
  let parentSourceIds ← (v.get "parentSourceIds").bind (asList asString)
  return ⟨kind, sourceId, contentDigest, parentSourceIds⟩

def Lineage.read (v : Value) : Option Lineage := do
  let originIds ← (v.get "originIds").bind (asList asString)
  let publisherIds ← (v.get "publisherIds").bind (asList asString)
  let generatorIds ← (v.get "generatorIds").bind (asList asString)
  let parentAttestationIds ← (v.get "parentAttestationIds").bind (asList asString)
  return ⟨originIds, publisherIds, generatorIds, parentAttestationIds⟩

def AttestationBody.read (v : Value) : Option AttestationBody := do
  let protocol ← (v.get "protocol").bind asString
  let version ← (v.get "version").bind asInteger
  let claimId ← (v.get "claimId").bind asString
  let verdict ← (v.get "verdict").bind asVerdict
  let domain ← (v.get "domain").bind asString
  let method ← (v.get "method").bind asString
  let evidence ← (v.get "evidence").bind (asList Evidence.read)
  let lineage ← (v.get "lineage").bind Lineage.read
  let rationaleDigest ← (v.get "rationaleDigest").bind asNullable
  return ⟨protocol, version, claimId, verdict, domain, method, evidence, lineage, rationaleDigest⟩

def Attestation.read (v : Value) : Option Attestation := do
  let attestationId ← (v.get "attestationId").bind asString
  let body ← (v.get "body").bind AttestationBody.read
  let attesterNodeId ← (v.get "attesterNodeId").bind asString
  let createdAt ← (v.get "createdAt").bind asString
  let publicKey ← (v.get "publicKey").bind asString
  let signature ← (v.get "signature").bind asString
  return ⟨attestationId, body, attesterNodeId, createdAt, publicKey, signature⟩

/-! ### Round trips -/

variable {H : Host}

theorem asNullable_nullable (s : Option JsString) : asNullable (nullable s) = some s := by
  cases s <;> rfl

theorem asList_map {α : Type} {f : α → Value} {read : Value → Option α} {l : List α}
    (h : ∀ a ∈ l, read (f a) = some a) : asList read (.array (l.map f)) = some l := by
  rw [asList]
  induction l with
  | nil => rfl
  | cons a l ih =>
    obtain ⟨ha, hl⟩ := List.forall_mem_cons.mp h
    rw [List.map_cons, List.mapM_cons, ha, ih hl]
    rfl

theorem asList_strings (l : List JsString) : asList asString (strings l) = some l :=
  asList_map fun _ _ => rfl

theorem ClaimBody.read_value (b : ClaimBody) : ClaimBody.read b.value = some b := by
  have h : ClaimBody.read b.value = (asNullable (nullable b.subject)).bind fun subject => some
      { b with version := (b.version : ℚ).num, subject := subject } := rfl
  rw [h, asNullable_nullable]
  rfl

theorem Claim.read_value (c : Claim) : Claim.read c.value = some c := by
  have h : Claim.read c.value = (ClaimBody.read c.body.value).bind fun body => some
      { c with body := body } := rfl
  rw [h, ClaimBody.read_value]
  rfl

theorem Evidence.read_value (e : Evidence) : Evidence.read e.value = some e := by
  have h : Evidence.read e.value = (asNullable (nullable e.contentDigest)).bind fun digest =>
      (asList asString (strings e.parentSourceIds)).bind fun parents =>
        some ⟨e.kind, e.sourceId, digest, parents⟩ := rfl
  rw [h, asNullable_nullable, asList_strings]
  rfl

theorem Lineage.read_value (l : Lineage) : Lineage.read l.value = some l := by
  have h : Lineage.read l.value = (asList asString (strings l.originIds)).bind fun origins =>
      (asList asString (strings l.publisherIds)).bind fun publishers =>
        (asList asString (strings l.generatorIds)).bind fun generators =>
          (asList asString (strings l.parentAttestationIds)).bind fun parents =>
            some ⟨origins, publishers, generators, parents⟩ := rfl
  rw [h, asList_strings, asList_strings, asList_strings, asList_strings]
  rfl

theorem asVerdict_text {v : Verdict} (h : v ∈ [Verdict.support, .contradict, .uncertain]) :
    asVerdict (.string v.text) = some v := by
  rcases v with _ | _ | _ | s
  · rfl
  · rfl
  · rfl
  · simp at h

theorem AttestationBody.read_value {b : AttestationBody}
    (hverdict : b.verdict ∈ [Verdict.support, .contradict, .uncertain]) :
    AttestationBody.read b.value = some b := by
  have hprotocol : b.value.get "protocol" = some (.string b.protocol) := rfl
  have hversion : b.value.get "version" = some (.number b.version) := rfl
  have hclaim : b.value.get "claimId" = some (.string b.claimId) := rfl
  have hverdict' : b.value.get "verdict" = some (.string b.verdict.text) := rfl
  have hdomain : b.value.get "domain" = some (.string b.domain) := rfl
  have hmethod : b.value.get "method" = some (.string b.method) := rfl
  have hevidence : b.value.get "evidence" = some (.array (b.evidence.map Evidence.value)) := rfl
  have hlineage : b.value.get "lineage" = some b.lineage.value := rfl
  have hrationale : b.value.get "rationaleDigest" = some (nullable b.rationaleDigest) := rfl
  have hitems : asList Evidence.read (.array (b.evidence.map Evidence.value)) = some b.evidence :=
    asList_map fun e _ => Evidence.read_value e
  rw [AttestationBody.read, hprotocol, hversion, hclaim, hverdict', hdomain, hmethod, hevidence,
    hlineage, hrationale]
  simp only [Option.bind_some, asVerdict_text hverdict, hitems, Lineage.read_value,
    asNullable_nullable]
  rfl

theorem Attestation.read_value {a : Attestation}
    (hverdict : a.body.verdict ∈ [Verdict.support, .contradict, .uncertain]) :
    Attestation.read a.value = some a := by
  have hid : a.value.get "attestationId" = some (.string a.attestationId) := rfl
  have hbody : a.value.get "body" = some a.body.value := rfl
  have hattester : a.value.get "attesterNodeId" = some (.string a.attesterNodeId) := rfl
  have hcreated : a.value.get "createdAt" = some (.string a.createdAt) := rfl
  have hkey : a.value.get "publicKey" = some (.string a.publicKey) := rfl
  have hsignature : a.value.get "signature" = some (.string a.signature) := rfl
  rw [Attestation.read, hid, hbody, hattester, hcreated, hkey, hsignature]
  simp only [Option.bind_some, AttestationBody.read_value hverdict]
  rfl

mutual

theorem ofJson_json (hnumbers : ∀ x, H.readNumber (H.numberText x) = some x) :
    ∀ v, H.ofJson (H.json v) = some v
  | .null | .bool _ | .string _ => rfl
  | .number x => by rw [Host.json, Host.ofJson, hnumbers, Option.map_some]
  | .array l => by rw [Host.json, Host.ofJson, ofItems_json hnumbers l, Option.map_some]
  | .object m => by rw [Host.json, Host.ofJson, ofMembers_json hnumbers m, Option.map_some]

theorem ofItems_json (hnumbers : ∀ x, H.readNumber (H.numberText x) = some x) :
    ∀ l, H.ofItems (H.jsonItems l) = some l
  | [] => rfl
  | v :: l => by
    rw [Host.jsonItems, Host.ofItems, ofJson_json hnumbers v, ofItems_json hnumbers l]
    rfl

theorem ofMembers_json (hnumbers : ∀ x, H.readNumber (H.numberText x) = some x) :
    ∀ m, H.ofMembers (H.jsonMembers m) = some m
  | [] => rfl
  | (k, v) :: m => by
    rw [Host.jsonMembers, Host.ofMembers, ofJson_json hnumbers v, ofMembers_json hnumbers m]
    rfl

end

/-- What is printed is read back. -/
theorem parse_stringify (hnumbers : ∀ x, H.readNumber (H.numberText x) = some x) (v : Value) :
    H.parse (H.stringify v) = some v := by
  rw [Host.parse, Host.stringify, Json.parse_text, Option.bind_some, ofJson_json hnumbers]

end Truyn.Trust
