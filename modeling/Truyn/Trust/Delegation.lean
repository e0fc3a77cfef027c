import Truyn.Trust.Transparency

/-! trust:delegation | source-owner-pki.js, what an owner's delegation may grant

    A delegation is accepted exactly if it is bound to its owner, in force and signed, and ends no later
    than the owner's certificate (`verifyDelegationCertificate_ok`). Neither its beginning nor its
    namespaces are compared with the owner's: it grants no more than the owner has exactly when it
    happens not to (`attenuated_iff`). What is created is accepted until it ends
    (`createDelegationCertificate_accepted`). -/

namespace Truyn.Trust.Pki

open Checks

/-- What the host gives; `none` where it throws, `getTime` is `none` also for an invalid date. -/
structure PkiHost where
  canonicalize : Value → Option JsString
  sha256 : JsString → JsString
  publicKeyFingerprint : Value → Option JsString
  signValue : Value → JsString → Option JsString
  verifyValue : Value → Value → Value → Bool
  getTime : Option Value → Option ℤ
  getTime_toISOString : ∀ v t, getTime v = some t →
    getTime (some (.string (toISOString t))) = some t

variable (H : PkiHost)

/-- A member that is there. -/
def member (v : Value) (key : String) : Value := (v.get key).getD .null

def orThrow {α : Type} (value : Option α) (reason : String) : Except String α :=
  value.elim (.error reason) .ok

def SOURCE_OWNER_PROTOCOL : JsString := js "truyn-source-owner-v2"
def SOURCE_DELEGATION_PROTOCOL : JsString := js "truyn-source-delegation-v2"
def SOURCE_OWNER_PKI_VERSION : ℚ := 2

/-- `digest(value).slice(7)`. -/
def contentHash (v : Value) : Except String JsString :=
  (orThrow (H.canonicalize v) "value cannot be canonicalized").map H.sha256

def fingerprint (publicKey : Value) : Except String JsString :=
  orThrow (H.publicKeyFingerprint publicKey) "invalid public key"

def sourceOwnerIdFromPublicKey (publicKey : Value) : Except String JsString :=
  (fingerprint H publicKey).map fun f => js "truyn:source-owner:" ++ f

def nodeIdFromPublicKey (publicKey : Value) : Except String JsString :=
  (fingerprint H publicKey).map fun f => js "truyn:node:" ++ f

/-- `scopes`. -/
def scopes (value : List Value) : List JsString :=
  let strings := value.filterMap fun
    | .string s => some (trim s)
    | _ => none
  sortStrings (setOf (strings.filter fun s => s ≠ []))

def iso (value : Value) (label : String) : Except String JsString :=
  (orThrow (H.getTime (some value)) (label ++ " is invalid")).map toISOString

/-- What is signed of a certificate. -/
def signedPart (c : Value) (idKey : String) : Value :=
  .object [(js "body", member c "body"), (js idKey, member c idKey),
    (js "expiresAt", member c "expiresAt"), (js "issuedAt", member c "issuedAt")]

/-- `a <= b`, of dates that may be invalid. -/
def dateLe : Option ℤ → Option ℤ → Bool
  | some a, some b => a ≤ b
  | _, _ => false

/-- `a < b`. -/
def dateLt : Option ℤ → Option ℤ → Bool
  | some a, some b => a < b
  | _, _ => false

/-- Whether a certificate has no time to be valid in, or `now` is not before its end. -/
def expired (c : Value) (now : ℤ) : Bool :=
  match H.getTime (c.get "issuedAt"), H.getTime (c.get "expiresAt") with
  | some issued, some expires => expires ≤ issued ∨ expires ≤ now
  | _, _ => true

/-- The owner's id. -/
def verifySourceOwnerCertificate (certificate : Value) (now : ℤ) :
    Except String (Option Value) := do
  if !(["certificateId", "body", "publicKey", "signature"].all fun k => truthy (certificate.get k)) then
    throw "source_owner_certificate_missing_field"
  let body := member certificate "body"
  if !strictEq (body.get "protocol") (some (.string SOURCE_OWNER_PROTOCOL)) ∨
      !strictEq (body.get "version") (some (.number SOURCE_OWNER_PKI_VERSION)) then
    throw "source_owner_protocol_mismatch"
  let ownerId ← sourceOwnerIdFromPublicKey H (member certificate "publicKey")
  if !strictEq (body.get "sourceOwnerId") (some (.string ownerId)) then
    throw "source_owner_id_key_mismatch"
  let nodeId ← nodeIdFromPublicKey H (member certificate "publicKey")
  if !strictEq (body.get "rootNodeId") (some (.string nodeId)) then
    throw "source_owner_node_key_mismatch"
  let hash ← contentHash H body
  if !strictEq (certificate.get "certificateId")
      (some (.string (js "truyn:source-owner-cert:" ++ hash))) then
    throw "source_owner_content_id_mismatch"
  if expired H certificate now then throw "source_owner_certificate_expired_or_invalid"
  if !H.verifyValue (signedPart certificate "certificateId") (member certificate "signature")
      (member certificate "publicKey") then throw "source_owner_signature_invalid"
  pure (body.get "sourceOwnerId")

/-- The identity of an owner or of a delegate; its private key signs for its public key. -/
structure KeyPair where
  nodeId : JsString
  publicKeyPem : JsString
  privateKeyPem : JsString
  signs : ∀ v s, H.signValue v privateKeyPem = some s →
    s ≠ [] ∧ H.verifyValue v (.string s) (.string publicKeyPem) = true

def delegationBody (ownerCertificate : Value) (nodeId fingerprint : JsString)
    (delegationScopes sourceNamespaces : List Value) : Value :=
  .object [(js "delegateKeyFingerprint", .string fingerprint), (js "delegateNodeId", .string nodeId),
    (js "protocol", .string SOURCE_DELEGATION_PROTOCOL),
    (js "rootCertificateId", member ownerCertificate "certificateId"),
    (js "scopes", strings (scopes delegationScopes)),
    (js "sourceNamespaces", strings (scopes sourceNamespaces)),
    (js "sourceOwnerId", member (member ownerCertificate "body") "sourceOwnerId"),
    (js "version", .number SOURCE_OWNER_PKI_VERSION)]

/-- `delegatePublicKey` and `delegateNodeId` are those of the delegate's identity, where it is given. -/
def createDelegationCertificate (now : ℤ) (ownerIdentity : KeyPair H) (ownerCertificate : Value)
    (delegatePublicKey delegateNodeId : JsString) (delegationScopes sourceNamespaces : List Value)
    (issuedAt expiresAt : Value) : Except String Value := do
  let _ ← (verifySourceOwnerCertificate H ownerCertificate now).mapError
    ("invalid source owner certificate: " ++ ·)
  if ownerIdentity.privateKeyPem = [] ∨
      !strictEq (some (.string ownerIdentity.nodeId))
        ((member ownerCertificate "body").get "rootNodeId") ∨
      !strictEq (some (.string ownerIdentity.publicKeyPem)) (ownerCertificate.get "publicKey") then
    throw "delegation must be signed by source owner root identity"
  if delegatePublicKey = [] ∨ delegateNodeId = [] then throw "delegated verifier key mismatch"
  let nodeId ← nodeIdFromPublicKey H (.string delegatePublicKey)
  if nodeId ≠ delegateNodeId then throw "delegated verifier key mismatch"
  let issued ← iso H issuedAt "issuedAt"
  let expires ← iso H expiresAt "expiresAt"
  if dateLe (H.getTime (some (.string expires))) (H.getTime (some (.string issued))) ∨
      dateLt (H.getTime (ownerCertificate.get "expiresAt")) (H.getTime (some (.string expires))) then
    throw "delegation expiry exceeds owner authority"
  let fingerprint ← fingerprint H (.string delegatePublicKey)
  let body := delegationBody ownerCertificate delegateNodeId fingerprint delegationScopes
    sourceNamespaces
  let hash ← contentHash H body
  let delegationId := js "truyn:source-delegation:" ++ hash
  let signed : List (JsString × Value) := [(js "body", body), (js "delegationId", .string delegationId),
    (js "expiresAt", .string expires), (js "issuedAt", .string issued)]
  let signature ← orThrow (H.signValue (.object signed) ownerIdentity.privateKeyPem) "invalid private key"
  pure (.object (signed ++ [(js "delegatePublicKey", .string delegatePublicKey),
    (js "issuerPublicKey", .string ownerIdentity.publicKeyPem), (js "signature", .string signature)]))

/-- `granted.includes(required)`, of an array or a string; `required` may be missing. -/
def includesScope (granted : Option Value) (required : Option JsString) : Except String Bool :=
  match required with
  | none | some [] => .ok true
  | some scope =>
    match granted with
    | some (.array l) => .ok (l.any fun v => strictEq (some v) (some (.string scope)))
    | some (.string s) => .ok (s.tails.any fun t => scope.isPrefixOf t)
    | _ => .error "includes is not a function"

/-- The delegation's id, the owner's and the delegate's node. -/
def verifyDelegationCertificate (delegation ownerCertificate : Value) (now : ℤ)
    (requiredScope : Option JsString) : Except String (Option Value × Option Value × Option Value) := do
  let _ ← verifySourceOwnerCertificate H ownerCertificate now
  if !(["delegationId", "body", "delegatePublicKey", "issuerPublicKey", "signature"].all fun k =>
      truthy (delegation.get k)) then throw "delegation_missing_field"
  let body := member delegation "body"
  let ownerBody := member ownerCertificate "body"
  if !strictEq (body.get "protocol") (some (.string SOURCE_DELEGATION_PROTOCOL)) ∨
      !strictEq (body.get "version") (some (.number SOURCE_OWNER_PKI_VERSION)) then
    throw "delegation_protocol_mismatch"
  if !strictEq (body.get "sourceOwnerId") (ownerBody.get "sourceOwnerId") ∨
      !strictEq (body.get "rootCertificateId") (ownerCertificate.get "certificateId") then
    throw "delegation_owner_mismatch"
  if !strictEq (delegation.get "issuerPublicKey") (ownerCertificate.get "publicKey") then
    throw "delegation_issuer_key_mismatch"
  let nodeId ← nodeIdFromPublicKey H (member delegation "delegatePublicKey")
  let fingerprint ← fingerprint H (member delegation "delegatePublicKey")
  if !strictEq (body.get "delegateNodeId") (some (.string nodeId)) ∨
      !strictEq (body.get "delegateKeyFingerprint") (some (.string fingerprint)) then
    throw "delegation_delegate_key_mismatch"
  let hash ← contentHash H body
  if !strictEq (delegation.get "delegationId")
      (some (.string (js "truyn:source-delegation:" ++ hash))) then
    throw "delegation_content_id_mismatch"
  if expired H delegation now ∨
      dateLt (H.getTime (ownerCertificate.get "expiresAt")) (H.getTime (delegation.get "expiresAt")) then
    throw "delegation_expired_or_invalid"
  if !(← includesScope (body.get "scopes") requiredScope) then throw "delegation_scope_missing"
  if !H.verifyValue (signedPart delegation "delegationId") (member delegation "signature")
      (member delegation "issuerPublicKey") then throw "delegation_signature_invalid"
  pure (delegation.get "delegationId", body.get "sourceOwnerId", body.get "delegateNodeId")

/-! ### What is checked of a certificate -/

/-- The id is the digest of the body, the certificate has not expired, and `key` has signed it. -/
structure InForce (c : Value) (idKey : String) (idPrefix : JsString) (key : Value) (now : ℤ) : Prop where
  content : ∃ t, H.canonicalize (member c "body") = some t ∧
    c.get idKey = some (.string (idPrefix ++ H.sha256 t))
  window : ∃ issued expires, H.getTime (c.get "issuedAt") = some issued ∧
    H.getTime (c.get "expiresAt") = some expires ∧ issued < expires ∧ now < expires
  signed : H.verifyValue (signedPart c idKey) (member c "signature") key = true

structure Genuine.Owner (o : Value) (now : ℤ) : Prop where
  fields : ∀ k ∈ ["certificateId", "body", "publicKey", "signature"], truthy (o.get k) = true
  protocol : (member o "body").get "protocol" = some (.string SOURCE_OWNER_PROTOCOL)
  version : (member o "body").get "version" = some (.number SOURCE_OWNER_PKI_VERSION)
  root : ∃ f, H.publicKeyFingerprint (member o "publicKey") = some f ∧
    (member o "body").get "sourceOwnerId" = some (.string (js "truyn:source-owner:" ++ f)) ∧
    (member o "body").get "rootNodeId" = some (.string (js "truyn:node:" ++ f))
  inForce : InForce H o "certificateId" (js "truyn:source-owner-cert:") (member o "publicKey") now

/-- A delegation that the owner of `o` has signed for the key it names. -/
structure Genuine.Delegation (d o : Value) (now : ℤ) (requiredScope : Option JsString) : Prop where
  owner : Genuine.Owner H o now
  fields : ∀ k ∈ ["delegationId", "body", "delegatePublicKey", "issuerPublicKey", "signature"],
    truthy (d.get k) = true
  protocol : (member d "body").get "protocol" = some (.string SOURCE_DELEGATION_PROTOCOL)
  version : (member d "body").get "version" = some (.number SOURCE_OWNER_PKI_VERSION)
  ofOwner : (member d "body").get "sourceOwnerId" = (member o "body").get "sourceOwnerId" ∧
    (member d "body").get "rootCertificateId" = o.get "certificateId"
  issuer : strictEq (d.get "issuerPublicKey") (o.get "publicKey") = true
  delegate : ∃ f, H.publicKeyFingerprint (member d "delegatePublicKey") = some f ∧
    (member d "body").get "delegateNodeId" = some (.string (js "truyn:node:" ++ f)) ∧
    (member d "body").get "delegateKeyFingerprint" = some (.string f)
  inForce : InForce H d "delegationId" (js "truyn:source-delegation:") (member d "issuerPublicKey") now
  scope : includesScope ((member d "body").get "scopes") requiredScope = .ok true

theorem orThrow_ok {α : Type} {value : Option α} {reason : String} {a : α} :
    orThrow value reason = .ok a ↔ value = some a := by
  cases value <;> simp [orThrow]

theorem contentHash_ok {v : Value} {h : JsString} :
    contentHash H v = .ok h ↔ ∃ t, H.canonicalize v = some t ∧ H.sha256 t = h := by
  simp only [contentHash, map_ok, orThrow_ok]

variable {o d : Value} {now : ℤ} {requiredScope : Option JsString}

theorem expired_eq_false {c : Value} : expired H c now = false ↔
    ∃ issued expires, H.getTime (c.get "issuedAt") = some issued ∧
      H.getTime (c.get "expiresAt") = some expires ∧ issued < expires ∧ now < expires := by
  rw [expired]
  cases H.getTime (c.get "issuedAt") with
  | none => simp
  | some issued =>
    cases H.getTime (c.get "expiresAt") with
    | none => simp
    | some expires => simp

theorem verifySourceOwnerCertificate_ok {r : Option Value} :
    verifySourceOwnerCertificate H o now = .ok r ↔
      Genuine.Owner H o now ∧ (member o "body").get "sourceOwnerId" = r := by
  unfold verifySourceOwnerCertificate
  simp only [guard_ok, bind_ok, sourceOwnerIdFromPublicKey, nodeIdFromPublicKey, fingerprint, map_ok,
    orThrow_ok, contentHash_ok, Bool.not_eq_true', Bool.not_eq_false, not_or, strictEq_string,
    strictEq_number, Bool.not_eq_true, expired_eq_false, pure_ok, List.all_eq_true]
  constructor
  · rintro ⟨hfields, ⟨hprotocol, hversion⟩, _, ⟨f, hf, rfl⟩, howner, _, ⟨f', hf', rfl⟩, hnode, _,
      ⟨t, ht, rfl⟩, hid, hwindow, hsigned, hr⟩
    obtain rfl : f = f' := Option.some.inj (hf.symm.trans hf')
    exact ⟨⟨hfields, hprotocol, hversion, ⟨f, hf, howner, hnode⟩, ⟨⟨t, ht, hid⟩, hwindow, hsigned⟩⟩, hr⟩
  · rintro ⟨h, hr⟩
    obtain ⟨f, hf, howner, hnode⟩ := h.root
    obtain ⟨t, ht, hid⟩ := h.inForce.content
    exact ⟨h.fields, ⟨h.protocol, h.version⟩, _, ⟨f, hf, rfl⟩, howner, _, ⟨f, hf, rfl⟩, hnode, _,
      ⟨t, ht, rfl⟩, hid, h.inForce.window, h.inForce.signed, hr⟩

/-! ### What is compared with the owner's certificate -/

def StartsWithin (d o : Value) : Prop :=
  ∃ di oi, H.getTime (d.get "issuedAt") = some di ∧ H.getTime (o.get "issuedAt") = some oi ∧ oi ≤ di

def EndsWithin (d o : Value) : Prop :=
  ∃ de oe, H.getTime (d.get "expiresAt") = some de ∧ H.getTime (o.get "expiresAt") = some oe ∧ de ≤ oe

def namespaces (c : Value) : List Value :=
  match (member c "body").get "sourceNamespaces" with
  | some (.array l) => l
  | _ => []

/-- Each namespace of `d` is granted by one of `o`; a pattern may cover more than itself. -/
def NamespacesWithin (covers : Value → Value → Prop) (d o : Value) : Prop :=
  ∀ n ∈ namespaces d, ∃ m ∈ namespaces o, covers m n

/-- Of certificates in force, the end that is compared is the end that is there. -/
theorem endsWithin_iff {key key' : Value} {idKey idKey' : String} {p p' : JsString}
    (hd : InForce H d idKey p key now) (ho : InForce H o idKey' p' key' now) :
    dateLt (H.getTime (o.get "expiresAt")) (H.getTime (d.get "expiresAt")) = false ↔
      EndsWithin H d o := by
  obtain ⟨_, de, -, hde, -⟩ := hd.window
  obtain ⟨_, oe, -, hoe, -⟩ := ho.window
  simp [EndsWithin, hde, hoe, dateLt]

/-- A delegation is accepted exactly if it is genuine and does not outlast the owner's certificate. -/
theorem verifyDelegationCertificate_ok {r : Option Value × Option Value × Option Value} :
    verifyDelegationCertificate H d o now requiredScope = .ok r ↔
      (Genuine.Delegation H d o now requiredScope ∧ EndsWithin H d o) ∧
        (d.get "delegationId", (member d "body").get "sourceOwnerId",
          (member d "body").get "delegateNodeId") = r := by
  unfold verifyDelegationCertificate
  simp only [guard_ok, bind_ok, nodeIdFromPublicKey, fingerprint, map_ok, orThrow_ok, contentHash_ok,
    Bool.not_eq_true', Bool.not_eq_false, not_or, strictEq_string, strictEq_number, Bool.not_eq_true,
    expired_eq_false, pure_ok, List.all_eq_true, verifySourceOwnerCertificate_ok]
  constructor
  · rintro ⟨_, ⟨howner, -⟩, hfields, ⟨hprotocol, hversion⟩, ⟨hid, hroot⟩, hissuer, _,
      ⟨f, hf, rfl⟩, f', hf', ⟨hnode, hkey⟩, _, ⟨t, ht, rfl⟩, hcontent, ⟨hwindow, hend⟩, granted,
      hscope, hgranted, hsigned, hr⟩
    obtain rfl : f = f' := Option.some.inj (hf.symm.trans hf')
    obtain ⟨_, -, hownerId, -⟩ := howner.root
    obtain ⟨_, -, hrootId⟩ := howner.inForce.content
    rw [hownerId, strictEq_string, ← hownerId] at hid
    rw [hrootId, strictEq_string, ← hrootId] at hroot
    have hforce : InForce H d "delegationId" (js "truyn:source-delegation:")
        (member d "issuerPublicKey") now := ⟨⟨t, ht, hcontent⟩, hwindow, hsigned⟩
    refine ⟨⟨⟨howner, hfields, hprotocol, hversion, ⟨hid, hroot⟩, hissuer, ⟨f, hf, hnode, hkey⟩, hforce,
      ?_⟩, (endsWithin_iff H hforce howner.inForce).mp hend⟩, hr⟩
    rw [hscope, hgranted]
  · rintro ⟨⟨h, hend⟩, hr⟩
    obtain ⟨f, hf, hnode, hkey⟩ := h.delegate
    obtain ⟨t, ht, hcontent⟩ := h.inForce.content
    obtain ⟨_, -, hownerId, -⟩ := h.owner.root
    obtain ⟨_, -, hrootId⟩ := h.owner.inForce.content
    refine ⟨_, ⟨h.owner, rfl⟩, h.fields, ⟨h.protocol, h.version⟩, ⟨?_, ?_⟩, h.issuer, _, ⟨f, hf, rfl⟩,
      f, hf, ⟨hnode, hkey⟩, _, ⟨t, ht, rfl⟩, hcontent,
      ⟨h.inForce.window, (endsWithin_iff H h.inForce h.owner.inForce).mpr hend⟩, true, h.scope, rfl,
      h.inForce.signed, hr⟩
    · rw [h.ofOwner.1, hownerId, strictEq_string]
    · rw [h.ofOwner.2, hrootId, strictEq_string]

theorem verifyDelegationCertificate_accepts :
    (∃ r, verifyDelegationCertificate H d o now requiredScope = .ok r) ↔
      Genuine.Delegation H d o now requiredScope ∧ EndsWithin H d o := by
  simp only [verifyDelegationCertificate_ok, exists_and_left, exists_eq', and_true]

/-! ### What is created -/

/-- The owner's certificate at another time before its end. -/
theorem Genuine.Owner.before {now' e : ℤ} (h : Genuine.Owner H o now)
    (he : H.getTime (o.get "expiresAt") = some e) (hlt : now' < e) : Genuine.Owner H o now' := by
  obtain ⟨issued, expires, hissued, hexpires, hpositive, -⟩ := h.inForce.window
  obtain rfl : expires = e := Option.some.inj (hexpires.symm.trans he)
  exact { h with inForce := { h.inForce with
    window := ⟨issued, expires, hissued, hexpires, hpositive, hlt⟩ } }

theorem iso_ok {value : Value} {label : String} {s : JsString} (h : iso H value label = .ok s) :
    ∃ t, s = toISOString t ∧ H.getTime (some (.string s)) = some t := by
  simp only [iso, map_ok, orThrow_ok] at h
  obtain ⟨t, ht, rfl⟩ := h
  exact ⟨t, rfl, H.getTime_toISOString _ t ht⟩

theorem includesScope_scopes {l : List Value} (h : ∀ scope ∈ requiredScope, scope ∈ scopes l) :
    includesScope (some (strings (scopes l))) requiredScope = .ok true := by
  cases requiredScope with
  | none => rfl
  | some scope =>
    cases scope with
    | nil => rfl
    | cons u s =>
      have hany : ((scopes l).map Value.string).any
          (fun v => strictEq (some v) (some (.string (u :: s)))) = true :=
        List.any_eq_true.mpr ⟨_, List.mem_map_of_mem (h _ rfl), by simp⟩
      rw [strings, includesScope, hany]
      exact List.cons_ne_nil u s

/-- CREATED DELEGATIONS: each is accepted until it ends, for the scopes that it was created with. -/
theorem createDelegationCertificate_accepted {now' e : ℤ} {ownerIdentity : KeyPair H}
    {issuedAt expiresAt : Value} {delegatePublicKey delegateNodeId : JsString}
    {delegationScopes sourceNamespaces : List Value}
    (h : createDelegationCertificate H now ownerIdentity o delegatePublicKey delegateNodeId
      delegationScopes sourceNamespaces issuedAt expiresAt = .ok d)
    (he : H.getTime (d.get "expiresAt") = some e) (hlt : now' < e)
    (hscope : ∀ scope ∈ requiredScope, scope ∈ scopes delegationScopes) :
    ∃ r, verifyDelegationCertificate H d o now' requiredScope = .ok r := by
  unfold createDelegationCertificate at h
  simp only [guard_ok, bind_ok, nodeIdFromPublicKey, fingerprint, map_ok, orThrow_ok, contentHash_ok,
    mapError_ok, Bool.not_eq_true', Bool.not_eq_false, not_or, Bool.not_eq_true, pure_ok,
    verifySourceOwnerCertificate_ok, not_not] at h
  obtain ⟨_, ⟨howner, -⟩, ⟨-, hroot, hissuer⟩, ⟨hkeyNe, -⟩, _, ⟨f, hf, rfl⟩, rfl, issued, hissued,
    expires, hexpires, ⟨hpositive, hwithin⟩, f', hf', _, ⟨t, ht, rfl⟩, signature, hsigned, rfl⟩ := h
  obtain rfl : f = f' := Option.some.inj (hf.symm.trans hf')
  obtain ⟨ti, -, hti⟩ := iso_ok H hissued
  obtain ⟨te, -, hte⟩ := iso_ok H hexpires
  obtain rfl : te = e := Option.some.inj (hte.symm.trans he)
  obtain ⟨hsignature, hverified⟩ := ownerIdentity.signs _ _ hsigned
  obtain ⟨_, -, hownerId, -⟩ := howner.root
  obtain ⟨_, -, hrootId⟩ := howner.inForce.content
  obtain ⟨_, oe, -, hoe, -, -⟩ := howner.inForce.window
  have hissuerKey : o.get "publicKey" = some (.string ownerIdentity.publicKeyPem) :=
    strictEq_of_string hissuer
  have hends : te ≤ oe := by simpa [hoe, hte, dateLt] using hwithin
  have hwindow : ti < te := by simpa [hti, hte, dateLe] using hpositive
  have hissuerNe : truthy (some (.string ownerIdentity.publicKeyPem)) = true := by
    rw [← hissuerKey]
    exact howner.fields "publicKey" (by simp)
  refine (verifyDelegationCertificate_accepts H).mpr ⟨?_, te, oe, hte, hoe, hends⟩
  refine
    { owner := howner.before H hoe (hlt.trans_le hends)
      fields := ?_
      protocol := rfl
      version := rfl
      ofOwner := ⟨?_, ?_⟩
      issuer := ?_
      delegate := ⟨f, hf, rfl, rfl⟩
      inForce := ⟨⟨t, ht, rfl⟩, ⟨ti, te, hti, hte, hwindow, hlt⟩, hverified⟩
      scope := includesScope_scopes hscope }
  · intro k hk
    simp only [List.mem_cons, List.not_mem_nil, or_false] at hk
    rcases hk with rfl | rfl | rfl | rfl | rfl
    · rfl
    · rfl
    · show (!delegatePublicKey.isEmpty) = true
      simpa using hkeyNe
    · exact hissuerNe
    · show (!signature.isEmpty) = true
      simpa using hsignature
  · show some (member (member o "body") "sourceOwnerId") = _
    rw [member, hownerId]
    rfl
  · show some (member o "certificateId") = _
    rw [member, hrootId]
    rfl
  · rw [hissuerKey, strictEq_string]
    rfl

/-- ATTENUATION: what is accepted ends within the owner's certificate; it starts within it and keeps to
    its namespaces exactly if a genuine delegation does so of itself, as neither is compared. -/
theorem delegation_attenuated_iff :
    (∀ (covers : Value → Value → Prop) (d o : Value) (now : ℤ) (requiredScope : Option JsString),
      ((∃ r, verifyDelegationCertificate H d o now requiredScope = .ok r) →
        StartsWithin H d o ∧ EndsWithin H d o ∧ NamespacesWithin covers d o) ↔
      (Genuine.Delegation H d o now requiredScope → EndsWithin H d o →
        StartsWithin H d o ∧ NamespacesWithin covers d o)) ∧
    ∀ (now : ℤ) (ownerIdentity : KeyPair H) (o d issuedAt expiresAt : Value)
      (delegatePublicKey delegateNodeId : JsString) (delegationScopes sourceNamespaces : List Value),
      createDelegationCertificate H now ownerIdentity o delegatePublicKey delegateNodeId
        delegationScopes sourceNamespaces issuedAt expiresAt = .ok d →
      ∀ (now' e : ℤ) (requiredScope : Option JsString), H.getTime (d.get "expiresAt") = some e →
        now' < e → (∀ scope ∈ requiredScope, scope ∈ scopes delegationScopes) →
          ∃ r, verifyDelegationCertificate H d o now' requiredScope = .ok r := by
  refine ⟨fun covers d o now requiredScope => ?_, ?_⟩
  · rw [verifyDelegationCertificate_accepts]
    constructor
    · intro h hgenuine hend
      obtain ⟨hstart, -, hnamespaces⟩ := h ⟨hgenuine, hend⟩
      exact ⟨hstart, hnamespaces⟩
    · rintro h ⟨hgenuine, hend⟩
      obtain ⟨hstart, hnamespaces⟩ := h hgenuine hend
      exact ⟨hstart, hend, hnamespaces⟩
  · intro now ownerIdentity o d issuedAt expiresAt delegatePublicKey delegateNodeId delegationScopes
      sourceNamespaces h now' e requiredScope he hlt hscope
    exact createDelegationCertificate_accepted H h he hlt hscope

/-! ### A delegation of more than the owner has -/

/-- The days that `sampleHost` knows. -/
def days : List ℤ := [0, 86400000, 172800000, 259200000]

/-- A key is its own fingerprint, and every signature is valid. -/
def sampleHost : PkiHost where
  canonicalize v := some (valueText v)
  sha256 := checksum
  publicKeyFingerprint
    | .string s => some s
    | _ => none
  signValue _ _ := some (js "signed")
  verifyValue _ _ _ := true
  getTime
    | some (.string s) => days.find? fun t => toISOString t = s
    | _ => none
  getTime_toISOString v t h := by
    match v with
    | some (.string s) =>
      have hs := List.find?_some h
      simp only [decide_eq_true_eq] at hs
      rw [← hs] at h
      exact h

def sampleIdentity : KeyPair sampleHost where
  nodeId := js "truyn:node:owner"
  publicKeyPem := js "owner"
  privateKeyPem := js "secret"
  signs v s h := by
    obtain rfl : js "signed" = s := Option.some.inj h
    exact ⟨by decide, rfl⟩

def sampleOwnerBody : Value := .object [(js "protocol", .string SOURCE_OWNER_PROTOCOL),
  (js "rootNodeId", .string (js "truyn:node:owner")),
  (js "sourceNamespaces", strings [js "news/*"]),
  (js "sourceOwnerId", .string (js "truyn:source-owner:owner")), (js "version", .number 2)]

/-- An owner of the news, from the second day to the fourth. -/
def sampleOwner : Value := .object [(js "body", sampleOwnerBody),
  (js "certificateId", .string (js "truyn:source-owner-cert:" ++ checksum (valueText sampleOwnerBody))),
  (js "expiresAt", .string (toISOString 259200000)),
  (js "issuedAt", .string (toISOString 86400000)), (js "publicKey", .string (js "owner")),
  (js "signature", .string (js "signed"))]

/-- A delegation of that owner's, for finance, from the first day to the third. -/
def wide : Except String Value :=
  createDelegationCertificate sampleHost 86400000 sampleIdentity sampleOwner (js "delegate")
    (js "truyn:node:delegate") [.string (js "trust.verify")] [.string (js "finance/*")]
    (.string (toISOString 0)) (.string (toISOString 172800000))

def wideDelegation : Value := wide.toOption.getD .null

theorem wide_ok : wide = .ok wideDelegation := by
  obtain ⟨d, hd⟩ := ok_of_isOk (show wide.isOk = true by decide +kernel)
  rw [wideDelegation, hd]
  rfl

theorem wide_delegation_until_end : ∃ r, verifyDelegationCertificate sampleHost wideDelegation
    sampleOwner 172799999 none = .ok r :=
  (delegation_attenuated_iff sampleHost).2 _ _ _ _ _ _ _ _ _ _ wide_ok 172799999 172800000 none
    (by decide +kernel) (by decide) (by simp)

/-- It is accepted, though it starts before the owner's certificate and grants what that does not. -/
theorem wide_delegation_accepted :
    (∃ r, verifyDelegationCertificate sampleHost wideDelegation sampleOwner 86400000
      (some (js "trust.verify")) = .ok r) ∧
    ¬StartsWithin sampleHost wideDelegation sampleOwner ∧
    ¬NamespacesWithin (· = ·) wideDelegation sampleOwner := by
  have hstart : sampleHost.getTime (wideDelegation.get "issuedAt") = some 0 := by decide +kernel
  have howner : sampleHost.getTime (sampleOwner.get "issuedAt") = some 86400000 := by decide
  have hend : sampleHost.getTime (wideDelegation.get "expiresAt") = some 172800000 := by decide +kernel
  refine ⟨?_, ?_, ?_⟩
  · exact createDelegationCertificate_accepted sampleHost wide_ok hend (by decide) (by decide)
  · rintro ⟨di, oi, hd, ho, hle⟩
    rw [hstart] at hd
    rw [howner] at ho
    cases hd
    cases ho
    omega
  · intro h
    have hfinance : strictEq (namespaces wideDelegation).head?
        (some (.string (js "finance/*"))) = true := by decide +kernel
    obtain ⟨m, hm, heq⟩ := h _ (List.mem_of_head? (strictEq_string.mp hfinance))
    have hnews : m = .string (js "news/*") := List.mem_singleton.mp hm
    have hne : js "news/*" ≠ js "finance/*" := by decide
    exact hne (Value.string.inj (hnews.symm.trans heq))

end Truyn.Trust.Pki
