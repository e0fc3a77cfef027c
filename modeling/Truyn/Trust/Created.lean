import Truyn.Trust.Normal
import Truyn.Trust.Receipts
import Truyn.Trust.Wire

/-! trust:created | claims and attestations, from their creation to a verifier

    `createClaim` lower-cases a domain after it has been normalized, and a verifier normalizes it
    again. A lower-case text need not be in normal form, so a claim that was created is not always
    valid; for an attestation the domain comes from a valid claim. -/

namespace Truyn.Trust

/-! ### Creating -/

/-- What `createClaim` is given, next to an identity. -/
structure ClaimInput where
  domain : JsString
  statement : JsString
  subject : Option JsString
  basis : Value
  qualifiers : Value
  createdAt : JsString

/-- What `createAttestation` is given, next to an identity and a claim. -/
structure AttestationInput where
  verdict : Verdict
  evidence : List Evidence
  lineage : Lineage
  method : JsString
  rationaleDigest : Option JsString
  createdAt : JsString

variable (P : Platform)

def requiredIdentity (identity : Identity) (label : String) : Except String Unit := do
  if identity.nodeId.isEmpty ∨ identity.publicKeyPem.isEmpty ∨ identity.privateKeyPem.isEmpty then
    throw (label ++ " identity is required")
  if P.nodeIdFromPublicKey identity.publicKeyPem ≠ some identity.nodeId then
    throw (label ++ " identity key mismatch")

/-- `claimContentId` reads neither the protocol nor the version. -/
def ClaimInput.body (i : ClaimInput) : ClaimBody :=
  ⟨[], 0, i.domain, i.statement, i.subject, i.basis, i.qualifiers⟩

def createClaim (identity : Identity) (i : ClaimInput) : Except String Claim := do
  requiredIdentity P identity "claim issuer"
  let (claimId, body) ← claimContentId P i.body
  return ⟨claimId, body, identity.nodeId, i.createdAt, identity.publicKeyPem,
    P.signValue (claimSigned claimId body identity.nodeId i.createdAt) identity.privateKeyPem⟩

def createAttestation (identity : Identity) (claim : Claim) (i : AttestationInput) :
    Except String Attestation := do
  requiredIdentity P identity "attester"
  (verifyClaim P claim).mapError fun reason => "cannot attest invalid claim: " ++ reason
  if i.verdict ∉ [Verdict.support, .contradict, .uncertain] then
    throw "attestation verdict must be support, contradict or uncertain"
  let method ← normalizeText P i.method "attestation method" 256
  let evidence ← normalizeEvidence P i.evidence
  let body : AttestationBody := ⟨js "truyn-attest-v1", 1, claim.claimId, i.verdict,
    claim.body.domain, method, evidence, normalizeLineage i.lineage,
    normalizeOptional i.rationaleDigest⟩
  let attestationId := attestationIdOf P body identity.nodeId
  return ⟨attestationId, body, identity.nodeId, i.createdAt, identity.publicKeyPem,
    P.signValue (attestationSigned attestationId body identity.nodeId i.createdAt)
      identity.privateKeyPem⟩

/-- The claim that a verifier reads out of its JSON text. -/
def Host.received (H : Host) (c : Claim) : Option Claim :=
  (H.parse (H.stringify c.value)).bind Claim.read

def Host.receivedAttestation (H : Host) (a : Attestation) : Option Attestation :=
  (H.parse (H.stringify a.value)).bind Attestation.read

/-- What has been received is valid, and its id is recomputed from its body. -/
def ClaimVerifies (H : Host) (c : Claim) : Prop := ∃ c', H.received c = some c' ∧
  verifyClaim H.toPlatform c' = .ok () ∧
  ∃ r, claimContentId H.toPlatform c'.body = .ok r ∧ r.1 = c.claimId

def AttestationVerifies (H : Host) (a : Attestation) (expectedClaimId : JsString) : Prop :=
  ∃ a', H.receivedAttestation a = some a' ∧
  verifyAttestation H.toPlatform a' expectedClaimId = .ok () ∧
  ∃ n, normalizedBody H.toPlatform a'.body = .ok n ∧
    attestationIdOf H.toPlatform n a'.attesterNodeId = a.attestationId

/-- A private key signs for its public key. -/
def Paired (P : Platform) (identity : Identity) : Prop :=
  ∀ v, P.verifyValue v (P.signValue v identity.privateKeyPem) identity.publicKeyPem = true

/-- The domain in lower case is in normal form, up to what lower-casing takes back, and its normal
    form is not too long. -/
def Settled (P : Platform) (domain : JsString) : Prop :=
  let lower := P.toLowerCase (P.clean domain)
  (P.clean lower).length ≤ 256 ∧ P.toLowerCase (P.clean lower) = lower

instance (P : Platform) (domain : JsString) : Decidable (Settled P domain) :=
  inferInstanceAs (Decidable (_ ∧ _))

/-- What is known of the host: numbers are read back as they are printed, the canonical text shows the
    value, no signature is empty, and keys that belong together on one value do on all. -/
structure Lawful (H : Host) : Prop extends Unicode H.toPlatform where
  numbers : ∀ x, H.readNumber (H.numberText x) = some x
  canonical : Function.Injective H.canonicalize
  signed : ∀ v key, H.signValue v key ≠ []
  pairs : ∀ key pub v, H.verifyValue v (H.signValue v key) pub = true →
    ∀ w, H.verifyValue w (H.signValue w key) pub = true

variable {H : Host} {identity : Identity} {claim c : Claim} {a : Attestation}

theorem requiredIdentity_ok {P : Platform} {label : String} :
    requiredIdentity P identity label = .ok () ↔
      (identity.nodeId ≠ [] ∧ identity.publicKeyPem ≠ [] ∧ identity.privateKeyPem ≠ []) ∧
      P.nodeIdFromPublicKey identity.publicKeyPem = some identity.nodeId := by
  simp only [requiredIdentity, Checks.guard_ok, Checks.last_guard_ok, not_or, not_not,
    List.isEmpty_iff, and_true, ne_eq]

theorem received_eq (hH : Lawful H) (c : Claim) : H.received c = some c := by
  rw [Host.received, parse_stringify hH.numbers, Option.bind_some, Claim.read_value]

theorem receivedAttestation_eq (hH : Lawful H)
    (hverdict : a.body.verdict ∈ [Verdict.support, .contradict, .uncertain]) :
    H.receivedAttestation a = some a := by
  rw [Host.receivedAttestation, parse_stringify hH.numbers, Option.bind_some,
    Attestation.read_value hverdict]

variable {b : ClaimBody} {i : AttestationInput} {s : JsString}

/-! ### Claims -/

theorem domain_of_value {b' : ClaimBody} (h : b.value = b'.value) : b.domain = b'.domain := by
  simp only [ClaimBody.value, Value.object.injEq, List.cons.injEq, Prod.mk.injEq,
    Value.string.injEq] at h
  exact h.2.1.2

theorem isObject_once (v d : Value) : (if (if v.isObject then v else d).isObject then
    (if v.isObject then v else d) else d) = if v.isObject then v else d := by
  by_cases h : v.isObject = true <;> simp [h]

/-- A body in normal form is its own normal form just when its domain has settled. -/
theorem claimContentId_again (hH : Lawful H) {r : JsString × ClaimBody}
    (h : claimContentId H.toPlatform b = .ok r) :
    (∃ r', claimContentId H.toPlatform r.2 = .ok r' ∧ r'.1 = r.1 ∧
      H.canonicalize r'.2.value = H.canonicalize r.2.value) ↔ Settled H.toPlatform b.domain := by
  obtain ⟨domain, statement, subject, hdomain, hstatement, hsubject, hbody, hid⟩ :=
    claimContentId_ok.mp h
  obtain ⟨hpresent, rfl, -⟩ := normalizeText_ok.mp hdomain
  have hlower : r.2.domain = H.toLowerCase (H.toPlatform.clean b.domain) := by rw [hbody]
  constructor
  · rintro ⟨r', h', -, hcanonical⟩
    obtain ⟨domain', _, _, hdomain', -, -, hbody', -⟩ := claimContentId_ok.mp h'
    obtain ⟨-, rfl, hlength⟩ := normalizeText_ok.mp hdomain'
    have heq := domain_of_value (hH.canonical hcanonical)
    rw [hbody', hlower] at heq
    rw [hlower] at hlength
    exact ⟨hlength, heq⟩
  · rintro ⟨hlength, heq⟩
    refine ⟨r, claimContentId_ok.mpr ⟨H.toPlatform.clean r.2.domain, statement, subject, ?_, ?_, ?_,
      ?_, hid⟩, rfl, rfl⟩
    · refine normalizeText_ok.mpr ⟨?_, rfl, by rwa [hlower]⟩
      rw [hlower]
      refine hH.lowered _ ?_
      rw [Platform.clean, trim_trim]
      exact hH.cleaned _ hpresent
    · rw [hbody]
      exact normalizeText_fixed hH.toUnicode hstatement
    · rw [hbody]
      exact normalizeSubject_fixed hH.toUnicode hsubject
    · rw [hlower, heq]
      conv_lhs => rw [hbody]
      rw [hbody]
      simp only [isObject_once]

theorem createClaim_ok {i : ClaimInput} : createClaim H.toPlatform identity i = .ok c ↔
    requiredIdentity H.toPlatform identity "claim issuer" = .ok () ∧
    ∃ r, claimContentId H.toPlatform i.body = .ok r ∧
      ⟨r.1, r.2, identity.nodeId, i.createdAt, identity.publicKeyPem, H.signValue
        (claimSigned r.1 r.2 identity.nodeId i.createdAt) identity.privateKeyPem⟩ = c := by
  rw [createClaim, Checks.bind_ok]
  simp only [Checks.bind_ok, Checks.pure_ok]
  constructor
  · rintro ⟨⟨⟩, hidentity, r, hr, rfl⟩
    exact ⟨hidentity, r, hr, rfl⟩
  · rintro ⟨hidentity, r, hr, rfl⟩
    exact ⟨(), hidentity, r, hr, rfl⟩

/-- A claim is valid as it was created just when its domain has settled, it has a date, and its key
    signs for its issuer. -/
theorem createClaim_verifies (hH : Lawful H) {i : ClaimInput}
    (h : createClaim H.toPlatform identity i = .ok c) : ClaimVerifies H c ↔
      Settled H.toPlatform i.domain ∧ i.createdAt ≠ [] ∧ Paired H.toPlatform identity := by
  obtain ⟨hidentity, r, hr, rfl⟩ := createClaim_ok.mp h
  obtain ⟨⟨hnode, hpublic, -⟩, hkey⟩ := requiredIdentity_ok.mp hidentity
  have hagain := claimContentId_again hH hr
  obtain ⟨-, -, -, -, -, -, -, hid⟩ := claimContentId_ok.mp hr
  constructor
  · rintro ⟨c', hc', hverify, -⟩
    rw [received_eq hH] at hc'
    cases hc'
    obtain ⟨hfields, -, r', hr', ⟨hid', hcanonical⟩, hsigned⟩ := verifyClaim_ok.mp hverify
    refine ⟨hagain.mp ⟨r', hr', hid', hcanonical⟩, fun hdate => hfields ?_, hH.pairs _ _ _ hsigned⟩
    exact .inr (.inr (.inl (List.isEmpty_iff.mpr hdate)))
  · rintro ⟨hsettled, hdate, hpaired⟩
    obtain ⟨r', hr', hid', hcanonical⟩ := hagain.mpr hsettled
    refine ⟨_, received_eq hH _, verifyClaim_ok.mpr ⟨?_, hkey, r', hr', ⟨hid', hcanonical⟩,
      hpaired _⟩, r', hr', hid'⟩
    have hpresent : r.1 ≠ [] := by
      rw [hid]
      exact List.append_ne_nil_of_left_ne_nil (by decide) _
    simp [hpresent, hnode, hdate, hpublic, hH.signed]

/-! ### Attestations -/

theorem createAttestation_ok :
    createAttestation H.toPlatform identity claim i = .ok a ↔
    requiredIdentity H.toPlatform identity "attester" = .ok () ∧
    verifyClaim H.toPlatform claim = .ok () ∧ i.verdict ∈ [Verdict.support, .contradict, .uncertain] ∧
    ∃ method evidence, normalizeText H.toPlatform i.method "attestation method" 256 = .ok method ∧
      normalizeEvidence H.toPlatform i.evidence = .ok evidence ∧
      a.body = ⟨js "truyn-attest-v1", 1, claim.claimId, i.verdict, claim.body.domain, method,
        evidence, normalizeLineage i.lineage, normalizeOptional i.rationaleDigest⟩ ∧
      a.attestationId = attestationIdOf H.toPlatform a.body identity.nodeId ∧
      a.attesterNodeId = identity.nodeId ∧ a.createdAt = i.createdAt ∧
      a.publicKey = identity.publicKeyPem ∧
      a.signature = H.signValue (attestationSigned a.attestationId a.body identity.nodeId i.createdAt)
        identity.privateKeyPem := by
  simp only [createAttestation, Checks.bind_ok, Checks.guard_ok, Checks.pure_ok, Checks.mapError_ok,
    not_not]
  constructor
  · rintro ⟨⟨⟩, hidentity, ⟨⟩, hclaim, hverdict, method, hmethod, evidence, hevidence, rfl⟩
    exact ⟨hidentity, hclaim, hverdict, method, evidence, hmethod, hevidence, rfl, rfl, rfl, rfl, rfl,
      rfl⟩
  · rintro ⟨hidentity, hclaim, hverdict, method, evidence, hmethod, hevidence, hbody, hid, hattester,
      hdate, hkey, hsignature⟩
    refine ⟨(), hidentity, (), hclaim, hverdict, method, hmethod, evidence, hevidence, ?_⟩
    cases a
    dsimp only at hbody hid hattester hdate hkey hsignature
    subst hbody hid hattester hdate hkey hsignature
    rfl

/-- The domain of a valid claim is its own normal form. -/
theorem domain_of_verified (hH : Lawful H) (h : verifyClaim H.toPlatform claim = .ok ()) :
    ∃ domain, normalizeText H.toPlatform claim.body.domain "claim domain" 256 = .ok domain ∧
      H.toLowerCase domain = claim.body.domain := by
  obtain ⟨-, -, r, hr, ⟨-, hcanonical⟩, -⟩ := verifyClaim_ok.mp h
  obtain ⟨domain, _, _, hdomain, -, -, hbody, -⟩ := claimContentId_ok.mp hr
  refine ⟨domain, hdomain, ?_⟩
  rw [← domain_of_value (hH.canonical hcanonical), hbody]

/-- The body of an attestation is its own normal form. -/
theorem normalizedBody_again (hH : Lawful H)
    (h : createAttestation H.toPlatform identity claim i = .ok a) :
    normalizedBody H.toPlatform a.body = .ok a.body := by
  obtain ⟨-, hclaim, -, method, evidence, hmethod, hevidence, hbody, -⟩ := createAttestation_ok.mp h
  obtain ⟨domain, hdomain, hlower⟩ := domain_of_verified hH hclaim
  rw [hbody]
  refine normalizedBody_ok.mpr ⟨domain, method, evidence, hdomain,
    normalizeText_fixed hH.toUnicode hmethod, normalizeEvidence_fixed hH.toUnicode hevidence, ?_⟩
  rw [hlower, normalizeLineage_fixed, normalizeOptional_fixed]

/-- An attestation is valid as it was created just when it has a date and its key signs for its
    attester. -/
theorem createAttestation_verifies (hH : Lawful H)
    (h : createAttestation H.toPlatform identity claim i = .ok a) {expectedClaimId : JsString}
    (hexpected : expectedClaimId = [] ∨ expectedClaimId = claim.claimId) :
    AttestationVerifies H a expectedClaimId ↔ i.createdAt ≠ [] ∧ Paired H.toPlatform identity := by
  have hagain := normalizedBody_again hH h
  obtain ⟨hidentity, -, hverdict, _, _, -, -, hbody, hid, hattester, hdate, hpublic, hsignature⟩ :=
    createAttestation_ok.mp h
  obtain ⟨⟨hnode, hkey, -⟩, hown⟩ := requiredIdentity_ok.mp hidentity
  have hverdict' : a.body.verdict ∈ [Verdict.support, .contradict, .uncertain] := by rwa [hbody]
  constructor
  · rintro ⟨a', ha', hverify, -⟩
    rw [receivedAttestation_eq hH hverdict'] at ha'
    cases ha'
    obtain ⟨hfields, -, -, -, _, -, -, -, hsigned⟩ := verifyAttestation_ok.mp hverify
    rw [hsignature, hpublic, hattester, hdate] at hsigned
    refine ⟨fun hno => hfields ?_, hH.pairs _ _ _ hsigned⟩
    exact .inr (.inr (.inl (List.isEmpty_iff.mpr (hdate.trans hno))))
  · rintro ⟨hpresent, hpaired⟩
    have hclaimId : a.body.claimId = claim.claimId := by rw [hbody]
    refine ⟨a, receivedAttestation_eq hH hverdict', verifyAttestation_ok.mpr ⟨?_, ?_, hverdict', ?_,
      a.body, hagain, rfl, ?_, ?_⟩, a.body, hagain, ?_⟩
    · have hlong : a.attestationId ≠ [] := by
        rw [hid]
        exact List.append_ne_nil_of_left_ne_nil (by decide) _
      simp [hlong, hattester, hnode, hdate, hpresent, hpublic, hkey, hsignature, hH.signed]
    · rintro ⟨hsome, hne⟩
      rcases hexpected with rfl | rfl
      · simp at hsome
      · exact hne hclaimId
    · rw [hpublic, hattester, hown]
    · rw [hattester, hid]
    · rw [hsignature, hpublic, hattester, hdate]
      exact hpaired _
    · rw [hattester, hid]

/-- A claim is valid as it was created just when its domain has settled, it has a date, and its key
    signs for its issuer; an attestation, without a word about a domain. -/
theorem verifies_as_created (hH : Lawful H) :
    (∀ identity i c, createClaim H.toPlatform identity i = .ok c → (ClaimVerifies H c ↔
      Settled H.toPlatform i.domain ∧ i.createdAt ≠ [] ∧ Paired H.toPlatform identity)) ∧
    ∀ identity claim i a, createAttestation H.toPlatform identity claim i = .ok a →
      ∀ expectedClaimId, expectedClaimId = [] ∨ expectedClaimId = claim.claimId →
      (AttestationVerifies H a expectedClaimId ↔ i.createdAt ≠ [] ∧ Paired H.toPlatform identity) :=
  ⟨fun _ _ _ h => createClaim_verifies hH h,
    fun _ _ _ _ h _ hexpected => createAttestation_verifies hH h hexpected⟩

/-! ### A host to compute with -/

/-- A natural number is printed as such; any other rational number under a name of its own. -/
def plainNumber (x : ℚ) : NumberText where
  text := if x.den = 1 ∧ 0 ≤ x.num then numeral x.num.toNat else 45 :: numeral (Encodable.encode x)
  first := by
    by_cases h : x.den = 1 ∧ 0 ≤ x.num
    · rw [if_pos h]
      obtain ⟨u, s, hs⟩ := List.exists_cons_of_ne_nil (numeral_ne_nil x.num.toNat)
      exact ⟨u, s, hs, .inr (numeral_digits _ u (hs ▸ List.mem_cons_self))⟩
    · rw [if_neg h]
      exact ⟨45, _, rfl, .inl rfl⟩
  units u hu := by
    have hdigits : ∀ n, ∀ u ∈ numeral n, u ≠ 44 ∧ u ≠ 93 ∧ u ≠ 125 := fun n =>
      (NumberText.ofNat n).units
    by_cases h : x.den = 1 ∧ 0 ≤ x.num
    · rw [if_pos h] at hu
      exact hdigits _ u hu
    · rw [if_neg h] at hu
      rcases List.mem_cons.mp hu with rfl | hu
      · decide
      · exact hdigits _ u hu

def plainRead (n : NumberText) : Option ℚ :=
  if n.text.head? = some 45 then Encodable.decode (numeralValue n.text.tail)
  else some (numeralValue n.text)

theorem plainRead_number (x : ℚ) : plainRead (plainNumber x) = some x := by
  by_cases h : x.den = 1 ∧ 0 ≤ x.num
  · have htext : (plainNumber x).text = numeral x.num.toNat := if_pos h
    have hhead : (numeral x.num.toNat).head? ≠ some 45 := by
      intro hhead
      have := (numeral_digits _ 45 (List.mem_of_mem_head? hhead)).1
      exact absurd this (by decide)
    rw [plainRead, htext, if_neg hhead, numeralValue_numeral]
    have hnum : ((x.num.toNat : ℕ) : ℚ) = x.num := by
      exact_mod_cast congrArg (Int.cast (R := ℚ)) (Int.toNat_of_nonneg h.2)
    rw [hnum, Rat.coe_int_num_of_den_eq_one h.1]
  · have htext : (plainNumber x).text = 45 :: numeral (Encodable.encode x) := if_neg h
    rw [plainRead, htext, if_pos List.head?_cons, List.tail_cons, numeralValue_numeral,
      Encodable.encodek]

/-- The composition that this host knows: a small j and a caron are one unit. -/
def compose : JsString → JsString
  | u :: v :: s =>
    if u = 106 ∧ v = 0x30C then 0x1F0 :: compose s else u :: compose (v :: s)
  | s => s

def lowerUnit (u : UInt16) : UInt16 := if 65 ≤ u ∧ u ≤ 90 then u + 32 else u

/-- No small j stands before a caron. -/
def Composed (s : JsString) : Prop := s.IsChain fun u v => ¬(u = 106 ∧ v = 0x30C)

theorem compose_of_composed (h : Composed s) : compose s = s := by
  induction s with
  | nil => rfl
  | cons u s ih =>
    cases s with
    | nil => rfl
    | cons v s =>
      obtain ⟨huv, hrest⟩ := List.isChain_cons_cons.mp h
      rw [compose, if_neg huv, ih hrest]

theorem head_compose (v : UInt16) (s : JsString) :
    (compose (v :: s)).head? = some v ∨ (compose (v :: s)).head? = some 0x1F0 := by
  cases s with
  | nil => exact .inl rfl
  | cons w s =>
    rw [compose]
    by_cases h : v = 106 ∧ w = 0x30C
    · rw [if_pos h]
      exact .inr rfl
    · rw [if_neg h]
      exact .inl rfl

theorem compose_composed : ∀ s, Composed (compose s)
  | [] => .nil
  | [u] => .singleton u
  | u :: v :: s => by
    rw [compose]
    by_cases h : u = 106 ∧ v = 0x30C
    · rw [if_pos h, Composed, List.isChain_cons]
      exact ⟨fun w _ hw => absurd hw.1 (by decide), compose_composed s⟩
    · rw [if_neg h, Composed, List.isChain_cons]
      refine ⟨fun w hw huw => ?_, compose_composed (v :: s)⟩
      rcases head_compose v s with hv | hv
      · obtain rfl : v = w := Option.some.inj (hv.symm.trans hw)
        exact h huw
      · obtain rfl : 0x1F0 = w := Option.some.inj (hv.symm.trans hw)
        exact absurd huw.2 (by decide)

/-- Collapsing white space brings nothing together. -/
theorem collapse_composed (h : Composed s) (inside : Bool) :
    Composed (collapse inside s) ∧
      (inside = false → ∀ v ∈ (collapse inside s).head?, v = 32 ∨ v ∈ s.head?) := by
  induction s generalizing inside with
  | nil => exact ⟨.nil, fun _ v hv => by cases hv⟩
  | cons u s ih =>
    obtain ⟨hu, hs⟩ := List.isChain_cons.mp h
    rw [collapse]
    by_cases hspace : isSpace u = true
    · rw [if_pos hspace]
      cases inside with
      | true => exact ⟨(ih hs true).1, fun h => by cases h⟩
      | false =>
        refine ⟨List.isChain_cons.mpr ⟨fun _ _ hv => absurd hv.1 (by decide), (ih hs true).1⟩, ?_⟩
        exact fun _ v hv => .inl (Option.some.inj hv).symm
    · rw [if_neg hspace]
      obtain ⟨hrest, hhead⟩ := ih hs false
      refine ⟨List.isChain_cons.mpr ⟨fun v hv huv => ?_, hrest⟩, fun _ v hv => .inr hv⟩
      rcases hhead rfl v hv with rfl | hv
      · exact absurd huv.2 (by decide)
      · exact hu v hv huv

theorem mem_compose {u : UInt16} : ∀ {s : JsString}, u ∈ s → u ∈ compose s ∨ 0x1F0 ∈ compose s
  | [v], h => .inl h
  | v :: w :: s, h => by
    rw [compose]
    by_cases hvw : v = 106 ∧ w = 0x30C
    · rw [if_pos hvw]
      exact .inr List.mem_cons_self
    · rw [if_neg hvw]
      rcases List.mem_cons.mp h with rfl | h
      · exact .inl List.mem_cons_self
      · exact (mem_compose h).imp (List.mem_cons_of_mem v) (List.mem_cons_of_mem v)

theorem mem_collapse {u : UInt16} (hu : isSpace u = false) (h : u ∈ s) (inside : Bool) :
    u ∈ collapse inside s := by
  induction s generalizing inside with
  | nil => cases h
  | cons v s ih =>
    rw [collapse]
    rcases List.mem_cons.mp h with rfl | h
    · rw [if_neg (by simp [hu])]
      exact List.mem_cons_self
    · by_cases hv : isSpace v = true
      · rw [if_pos hv]
        cases inside with
        | true => exact ih h true
        | false => exact List.mem_cons_of_mem 32 (ih h true)
      · rw [if_neg hv]
        exact List.mem_cons_of_mem v (ih h false)

theorem trim_ne_nil : trim s ≠ [] ↔ ∃ u ∈ s, isSpace u = false := by
  rw [trim_eq, ne_eq, List.rdropWhile_eq_nil_iff]
  constructor
  · intro h
    obtain ⟨u, hu, hspace⟩ : ∃ u ∈ s.dropWhile isSpace, ¬isSpace u = true := by
      simpa only [not_forall, exists_prop] using h
    exact ⟨u, (List.dropWhile_suffix _).subset hu, by simpa using hspace⟩
  · rintro ⟨u, hu, hspace⟩ h
    have hall : ∀ v ∈ s, isSpace v = true := by
      intro v hv
      rcases List.mem_append.mp (List.takeWhile_append_dropWhile ▸ hv :
        v ∈ s.takeWhile isSpace ++ s.dropWhile isSpace) with hv | hv
      · exact List.mem_takeWhile_imp hv
      · exact h v hv
    rw [hall u hu] at hspace
    cases hspace

theorem isSpace_lowerUnit (u : UInt16) (h : isSpace u = false) : isSpace (lowerUnit u) = false := by
  rw [lowerUnit]
  by_cases hu : 65 ≤ u ∧ u ≤ 90
  · have hlow : 65 ≤ u.toNat := hu.1
    have hhigh : u.toNat ≤ 90 := hu.2
    rw [if_pos hu, ← UInt16.ofNat_toNat (x := u)]
    generalize u.toNat = n at hlow hhigh
    interval_cases n <;> rfl
  · rwa [if_neg hu]

/-- How values are printed. -/
def printer : Host := { plain with numberText := plainNumber, readNumber := plainRead }

def composingHost : Host :=
  { printer with canonicalize := printer.stringify, nfkc := compose
                 toLowerCase := List.map lowerUnit }

theorem composingHost_lawful : Lawful composingHost where
  stable s := by
    refine compose_of_composed ?_
    exact List.IsChain.infix (collapse_composed (compose_composed s) false).1 (infix_trim _)
  cleaned s hs := by
    obtain ⟨u, hu, hspace⟩ := trim_ne_nil.mp hs
    refine trim_ne_nil.mpr ?_
    rcases mem_compose hu with h | h
    · exact ⟨u, mem_collapse hspace h false, hspace⟩
    · exact ⟨0x1F0, mem_collapse rfl h false, rfl⟩
  lowered s hs := by
    obtain ⟨u, hu, hspace⟩ := trim_ne_nil.mp hs
    exact trim_ne_nil.mpr ⟨_, List.mem_map_of_mem hu, isSpace_lowerUnit u hspace⟩
  numbers := plainRead_number
  canonical v w h := by
    have hparse : printer.parse (printer.stringify v) = printer.parse (printer.stringify w) :=
      congrArg printer.parse h
    rw [parse_stringify plainRead_number, parse_stringify plainRead_number] at hparse
    exact Option.some.inj hparse
  signed _ _ := (by decide : js "signed" ≠ [])
  pairs _ _ _ _ _ := rfl

theorem exists_claimContentId {P : Platform} (domain statement : JsString)
    (subject : Option JsString) (hdomain : normalizeText P b.domain "claim domain" 256 = .ok domain)
    (hstatement : normalizeText P b.statement "claim statement" 16384 = .ok statement)
    (hsubject : (b.subject.mapM fun s => normalizeText P s "claim subject" 2048) = .ok subject) :
    ∃ r, claimContentId P b = .ok r := by
  rw [claimContentId, hdomain, hstatement]
  exact ⟨_, by rw [hsubject]; rfl⟩

theorem exists_createAttestation (method : JsString) (evidence : List Evidence)
    (hidentity : requiredIdentity H.toPlatform identity "attester" = .ok ())
    (hclaim : verifyClaim H.toPlatform claim = .ok ())
    (hverdict : i.verdict ∈ [Verdict.support, .contradict, .uncertain])
    (hmethod : normalizeText H.toPlatform i.method "attestation method" 256 = .ok method)
    (hevidence : normalizeEvidence H.toPlatform i.evidence = .ok evidence) :
    ∃ a, createAttestation H.toPlatform identity claim i = .ok a := by
  rw [createAttestation, hidentity, hclaim, hmethod, hevidence]
  exact ⟨_, if_neg (not_not.mpr hverdict)⟩

def issuer : Identity := ⟨js "node", js "node", js "key"⟩

def rain (domain : JsString) : ClaimInput :=
  ⟨domain, js "It  rained.", none, .null, .object [], js "1970-01-01T00:00:00.000Z"⟩

/-- A capital J under a caron has no composition, a small one has. -/
theorem created_claim_refused : ∃ c,
    createClaim composingHost.toPlatform issuer (rain [74, 0x30C]) = .ok c ∧ ¬ClaimVerifies composingHost c := by
  have hidentity : requiredIdentity composingHost.toPlatform issuer "claim issuer" = .ok () := rfl
  obtain ⟨r, hr⟩ : ∃ r, claimContentId composingHost.toPlatform (rain [74, 0x30C]).body = .ok r :=
    exists_claimContentId [74, 0x30C] (js "It rained.") none rfl rfl rfl
  have hcreated := createClaim_ok.mpr ⟨hidentity, r, hr, rfl⟩
  refine ⟨_, hcreated, fun hverifies => ?_⟩
  obtain ⟨⟨-, hsettled⟩, -⟩ := (createClaim_verifies composingHost_lawful hcreated).mp hverifies
  exact absurd hsettled (by decide)

def rainReview : AttestationInput :=
  ⟨.support, [⟨js "source", js "gauge", none, [js "b", js " a ", js "b"]⟩], ⟨[], [], [], []⟩,
    js "independent-review", none, js "1970-01-01T00:00:00.000Z"⟩

theorem verifies_as_created_rain : ∃ c a,
    createClaim composingHost.toPlatform issuer (rain (js "Weather")) = .ok c ∧ ClaimVerifies composingHost c ∧
    createAttestation composingHost.toPlatform issuer c rainReview = .ok a ∧
    AttestationVerifies composingHost a c.claimId := by
  have hpaired : Paired composingHost.toPlatform issuer := fun _ => rfl
  have hdate : js "1970-01-01T00:00:00.000Z" ≠ [] := by decide
  obtain ⟨r, hr⟩ : ∃ r, claimContentId composingHost.toPlatform (rain (js "Weather")).body = .ok r :=
    exists_claimContentId (js "Weather") (js "It rained.") none rfl rfl rfl
  have hcreated := createClaim_ok.mpr ⟨(rfl : requiredIdentity composingHost.toPlatform issuer
    "claim issuer" = .ok ()), r, hr, rfl⟩
  obtain ⟨c', hc', hvalid, hagain⟩ :=
    ((verifies_as_created composingHost_lawful).1 issuer _ _ hcreated).mpr ⟨by decide, hdate, hpaired⟩
  rw [received_eq composingHost_lawful] at hc'
  cases hc'
  obtain ⟨a, ha⟩ : ∃ a, createAttestation composingHost.toPlatform issuer _ rainReview = .ok a :=
    exists_createAttestation (js "independent-review")
      [⟨js "source", js "gauge", none, [js "a", js "b"]⟩] rfl hvalid (by decide) rfl rfl
  exact ⟨_, a, hcreated, ⟨_, received_eq composingHost_lawful _, hvalid, hagain⟩, ha,
    ((verifies_as_created composingHost_lawful).2 issuer _ _ a ha _ (.inr rfl)).mpr ⟨hdate, hpaired⟩⟩

end Truyn.Trust
