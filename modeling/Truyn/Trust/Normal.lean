import Truyn.Schemes.Checks
import Truyn.Trust.Claims

/-! trust:normal | normal forms, and what a verifier checks

    Text in normal form stays as it is when it is normalized again, and so does a list of strings.
    A claim, or an attestation, is valid just when a conjunction of checks holds. -/

namespace Truyn.Trust

/-! ### Normal forms -/

/-- Every white space is one space, and no two follow each other. -/
def Single (s : JsString) : Prop :=
  (∀ u ∈ s, isSpace u = true → u = 32) ∧ s.IsChain fun u v => ¬(isSpace u = true ∧ isSpace v = true)

theorem collapse_single (inside : Bool) (s : JsString) :
    Single (collapse inside s) ∧ (inside = true → ∀ u ∈ (collapse inside s).head?, isSpace u = false) := by
  induction s generalizing inside with
  | nil => simp [collapse, Single]
  | cons c s ih =>
    rw [collapse]
    by_cases hc : isSpace c = true
    · rw [if_pos hc]
      cases inside with
      | true => simpa using ih true
      | false =>
        obtain ⟨⟨hspace, hchain⟩, hhead⟩ := ih true
        refine ⟨⟨?_, ?_⟩, nofun⟩
        · simpa [Single] using hspace
        · rw [if_neg (by simp), List.isChain_cons]
          refine ⟨fun u hu hboth => ?_, hchain⟩
          simp [hhead rfl u hu] at hboth
    · rw [if_neg hc]
      obtain ⟨⟨hspace, hchain⟩, -⟩ := ih false
      refine ⟨⟨?_, ?_⟩, fun _ u hu => ?_⟩
      · exact List.forall_mem_cons.mpr ⟨fun h => absurd h hc, hspace⟩
      · rw [List.isChain_cons]
        exact ⟨fun u hu hboth => hc hboth.1, hchain⟩
      · obtain rfl : c = u := by simpa using hu
        simpa using hc

variable {s t : JsString} {l : List JsString} {max : ℕ}

theorem Single.part (h : Single t) (hst : s <:+: t) : Single s :=
  ⟨fun u hu => h.1 u (hst.subset hu), List.IsChain.infix h.2 hst⟩

theorem collapse_of_single (h : Single s) : collapse false s = s := by
  induction s with
  | nil => rfl
  | cons c s ih =>
    have hrest := ih (h.part (List.suffix_cons c s).isInfix)
    rw [collapse]
    by_cases hc : isSpace c = true
    · rw [if_pos hc, if_neg (by simp), ← h.1 c List.mem_cons_self hc]
      have hhead : collapse true s = collapse false s := by
        cases s with
        | nil => rfl
        | cons d s =>
          have hd : ¬isSpace d = true := fun hd => (List.isChain_cons_cons.mp h.2).1 ⟨hc, hd⟩
          rw [collapse, collapse, if_neg hd, if_neg hd]
      rw [hhead, hrest]
    · rw [if_neg hc, hrest]

theorem trim_eq (s : JsString) : trim s = (s.dropWhile isSpace).rdropWhile isSpace := rfl

theorem infix_trim (s : JsString) : trim s <:+: s :=
  (List.rdropWhile_prefix _ _).isInfix.trans (List.dropWhile_suffix _).isInfix

theorem trim_trim (s : JsString) : trim (trim s) = trim s := by
  have hfirst : (trim s).dropWhile isSpace = trim s := by
    rw [trim_eq, List.dropWhile_eq_self_iff]
    intro hpos
    rw [(List.rdropWhile_prefix isSpace (s.dropWhile isSpace)).getElem hpos]
    exact List.dropWhile_get_zero_not isSpace s _
  rw [trim_eq (trim s), hfirst, trim_eq, List.rdropWhile_idempotent]

theorem normal_fixed (s : JsString) : trim (collapse false (trim (collapse false s))) =
    trim (collapse false s) := by
  rw [collapse_of_single ((collapse_single false s).1.part (infix_trim _)), trim_trim]

/-! ### Lists of strings -/

theorem normalizeOptional_fixed (value : Option JsString) :
    normalizeOptional (normalizeOptional value) = normalizeOptional value := by
  cases value with
  | none => rfl
  | some s =>
    by_cases h : (trim s).isEmpty = true
    · simp [normalizeOptional, Option.filter, h]
    · simp [normalizeOptional, Option.filter, h, trim_trim]

theorem setOf_of_nodup (h : l.Nodup) : setOf l = l := by
  induction l with
  | nil => rfl
  | cons a l ih =>
    obtain ⟨ha, hl⟩ := List.nodup_cons.mp h
    have hfilter : (l.filter fun b => !b == a) = l :=
      List.filter_eq_self.mpr fun b hb => by simpa using fun hba : b = a => ha (hba ▸ hb)
    rw [setOf, List.eraseDups_cons, hfilter, ← setOf, ih hl]

/-- A list in normal form: trimmed strings, each once, in order. -/
structure Normal (l : List JsString) (max : ℕ) : Prop where
  trimmed : ∀ s ∈ l, trim s = s ∧ s.isEmpty = false
  nodup : l.Nodup
  sorted : l.Pairwise fun s t => unitsLe s t = true
  length : l.length ≤ max

theorem normal_list (l : List JsString) (max : ℕ) : Normal (normalizeStringList l max) max where
  trimmed s hs := by
    have hmem := (sortStrings_perm _).subset (List.mem_of_mem_take hs)
    obtain ⟨hmap, hempty⟩ := List.mem_filter.mp (mem_setOf.mp hmem)
    obtain ⟨t, -, rfl⟩ := List.mem_map.mp hmap
    exact ⟨trim_trim t, by simpa using hempty⟩
  nodup := ((sortStrings_perm _).nodup_iff.mpr (nodup_setOf _)).sublist (List.take_sublist _ _)
  sorted := (List.pairwise_insertionSort _ _).sublist (List.take_sublist _ _)
  length := List.length_take_le _ _

theorem normalizeStringList_of_normal (h : Normal l max) :
    normalizeStringList l max = l := by
  have hmap : l.map trim = l :=
    (List.map_congr_left fun s hs => (h.trimmed s hs).1).trans (List.map_id l)
  have hfilter : (l.filter fun s => !s.isEmpty) = l :=
    List.filter_eq_self.mpr fun s hs => by simp [(h.trimmed s hs).2]
  rw [normalizeStringList, hmap, hfilter, setOf_of_nodup h.nodup, sortStrings,
    h.sorted.insertionSort_eq, List.take_of_length_le h.length]

theorem normalizeLineage_fixed (l : Lineage) :
    normalizeLineage (normalizeLineage l) = normalizeLineage l := by
  simp only [normalizeLineage, normalizeStringList_of_normal (normal_list _ _)]

/-! ### What is checked -/

variable {P : Platform}

/-- `value.normalize('NFKC').replace(/\s+/g, ' ').trim()`. -/
def Platform.clean (P : Platform) (s : JsString) : JsString := trim (collapse false (P.nfkc s))

theorem normalizeText_ok {label : String} :
    normalizeText P s label max = .ok t ↔ trim s ≠ [] ∧ P.clean s = t ∧ t.length ≤ max := by
  rw [normalizeText, Checks.error_ok, Checks.error_ok, List.isEmpty_iff, not_lt]
  constructor
  · rintro ⟨hs, hlength, ht⟩
    obtain rfl : P.clean s = t := Except.ok.inj ht
    exact ⟨hs, rfl, hlength⟩
  · rintro ⟨hs, rfl, hlength⟩
    exact ⟨hs, hlength, rfl⟩

theorem claimContentId_ok {b : ClaimBody} {r : JsString × ClaimBody} :
    claimContentId P b = .ok r ↔ ∃ domain statement subject,
      normalizeText P b.domain "claim domain" 256 = .ok domain ∧
      normalizeText P b.statement "claim statement" 16384 = .ok statement ∧
      (b.subject.mapM fun s => normalizeText P s "claim subject" 2048) = .ok subject ∧
      r.2 = ⟨js "truyn-claim-v1", 1, P.toLowerCase domain, statement, subject,
        if b.basis.isObject then b.basis else .null,
        if b.qualifiers.isObject then b.qualifiers else .object []⟩ ∧
      r.1 = js "truyn:claim:" ++ P.hex r.2.value := by
  simp only [claimContentId, Checks.bind_ok, Checks.pure_ok]
  constructor
  · rintro ⟨domain, hdomain, statement, hstatement, subject, hsubject, rfl⟩
    exact ⟨domain, statement, subject, hdomain, hstatement, hsubject, rfl, rfl⟩
  · rintro ⟨domain, statement, subject, hdomain, hstatement, hsubject, hbody, hid⟩
    exact ⟨domain, hdomain, statement, hstatement, subject, hsubject,
      Prod.ext (by rw [hid, hbody]) hbody.symm⟩

/-- What is signed of a claim. -/
def claimSigned (claimId : JsString) (body : ClaimBody) (issuedBy createdAt : JsString) : Value :=
  .object [(js "body", body.value), (js "claimId", .string claimId),
    (js "createdAt", .string createdAt), (js "issuedBy", .string issuedBy)]

def attestationSigned (attestationId : JsString) (body : AttestationBody)
    (attesterNodeId createdAt : JsString) : Value :=
  .object [(js "attestationId", .string attestationId),
    (js "attesterNodeId", .string attesterNodeId), (js "body", body.value),
    (js "createdAt", .string createdAt)]

theorem verifyClaim_ok {c : Claim} : verifyClaim P c = .ok () ↔
    ¬(c.claimId.isEmpty ∨ c.issuedBy.isEmpty ∨ c.createdAt.isEmpty ∨ c.publicKey.isEmpty ∨
      c.signature.isEmpty) ∧
    P.nodeIdFromPublicKey c.publicKey = some c.issuedBy ∧
    ∃ r, claimContentId P c.body = .ok r ∧
      (r.1 = c.claimId ∧ P.canonicalize r.2.value = P.canonicalize c.body.value) ∧
      P.verifyValue (claimSigned c.claimId c.body c.issuedBy c.createdAt) c.signature c.publicKey =
        true := by
  simp only [verifyClaim, Checks.guard_ok, Checks.bind_ok, Checks.last_guard_ok, claimSigned,
    not_not, not_or, Bool.not_eq_true', Bool.not_eq_false, and_true]

theorem normalizedBody_ok {b n : AttestationBody} : normalizedBody P b = .ok n ↔
    ∃ domain method evidence, normalizeText P b.domain "claim domain" 256 = .ok domain ∧
      normalizeText P b.method "attestation method" 256 = .ok method ∧
      normalizeEvidence P b.evidence = .ok evidence ∧
      n = ⟨js "truyn-attest-v1", 1, b.claimId, b.verdict, P.toLowerCase domain, method, evidence,
        normalizeLineage b.lineage, normalizeOptional b.rationaleDigest⟩ := by
  simp only [normalizedBody, Checks.bind_ok, Checks.pure_ok]
  constructor
  · rintro ⟨domain, hdomain, method, hmethod, evidence, hevidence, rfl⟩
    exact ⟨domain, method, evidence, hdomain, hmethod, hevidence, rfl⟩
  · rintro ⟨domain, method, evidence, hdomain, hmethod, hevidence, rfl⟩
    exact ⟨domain, hdomain, method, hmethod, evidence, hevidence, rfl⟩

theorem verifyAttestation_ok {a : Attestation} {expectedClaimId : JsString} :
    verifyAttestation P a expectedClaimId = .ok () ↔
    ¬(a.attestationId.isEmpty ∨ a.attesterNodeId.isEmpty ∨ a.createdAt.isEmpty ∨
      a.publicKey.isEmpty ∨ a.signature.isEmpty) ∧
    ¬(!expectedClaimId.isEmpty ∧ a.body.claimId ≠ expectedClaimId) ∧
    a.body.verdict ∈ [Verdict.support, .contradict, .uncertain] ∧
    P.nodeIdFromPublicKey a.publicKey = some a.attesterNodeId ∧
    ∃ n, normalizedBody P a.body = .ok n ∧
      P.canonicalize n.value = P.canonicalize a.body.value ∧
      attestationIdOf P n a.attesterNodeId = a.attestationId ∧
      P.verifyValue (attestationSigned a.attestationId a.body a.attesterNodeId a.createdAt)
        a.signature a.publicKey = true := by
  simp only [verifyAttestation, Checks.guard_ok, Checks.bind_ok, Checks.last_guard_ok,
    attestationSigned, not_not, Bool.not_eq_true', Bool.not_eq_false, and_true]

/-! ### Lists that are normalized item by item -/

section
variable {α : Type} {f : α → Except String α}

theorem mapM_cons_ok {a : α} {l l' : List α} : (a :: l).mapM f = .ok l' ↔
    ∃ b, f a = .ok b ∧ ∃ m, l.mapM f = .ok m ∧ b :: m = l' := by
  simp only [List.mapM_cons, Checks.bind_ok, Checks.pure_ok]

theorem length_of_mapM {l l' : List α} (h : l.mapM f = .ok l') : l.length = l'.length := by
  induction l generalizing l' with
  | nil =>
    cases h
    rfl
  | cons a l ih =>
    obtain ⟨b, -, m, hm, rfl⟩ := mapM_cons_ok.mp h
    rw [List.length_cons, List.length_cons, ih hm]

theorem mapM_fixed (hf : ∀ a b, f a = .ok b → f b = .ok b) {l l' : List α}
    (h : l.mapM f = .ok l') : l'.mapM f = .ok l' := by
  induction l generalizing l' with
  | nil =>
    cases h
    rfl
  | cons a l ih =>
    obtain ⟨b, hb, m, hm, rfl⟩ := mapM_cons_ok.mp h
    exact mapM_cons_ok.mpr ⟨b, hf a b hb, m, ih hm, rfl⟩

end

/-! ### What Unicode promises -/

/-- Text that has been cleaned is in its compatibility form, white space aside there is something
    left of it, and of its lower-case form. -/
structure Unicode (P : Platform) : Prop where
  stable : ∀ s, P.nfkc (P.clean s) = P.clean s
  cleaned : ∀ s, trim s ≠ [] → P.clean s ≠ []
  lowered : ∀ s, trim s ≠ [] → trim (P.toLowerCase s) ≠ []

section
variable (hunicode : Unicode P)
include hunicode

theorem clean_clean (s : JsString) : P.clean (P.clean s) = P.clean s := by
  rw [Platform.clean, hunicode.stable, Platform.clean, normal_fixed]

variable {label : String} {max : ℕ}

theorem normalizeText_fixed {s t : JsString} (h : normalizeText P s label max = .ok t) :
    normalizeText P t label max = .ok t := by
  obtain ⟨hs, rfl, hlength⟩ := normalizeText_ok.mp h
  refine normalizeText_ok.mpr ⟨?_, clean_clean hunicode s, hlength⟩
  rw [Platform.clean, trim_trim]
  exact hunicode.cleaned s hs

theorem normalizeSubject_fixed {s t : Option JsString}
    (h : (s.mapM fun s => normalizeText P s label max) = .ok t) :
    (t.mapM fun s => normalizeText P s label max) = .ok t := by
  cases s with
  | none =>
    cases h
    rfl
  | some s =>
    obtain ⟨u, hu, rfl⟩ : ∃ u, normalizeText P s label max = .ok u ∧ some u = t :=
      Checks.map_ok.mp h
    exact Checks.map_ok.mpr ⟨u, normalizeText_fixed hunicode hu, rfl⟩

theorem normalizeEvidence_fixed {l l' : List Evidence} (h : normalizeEvidence P l = .ok l') :
    normalizeEvidence P l' = .ok l' := by
  rw [normalizeEvidence, Checks.guard_ok] at h ⊢
  obtain ⟨hlength, h⟩ := h
  refine ⟨by rwa [← length_of_mapM h], mapM_fixed (fun item item' hitem => ?_) h⟩
  simp only [Checks.bind_ok, Checks.pure_ok] at hitem ⊢
  obtain ⟨kind, hkind, sourceId, hsource, rfl⟩ := hitem
  have hpresent : kind.isEmpty = false := by
    obtain ⟨htrim, rfl, -⟩ := normalizeText_ok.mp hkind
    simpa using hunicode.cleaned _ htrim
  refine ⟨kind, ?_, sourceId, normalizeText_fixed hunicode hsource, ?_⟩
  · simpa [hpresent] using normalizeText_fixed hunicode hkind
  · simp only [normalizeOptional_fixed, normalizeStringList_of_normal (normal_list _ _)]

end

end Truyn.Trust
