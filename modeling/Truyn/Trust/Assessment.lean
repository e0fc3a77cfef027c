import Truyn.Trust.Graph

/-! trust:assessment | what a set of attestations says of a claim

    `assessClaimEvidence` counts the groups of known lineage for and against the claim, and judges
    the counts by a policy. Attestations of unknown lineage count for nothing, a crowd that shares
    one token counts as one, and contradiction never verifies a claim (`sybil_resistance`). -/

namespace Truyn.Trust
open Families

/-! ### Retrieval -/

inductive Retrieval
  | notBound
  | failed (reason : String)
  | bound (rootCid queryHash : Option Value) (provenanceDigest : JsString) (selectedEvidence : ℕ)

/-- `retrieval.required && !retrieval.verified`. -/
def Retrieval.reason : Retrieval → Option String
  | .failed reason => some reason
  | _ => none

/-- `{ contentCommitment: entry.contentCommitment, holderReceiptDigest: ... }`, to be printed. -/
def commitment : Value → Except String Value
  | .null => .error "Cannot read properties of null (reading 'contentCommitment')"
  | entry =>
    match entry.get "contentCommitment", entry.get "holderReceiptDigest" with
    | some c, some d => .ok (.object [(js "contentCommitment", c), (js "holderReceiptDigest", d)])
    | _, _ => .error "TCJ1 requires JSON value"

def verifyRetrievalBinding (P : Platform) (claim : Claim) (retrievalProvenance : Option Value) :
    Except String Retrieval := do
  let basis := claim.body.basis
  if !truthy (some basis) ∨
      !strictEq (basis.get "kind") (some (.string (js "distributed-context"))) then
    return .notBound
  let provenance := retrievalProvenance.getD .null
  if !truthy (provenance.get "verified") then return .failed "retrieval_provenance_unverified"
  if !strictEq (provenance.get "rootCid") (basis.get "rootCid") then
    return .failed "retrieval_root_mismatch"
  if !strictEq (provenance.get "queryHash") (basis.get "queryHash") then
    return .failed "retrieval_query_mismatch"
  if !strictEq (some (.string (P.digest provenance))) (basis.get "provenanceDigest") then
    return .failed "retrieval_provenance_digest_mismatch"
  let expected ← listOf (basis.get "evidenceCommitments")
  let selected ← listOf (provenance.get "selected")
  let actual ← selected.mapM commitment
  if P.canonicalize (strings (sortStrings (expected.map P.canonicalize))) ≠
      P.canonicalize (strings (sortStrings (actual.map P.canonicalize))) then
    return .failed "retrieval_selection_commitment_mismatch"
  return .bound (basis.get "rootCid") (basis.get "queryHash") (P.digest provenance) expected.length

/-! ### Policy -/

/-- What a caller gives: `none` for what is not an integer. -/
structure PolicyInput where
  minIndependentSupport : Option ℤ := none
  maxContradictForVerified : Option ℤ := none
  requireKnownLineage : Bool := true

structure Policy where
  minIndependentSupport : ℤ
  maxContradictForVerified : ℤ
  requireKnownLineage : Bool
  deriving DecidableEq

def normalizePolicy (policy : PolicyInput) : Except String Policy := do
  let minIndependentSupport := policy.minIndependentSupport.getD 2
  let maxContradictForVerified := policy.maxContradictForVerified.getD 0
  if minIndependentSupport < 1 ∨ 32 < minIndependentSupport then
    throw "minIndependentSupport must be 1..32"
  if maxContradictForVerified < 0 ∨ 32 < maxContradictForVerified then
    throw "maxContradictForVerified must be 0..32"
  return ⟨minIndependentSupport, maxContradictForVerified, policy.requireKnownLineage⟩

/-! ### Balance -/

/-- Nearest whole number, and the even one of two. -/
def roundEven (x : ℚ) : ℤ :=
  let n := ⌊x⌋
  if x - n < 1 / 2 then n else if 1 / 2 < x - n then n + 1 else if n % 2 = 0 then n else n + 1

/-- The double nearest to a number that is neither tiny nor huge. -/
def double (x : ℚ) : ℚ :=
  if x = 0 then 0
  else
    let ulp : ℚ := 2 ^ (Int.log 2 |x| - 52)
    roundEven (x / ulp) * ulp

/-- `Number(x.toFixed(6))`, as it is printed. -/
def toFixed6 (x : ℚ) : ℚ :=
  (if 0 ≤ x then ⌊x * 10 ^ 6 + 1 / 2⌋ else -⌊-x * 10 ^ 6 + 1 / 2⌋ : ℤ) / 10 ^ 6

def evidenceBalance (support contradict mixed : ℕ) : Option ℚ :=
  let decisive := support + contradict + mixed
  if decisive = 0 then none
  else some (toFixed6 (double (((support : ℚ) - contradict) / decisive)))

/-! ### Assessment -/

inductive Status
  | insufficientIndependence
  | retrievalUnverified
  | unsupported
  | disputed
  | contradicted
  | verified
  deriving DecidableEq

def Status.text : Status → JsString
  | .insufficientIndependence => js "insufficient_independence"
  | .retrievalUnverified => js "retrieval_unverified"
  | .unsupported => js "unsupported"
  | .disputed => js "disputed"
  | .contradicted => js "contradicted"
  | .verified => js "verified"

structure TruthAssessment where
  status : Status
  reason : String
  evidenceBalance : Option ℚ
  independentKnownGroups : ℕ
  supportGroups : ℕ
  contradictGroups : ℕ
  mixedGroups : ℕ
  uncertainGroups : ℕ
  unknownLineageGroups : ℕ
  rawAttestations : ℕ
  deriving DecidableEq

structure Assessment where
  claimId : JsString
  retrievalIntegrity : Retrieval
  truthAssessment : TruthAssessment
  policy : Policy
  provenanceGraph : Graph

/-- The status and its reason. -/
def judge (policy : Policy) (retrieval : Retrieval) (attestations : ℕ) (i : Independence) :
    Status × String :=
  match retrieval.reason with
  | some reason => (.retrievalUnverified, reason)
  | none =>
    if attestations = 0 then (.unsupported, "no_attestations")
    else if 0 < i.mixedGroups ∨ (0 < i.supportGroups ∧ 0 < i.contradictGroups) then
      (.disputed, "independent_evidence_conflicts")
    else if policy.minIndependentSupport ≤ i.contradictGroups ∧ i.supportGroups = 0 then
      (.contradicted, "independent_contradiction_meets_policy")
    else if policy.minIndependentSupport ≤ i.supportGroups ∧
        i.contradictGroups ≤ policy.maxContradictForVerified ∧
        (!policy.requireKnownLineage ∨
          policy.minIndependentSupport ≤ i.independentKnownGroups) then
      (.verified, "independent_support_meets_policy")
    else if 0 < i.unknownLineageGroups ∧
        i.independentKnownGroups < policy.minIndependentSupport then
      (.insufficientIndependence, "lineage_unknown_or_correlated")
    else (.insufficientIndependence, "independent_support_below_policy")

def assessClaimEvidence (P : Platform) (claim : Claim) (attestations : List Attestation)
    (retrievalProvenance : Option Value) (policy : PolicyInput) : Except String Assessment := do
  (verifyClaim P claim).mapError ("invalid claim: " ++ ·)
  forM attestations fun a =>
    (verifyAttestation P a claim.claimId).mapError ("invalid attestation: " ++ ·)
  let normalizedPolicy ← normalizePolicy policy
  let retrieval ← verifyRetrievalBinding P claim retrievalProvenance
  let graph ← buildProvenanceGraph P claim attestations
  let i := graph.independence
  let (status, reason) := judge normalizedPolicy retrieval attestations.length i
  return ⟨claim.claimId, retrieval, ⟨status, reason,
    evidenceBalance i.supportGroups i.contradictGroups i.mixedGroups, i.independentKnownGroups,
    i.supportGroups, i.contradictGroups, i.mixedGroups, i.uncertainGroups, i.unknownLineageGroups,
    i.rawAttestations⟩, normalizedPolicy, graph⟩

/-! ### What verifies a claim -/

variable {P : Platform} {claim : Claim} {l A B : List Attestation} {rp : Option Value}
  {input : PolicyInput} {policy : Policy} {retrieval : Retrieval} {t : JsString}

/-- The assessment of valid evidence. -/
def assessmentOf (P : Platform) (claim : Claim) (l : List Attestation) (policy : Policy)
    (retrieval : Retrieval) : Assessment :=
  let i := analyzeAttestationIndependence P l
  let judged := judge policy retrieval l.length i
  ⟨claim.claimId, retrieval, ⟨judged.1, judged.2,
    evidenceBalance i.supportGroups i.contradictGroups i.mixedGroups, i.independentKnownGroups,
    i.supportGroups, i.contradictGroups, i.mixedGroups, i.uncertainGroups, i.unknownLineageGroups,
    i.rawAttestations⟩, policy, graphOf P claim l⟩

theorem forM_verify {r : Unit} : (forM l fun a =>
    (verifyAttestation P a claim.claimId).mapError ("invalid attestation: " ++ ·)) = .ok r ↔
      ∀ a ∈ l, verifyAttestation P a claim.claimId = .ok () := by
  induction l with
  | nil => simp [pure, Except.pure]
  | cons a l ih =>
    rw [List.forM_cons]
    cases hv : verifyAttestation P a claim.claimId with
    | error e => simp [Except.mapError, bind, Except.bind, hv]
    | ok u => simpa [Except.mapError, bind, Except.bind, hv] using ih

theorem assessClaimEvidence_ok {r : Assessment} :
    assessClaimEvidence P claim l rp input = .ok r ↔ Valid P claim l ∧ ∃ policy retrieval,
      normalizePolicy input = .ok policy ∧ verifyRetrievalBinding P claim rp = .ok retrieval ∧
      r = assessmentOf P claim l policy retrieval := by
  unfold assessClaimEvidence
  cases hc : verifyClaim P claim with
  | error e => exact ⟨fun h => (nomatch h), fun h => (nomatch hc.symm.trans h.1.1)⟩
  | ok u =>
    cases hl : forM l fun a =>
      (verifyAttestation P a claim.claimId).mapError ("invalid attestation: " ++ ·) with
    | error e =>
      refine ⟨fun h => by simp [Except.mapError, bind, Except.bind] at h, fun h => ?_⟩
      rw [(forM_verify (r := ())).mpr h.1.2] at hl
      cases hl
    | ok v =>
      have hvalid : Valid P claim l := ⟨hc, forM_verify.mp hl⟩
      cases hp : normalizePolicy input with
      | error e => simp [Except.mapError, bind, Except.bind]
      | ok policy =>
        cases hr : verifyRetrievalBinding P claim rp with
        | error e => simp [Except.mapError, bind, Except.bind]
        | ok retrieval =>
          simp [Except.mapError, bind, Except.bind, pure, Except.pure,
            buildProvenanceGraph_ok.mpr ⟨hvalid, rfl⟩, hvalid, assessmentOf, graphOf, eq_comm]

/-- The claim is reported as verified. -/
def Verified (P : Platform) (claim : Claim) (l : List Attestation) (rp : Option Value)
    (input : PolicyInput) : Prop :=
  ∃ r, assessClaimEvidence P claim l rp input = .ok r ∧ r.truthAssessment.status = .verified

theorem normalizePolicy_bounds (h : normalizePolicy input = .ok policy) :
    1 ≤ policy.minIndependentSupport ∧ 0 ≤ policy.maxContradictForVerified := by
  unfold normalizePolicy at h
  by_cases hmin : input.minIndependentSupport.getD 2 < 1 ∨ 32 < input.minIndependentSupport.getD 2
  · simp [hmin, bind, Except.bind, throw, throwThe, MonadExceptOf.throw] at h
  · by_cases hmax : input.maxContradictForVerified.getD 0 < 0 ∨
        32 < input.maxContradictForVerified.getD 0
    · simp [hmin, hmax, bind, Except.bind, throw, throwThe, MonadExceptOf.throw] at h
    · simp only [hmin, hmax, if_false, pure, Except.pure, Except.ok.injEq, bind, Except.bind] at h
      rw [← h]
      dsimp only
      omega

/-- VERIFIED: enough groups for the claim, and none against it. -/
theorem judge_verified {n : ℕ} {i : Independence} (hmin : 1 ≤ policy.minIndependentSupport)
    (hmax : 0 ≤ policy.maxContradictForVerified) :
    (judge policy retrieval n i).1 = .verified ↔ retrieval.reason = none ∧ n ≠ 0 ∧
      i.mixedGroups = 0 ∧ i.contradictGroups = 0 ∧
      policy.minIndependentSupport ≤ i.supportGroups ∧
      (policy.requireKnownLineage = true →
        policy.minIndependentSupport ≤ i.independentKnownGroups) := by
  unfold judge
  cases hr : retrieval.reason with
  | some reason => simp
  | none =>
    simp only [true_and]
    by_cases hn : n = 0
    · simp [hn]
    rw [if_neg hn]
    by_cases hmixed : 0 < i.mixedGroups ∨ (0 < i.supportGroups ∧ 0 < i.contradictGroups)
    · rw [if_pos hmixed]
      refine ⟨fun h => (nomatch h), fun ⟨_, hm, hc, hs, _⟩ => ?_⟩
      omega
    rw [if_neg hmixed]
    by_cases hagainst : policy.minIndependentSupport ≤ i.contradictGroups ∧ i.supportGroups = 0
    · rw [if_pos hagainst]
      refine ⟨fun h => (nomatch h), fun ⟨_, hm, hc, hs, _⟩ => ?_⟩
      omega
    rw [if_neg hagainst]
    by_cases hfor : policy.minIndependentSupport ≤ i.supportGroups ∧
        i.contradictGroups ≤ policy.maxContradictForVerified ∧
        (!policy.requireKnownLineage ∨
          policy.minIndependentSupport ≤ i.independentKnownGroups)
    · rw [if_pos hfor]
      obtain ⟨hs, -, hknown⟩ := hfor
      refine ⟨fun _ => ⟨hn, by omega, by omega, hs, fun h => ?_⟩, fun _ => rfl⟩
      simpa [h] using hknown
    · rw [if_neg hfor]
      refine ⟨fun h => ?_, fun ⟨_, _, hc, hs, hknown⟩ => absurd ⟨hs, by omega, ?_⟩ hfor⟩
      · split at h <;> cases h
      · cases hrequire : policy.requireKnownLineage with
        | true => exact .inr (hknown hrequire)
        | false => exact .inl rfl

theorem supportGroups_nil : (analyzeAttestationIndependence P []).supportGroups = 0 := by
  simp [analyzeAttestationIndependence, membersOf, Collation.sortBy, summary]

/-- Evidence verifies a claim just when its families of known lineage do. -/
theorem verified_iff : Verified P claim l rp input ↔ Valid P claim l ∧ ∃ policy retrieval,
    normalizePolicy input = .ok policy ∧ verifyRetrievalBinding P claim rp = .ok retrieval ∧
    retrieval.reason = none ∧
    (analyzeAttestationIndependence P l).mixedGroups = 0 ∧
    (analyzeAttestationIndependence P l).contradictGroups = 0 ∧
    policy.minIndependentSupport ≤ (analyzeAttestationIndependence P l).supportGroups ∧
    (policy.requireKnownLineage = true →
      policy.minIndependentSupport ≤ (analyzeAttestationIndependence P l).independentKnownGroups) := by
  constructor
  · rintro ⟨r, hr, hstatus⟩
    obtain ⟨hvalid, policy, retrieval, hp, hb, rfl⟩ := assessClaimEvidence_ok.mp hr
    obtain ⟨hmin, hmax⟩ := normalizePolicy_bounds hp
    obtain ⟨hreason, -, hrest⟩ := (judge_verified hmin hmax).mp hstatus
    exact ⟨hvalid, policy, retrieval, hp, hb, hreason, hrest⟩
  · rintro ⟨hvalid, policy, retrieval, hp, hb, hreason, hrest⟩
    obtain ⟨hmin, hmax⟩ := normalizePolicy_bounds hp
    refine ⟨_, assessClaimEvidence_ok.mpr ⟨hvalid, policy, retrieval, hp, hb, rfl⟩,
      (judge_verified hmin hmax).mpr ⟨hreason, fun hl => ?_, hrest⟩⟩
    obtain rfl := List.length_eq_zero_iff.mp hl
    have hsupport := hrest.2.2.1
    rw [supportGroups_nil] at hsupport
    omega

theorem Verified.attested (h : Verified P claim l rp input) : l.length ≠ 0 := by
  obtain ⟨r, hr, hstatus⟩ := h
  obtain ⟨-, policy, retrieval, hp, -, rfl⟩ := assessClaimEvidence_ok.mp hr
  obtain ⟨hmin, hmax⟩ := normalizePolicy_bounds hp
  exact ((judge_verified hmin hmax).mp hstatus).2.1

/-! ### What added attestations can do -/

theorem knownOf_append : knownOf (A ++ B) = knownOf A + knownOf B := by
  rw [knownOf, List.filter_append]
  rfl

theorem knownOf_unknown (hB : ∀ b ∈ B, known b = false) : knownOf B = 0 := by
  have hnil : B.filter known = [] := List.filter_eq_nil_iff.mpr fun b hb => by simp [hB b hb]
  rw [knownOf, hnil]
  rfl

theorem independentKnownGroups_eq : (analyzeAttestationIndependence P l).independentKnownGroups =
    (families lineageTokens (knownOf l)).card := by
  simpa [analyzeAttestationIndependence, summary] using known_groups (P := P) (l := l) fun _ => True

/-- Attestations with the same members of known lineage have the same counts. -/
theorem counts_of_known (h : knownOf l = knownOf A) (v : GroupVerdict) :
    (((analyzeAttestationIndependence P l).groups.filter fun g => g.knownLineage).filter
      fun g => g.verdict = v).length =
    (((analyzeAttestationIndependence P A).groups.filter fun g => g.knownLineage).filter
      fun g => g.verdict = v).length := by
  rw [known_groups, known_groups, h]

theorem verified_of_known (h : knownOf l = knownOf A) (hsub : ∀ a ∈ A, a ∈ l)
    (hl : Verified P claim l rp input) : Verified P claim A rp input := by
  obtain ⟨hvalid, policy, retrieval, hp, hb, hreason, hmixed, hagainst, hfor, hknown⟩ :=
    verified_iff.mp hl
  have hi : (analyzeAttestationIndependence P l).independentKnownGroups =
      (analyzeAttestationIndependence P A).independentKnownGroups := by
    rw [independentKnownGroups_eq, independentKnownGroups_eq, h]
  refine verified_iff.mpr ⟨⟨hvalid.1, fun a ha => hvalid.2 a (hsub a ha)⟩, policy, retrieval, hp, hb,
    hreason, (counts_of_known h .mixed).symm.trans hmixed,
    (counts_of_known h .contradict).symm.trans hagainst, ?_, hi ▸ hknown⟩
  have hs : (analyzeAttestationIndependence P l).supportGroups =
      (analyzeAttestationIndependence P A).supportGroups := counts_of_known h .support
  exact hs ▸ hfor

/-- A contradiction of known lineage is counted. -/
theorem contradiction_counts {b : Attestation} (hb : b ∈ l) (hk : known b = true)
    (hv : b.body.verdict = .contradict) :
    0 < (analyzeAttestationIndependence P l).mixedGroups +
      (analyzeAttestationIndependence P l).contradictGroups := by
  have hmem : family lineageTokens (knownOf l) b ∈ families lineageTokens (knownOf l) :=
    mem_families.mpr ⟨b, mem_knownOf.mpr ⟨hb, hk⟩, rfl⟩
  have hverdict : ∀ c : Multiset Attestation, b ∈ c →
      (describeAll P c).verdict = .mixed ∨ (describeAll P c).verdict = .contradict := by
    intro c
    induction c using Quotient.inductionOn with
    | _ p =>
      intro hbp
      have hin : Verdict.contradict ∈ p.map fun m => m.body.verdict :=
        List.mem_map.mpr ⟨b, hbp, hv⟩
      show groupVerdict _ = .mixed ∨ groupVerdict _ = .contradict
      unfold groupVerdict
      by_cases hs : Verdict.support ∈ p.map fun m => m.body.verdict
      · exact .inl (if_pos ⟨hs, hin⟩)
      · rw [if_neg fun h => hs h.1, if_neg hs, if_pos hin]
        exact .inr rfl
  have hcount : ∀ v, (describeAll P (family lineageTokens (knownOf l) b)).verdict = v →
      0 < (((analyzeAttestationIndependence P l).groups.filter fun g => g.knownLineage).filter
        fun g => g.verdict = v).length := by
    intro v h
    rw [known_groups]
    exact Finset.card_pos.mpr ⟨_, Finset.mem_filter.mpr ⟨hmem, h⟩⟩
  rcases hverdict _ (mem_family.mpr ⟨mem_knownOf.mpr ⟨hb, hk⟩, .refl⟩) with h | h
  · exact Nat.add_pos_left (hcount _ h) _
  · exact Nat.add_pos_right _ (hcount _ h)

/-- SYBIL RESISTANCE: attestations without lineage change no count, those that share one token add
    at most one group of any kind, and neither the first nor any contradiction verifies a claim that
    was not verified before. -/
theorem sybil_resistance (P : Platform) (claim : Claim) (retrievalProvenance : Option Value)
    (policy : PolicyInput) (A B C : List Attestation) (h : C.Perm (A ++ B)) :
    let before := analyzeAttestationIndependence P A
    let after := analyzeAttestationIndependence P C
    let verified := fun l => Verified P claim l retrievalProvenance policy
    ((∀ b ∈ B, known b = false) → after.independentKnownGroups = before.independentKnownGroups ∧
      after.supportGroups = before.supportGroups ∧ (verified C → verified A)) ∧
    ((∃ t, ∀ b ∈ B, known b = true → t ∈ lineageTokens b) →
      after.independentKnownGroups ≤ before.independentKnownGroups + 1 ∧
      after.supportGroups ≤ before.supportGroups + 1) ∧
    ((∀ b ∈ B, b.body.verdict = .contradict) → verified C → verified A) := by
  have hperm : knownOf C = knownOf A + knownOf B := (knownOf_perm h).trans knownOf_append
  have hsub : ∀ a ∈ A, a ∈ C := fun a ha => h.mem_iff.mpr (List.mem_append_left B ha)
  have hquiet : (∀ b ∈ B, known b = false) → knownOf C = knownOf A := by
    intro hB
    rw [hperm, knownOf_unknown hB, add_zero]
  refine ⟨fun hB => ⟨?_, ?_, verified_of_known (hquiet hB) hsub⟩, ?_, fun hB hC => ?_⟩
  · show (analyzeAttestationIndependence P C).independentKnownGroups = _
    rw [independentKnownGroups_eq, independentKnownGroups_eq, hquiet hB]
  · exact counts_of_known (hquiet hB) .support
  · rintro ⟨t, ht⟩
    have hB : ∀ b ∈ knownOf B, t ∈ lineageTokens b := fun b hb =>
      ht b (mem_knownOf.mp hb).1 (mem_knownOf.mp hb).2
    constructor
    · show (analyzeAttestationIndependence P C).independentKnownGroups ≤
        (analyzeAttestationIndependence P A).independentKnownGroups + 1
      rw [independentKnownGroups_eq, independentKnownGroups_eq, hperm]
      simpa using families_add_le (A := knownOf A) (fun _ => True) hB
    · show (((analyzeAttestationIndependence P C).groups.filter fun g => g.knownLineage).filter
          fun g => g.verdict = .support).length ≤
        (((analyzeAttestationIndependence P A).groups.filter fun g => g.knownLineage).filter
          fun g => g.verdict = .support).length + 1
      rw [known_groups, known_groups, hperm]
      exact families_add_le (fun c => (describeAll P c).verdict = .support) hB
  · refine verified_of_known (hquiet fun b hb => ?_) hsub hC
    by_contra hk
    obtain ⟨-, -, -, -, -, -, hmixed, hagainst, -⟩ := verified_iff.mp hC
    have hpos := contradiction_counts (P := P) (h.mem_iff.mpr (List.mem_append_right A hb))
      (by simpa using hk) (hB b hb)
    omega

/-- Two nodes that repeat one story. -/
theorem sybil_resistance_crowd :
    let ann := plainAttestation (js "ann") .support [] ⟨[js "gauge"], [], [], []⟩
    let crowd := [plainAttestation (js "bob") .support [] ⟨[js "wire"], [], [], []⟩,
      plainAttestation (js "cat") .support [] ⟨[js "wire"], [], [], []⟩]
    (analyzeAttestationIndependence plain (crowd ++ [ann])).supportGroups ≤
      (analyzeAttestationIndependence plain [ann]).supportGroups + 1 := by
  intro ann crowd
  have hwire : ∀ b ∈ crowd, known b = true → js "origin:wire" ∈ lineageTokens b := by
    decide
  exact ((sybil_resistance plain plainClaim none {} [ann] crowd (crowd ++ [ann])
    List.perm_append_comm).2.1 ⟨_, hwire⟩).2

/-! ### The thresholds of a policy -/

/-- What a policy asks of the groups of a verified claim. -/
structure Meets (policy : Policy) (i : Independence) : Prop where
  unmixed : i.mixedGroups = 0
  support : policy.minIndependentSupport ≤ i.supportGroups
  contradict : i.contradictGroups ≤ policy.maxContradictForVerified
  lineage : policy.requireKnownLineage = true →
    policy.minIndependentSupport ≤ i.independentKnownGroups

/-- Verified just when the thresholds are met, and never contradicted while they are. -/
def Honours (policy : Policy) (i : Independence) (status : Status) : Prop :=
  (status = .verified ↔ Meets policy i) ∧ (status = .contradicted → ¬Meets policy i)

theorem supportGroups_le (P : Platform) (l : List Attestation) :
    (analyzeAttestationIndependence P l).supportGroups ≤
      (analyzeAttestationIndependence P l).independentKnownGroups :=
  List.length_filter_le _ _

/-- Support of known lineage meets the lineage rule too, so the counts for and against decide. -/
theorem meets_iff : Meets policy (analyzeAttestationIndependence P l) ↔
    (analyzeAttestationIndependence P l).mixedGroups = 0 ∧
    policy.minIndependentSupport ≤ (analyzeAttestationIndependence P l).supportGroups ∧
    (analyzeAttestationIndependence P l).contradictGroups ≤ policy.maxContradictForVerified := by
  have hle := supportGroups_le P l
  exact ⟨fun h => ⟨h.unmixed, h.support, h.contradict⟩,
    fun ⟨hm, hs, hc⟩ => ⟨hm, hs, hc, fun _ => by omega⟩⟩

/-- A claim is contradicted only by groups that no group supports. -/
theorem judge_contradicted {n : ℕ} {i : Independence}
    (h : (judge policy retrieval n i).1 = .contradicted) : i.supportGroups = 0 := by
  unfold judge at h
  cases hr : retrieval.reason with
  | some reason => simp [hr] at h
  | none =>
    simp only [hr] at h
    split at h; · cases h
    split at h; · cases h
    split at h
    · next hagainst => exact hagainst.2
    split at h; · cases h
    split at h <;> cases h

/-- HONOURED: just when no group speaks against the claim, or the groups fail the policy anyway; a
    contradiction that the policy allows is never let through. -/
theorem thresholds_honoured_iff {r : Assessment}
    (h : assessClaimEvidence P claim l rp input = .ok r) (hp : normalizePolicy input = .ok policy)
    (hb : r.retrievalIntegrity.reason = none) :
    Honours policy (analyzeAttestationIndependence P l) r.truthAssessment.status ↔
      (analyzeAttestationIndependence P l).contradictGroups = 0 ∨
      policy.maxContradictForVerified < (analyzeAttestationIndependence P l).contradictGroups ∨
      0 < (analyzeAttestationIndependence P l).mixedGroups ∨
      (analyzeAttestationIndependence P l).supportGroups < policy.minIndependentSupport := by
  obtain ⟨-, policy', retrieval, hp', -, rfl⟩ := assessClaimEvidence_ok.mp h
  obtain rfl := Except.ok.inj (hp'.symm.trans hp)
  obtain ⟨hmin, hmax⟩ := normalizePolicy_bounds hp'
  have hverified := @judge_verified _ retrieval l.length
    (analyzeAttestationIndependence P l) hmin hmax
  have hle := supportGroups_le P l
  have hagainst : (assessmentOf P claim l policy' retrieval).truthAssessment.status =
      .contradicted → ¬Meets policy' (analyzeAttestationIndependence P l) := by
    intro hstatus hmeets
    have hnone := judge_contradicted hstatus
    have hsupport := hmeets.support
    omega
  have hempty : l.length = 0 → (analyzeAttestationIndependence P l).supportGroups = 0 :=
    fun hl => List.length_eq_zero_iff.mp hl ▸ supportGroups_nil
  constructor
  · rintro ⟨hiff, -⟩
    by_contra hcond
    simp only [not_or, not_lt] at hcond
    obtain ⟨hsome, hallowed, hunmixed, hfor⟩ := hcond
    obtain ⟨-, -, -, hnone, -⟩ :=
      hverified.mp (hiff.mpr (meets_iff.mpr ⟨by omega, hfor, hallowed⟩))
    exact hsome hnone
  · intro hcond
    refine ⟨⟨fun hstatus => ?_, fun hmeets => ?_⟩, hagainst⟩
    · obtain ⟨-, -, hunmixed, hnone, hfor, -⟩ := hverified.mp hstatus
      exact meets_iff.mpr ⟨hunmixed, hfor, by omega⟩
    · obtain ⟨hunmixed, hfor, hallowed⟩ := meets_iff.mp hmeets
      exact hverified.mpr ⟨hb, fun hl => by have := hempty hl; omega, hunmixed, by omega, hfor,
        hmeets.lineage⟩

/-- Two origins report the rain. -/
def rainReports : List Attestation :=
  [plainAttestation (js "ann") .support [] ⟨[js "gauge"], [], [], []⟩,
    plainAttestation (js "bob") .support [] ⟨[js "wire"], [], [], []⟩]

/-- A third one denies it. -/
def rainDenial : Attestation :=
  plainAttestation (js "cat") .contradict [] ⟨[js "radar"], [], [], []⟩

def lenient : PolicyInput := { maxContradictForVerified := some 1 }

theorem thresholds_honoured_rain : ∃ r,
    assessClaimEvidence plain plainClaim rainReports none lenient = .ok r ∧
    Honours ⟨2, 1, true⟩ (analyzeAttestationIndependence plain rainReports)
      r.truthAssessment.status := by
  have hvalid : Valid plain plainClaim rainReports := by
    refine ⟨by decide +kernel, fun a ha => ?_⟩
    simp only [rainReports, List.mem_cons, List.not_mem_nil, or_false] at ha
    rcases ha with rfl | rfl <;> decide +kernel
  have hassess := assessClaimEvidence_ok.mpr ⟨hvalid, ⟨2, 1, true⟩, .notBound,
    (rfl : normalizePolicy lenient = _), (rfl : verifyRetrievalBinding plain plainClaim none = _),
    rfl⟩
  exact ⟨_, hassess, (thresholds_honoured_iff hassess rfl rfl).mpr (.inl (by decide +kernel))⟩

/-- One contradiction that the policy allows makes the claim disputed. -/
theorem allowed_contradiction_disputes : ∃ r,
    assessClaimEvidence plain plainClaim (rainReports ++ [rainDenial]) none lenient = .ok r ∧
    r.retrievalIntegrity.reason = none ∧ normalizePolicy lenient = .ok ⟨2, 1, true⟩ ∧
    Meets ⟨2, 1, true⟩ (analyzeAttestationIndependence plain (rainReports ++ [rainDenial])) ∧
    r.truthAssessment.status = .disputed := by
  have hvalid : Valid plain plainClaim (rainReports ++ [rainDenial]) := by
    refine ⟨by decide +kernel, fun a ha => ?_⟩
    simp only [rainReports, List.cons_append, List.nil_append, List.mem_cons, List.not_mem_nil,
      or_false] at ha
    rcases ha with rfl | rfl | rfl <;> decide +kernel
  have hassess := assessClaimEvidence_ok.mpr ⟨hvalid, ⟨2, 1, true⟩, .notBound,
    (rfl : normalizePolicy lenient = _), (rfl : verifyRetrievalBinding plain plainClaim none = _),
    rfl⟩
  exact ⟨_, hassess, rfl, rfl, meets_iff.mpr (by decide +kernel), by decide +kernel⟩

end Truyn.Trust
