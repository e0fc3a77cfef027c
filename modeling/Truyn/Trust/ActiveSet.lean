import Truyn.Trust.Lifecycle

/-! trust:active-set | what certificates and revocations do to the active attestations

    The index forgets all but the last standing certificate of a source. So a revocation that takes
    away the last one brings back an older one, which may cover what the last one did not
    (`revocation_monotone_iff`); and of several certificates the order decides, so that a
    certificate of a stranger can take the place of the one that an attestation relies on
    (`active_set_free_iff`). -/

namespace Truyn.Trust

variable {P : Platform} {q : ActiveTrustRequest} {a : Attestation} {m m' : Index}
  {certs : List LineageCertificate} {revs before after : List Revocation} {r : Revocation}
  {c x : LineageCertificate} {k : JsString} {now : ℤ}

/-! ### Active attestations -/

/-- The attestations that are assessed. -/
def activeSet (P : Platform) (q : ActiveTrustRequest) : List Attestation :=
  if claimRevoked P q then [] else (siftAll P q).active

/-- Valid, not revoked by its attester, and fresh. -/
def admissible (P : Platform) (q : ActiveTrustRequest) (a : Attestation) : Bool :=
  ok (verifyAttestation P a q.claim.claimId) &&
    !revokedByIssuer P "attestation" a.attestationId a.attesterNodeId q.revocations && fresh P q a

/-- The index of the request. -/
def indexOf (P : Platform) (q : ActiveTrustRequest) : Index :=
  certificateIndex P q.lineageCertificates q.revocations q.now

theorem foldl_sift (l : List Attestation) (s : Sifting) : (l.foldl (sift P q m) s).active =
    s.active ++ l.filter fun a => admissible P q a && declaredLineageIsCertified P a m := by
  induction l generalizing s with
  | nil => simp
  | cons a l ih =>
    rw [List.foldl_cons, ih, List.filter_cons]
    unfold sift admissible
    cases ok (verifyAttestation P a q.claim.claimId) <;>
      cases revokedByIssuer P "attestation" a.attestationId a.attesterNodeId q.revocations <;>
      cases fresh P q a <;> cases declaredLineageIsCertified P a m <;> simp

theorem mem_activeSet : a ∈ activeSet P q ↔ claimRevoked P q = false ∧ a ∈ q.attestations ∧
    admissible P q a = true ∧ declaredLineageIsCertified P a (indexOf P q) = true := by
  unfold activeSet
  cases claimRevoked P q
  · simp [siftAll, foldl_sift, indexOf]
  · simp

/-! ### Certified lineage -/

/-- The attestation declares the id. -/
def Declares (a : Attestation) (d : Dimension) (id : JsString) : Prop := id ∈ declaredIds a d

/-- A certificate of one of its sources covers the id. -/
def Covers (P : Platform) (m : Index) (a : Attestation) (d : Dimension) (id : JsString) : Prop :=
  ∃ e ∈ a.body.evidence, ∃ c, m (sourceLineageCommitment P e.sourceId) = some c ∧
    sourceLineageCommitment P id ∈ d.certified c.body

theorem certified_iff : declaredLineageIsCertified P a m = true ↔
    (∃ d id, Declares a d id) ∧ ∀ d id, Declares a d id → Covers P m a d id := by
  have hcovers : ∀ d id, Covers P m a d id ↔ sourceLineageCommitment P id ∈
      (a.body.evidence.filterMap fun e => m (sourceLineageCommitment P e.sourceId)).flatMap
        fun c => d.certified c.body := by
    intro d id
    simp only [Covers, List.mem_flatMap, List.mem_filterMap]
    constructor
    · rintro ⟨e, he, c, hc, hin⟩
      exact ⟨c, ⟨e, he, hc⟩, hin⟩
    · rintro ⟨c, ⟨e, he, hc⟩, hin⟩
      exact ⟨e, he, c, hc, hin⟩
  have hcount : 0 < (dimensions.map fun d => (declaredIds a d).length).sum ↔
      ∃ d id, Declares a d id := by
    have hpos : ∀ d, (∃ id, Declares a d id) ↔ 0 < (declaredIds a d).length := fun d => by
      rw [List.length_pos_iff_exists_mem]
      rfl
    simp only [hpos, dimensions, List.map_cons, List.map_nil, List.sum_cons, List.sum_nil]
    constructor
    · intro h
      by_contra hnone
      simp only [not_exists, Nat.not_lt, Nat.le_zero] at hnone
      simp [hnone] at h
    · rintro ⟨d, hd⟩
      cases d <;> omega
  have hevery : ∀ d : Dimension, d ∈ dimensions := fun d => by cases d <;> decide
  unfold declaredLineageIsCertified
  rw [← hcount]
  by_cases hempty : (a.body.evidence.filterMap fun e =>
      m (sourceLineageCommitment P e.sourceId)).isEmpty = true
  · simp only [hempty, if_true, Bool.false_eq_true, false_iff, not_and]
    intro hpos hall
    obtain ⟨d, id, hid⟩ := hcount.mp hpos
    have hcov := (hcovers d id).mp (hall d id hid)
    rw [List.isEmpty_iff.mp hempty] at hcov
    cases hcov
  · simp only [hempty, Bool.false_eq_true, if_false, Bool.and_eq_true, List.all_eq_true,
      decide_eq_true_eq, hcovers]
    exact ⟨fun ⟨hall, hpos⟩ => ⟨hpos, fun d id hid => hall d (hevery d) id hid⟩,
      fun ⟨hpos, hall⟩ => ⟨fun d _ id hid => hall d id hid, hpos⟩⟩

theorem activeSet_sublist : (activeSet P q).Sublist q.attestations := by
  unfold activeSet siftAll
  split
  · exact List.nil_sublist _
  · rw [foldl_sift]
    exact List.filter_sublist

theorem verified_active_iff :
    (∃ t, assessActiveTrust P q = .ok t ∧ t.lifecycleStatus = .of .verified) ↔
      claimRevoked P q = false ∧
      Verified P q.claim (activeSet P q) q.retrievalProvenance q.policy ∧
      ∀ d ∈ q.disputes, ok (verifyDispute P d q.claim.claimId) = true →
        d.signerNodeId ∉ q.authorizedDisputerNodeIds := by
  unfold assessActiveTrust activeSet Verified
  cases hc : verifyClaim P q.claim with
  | error e =>
    constructor
    · rintro ⟨t, ⟨⟩, -⟩
    · rintro ⟨-, ⟨r, hassess, -⟩, -⟩
      cases hc.symm.trans (assessClaimEvidence_ok.mp hassess).1.1
  | ok u =>
    dsimp only [Except.mapError, bind, Except.bind]
    cases claimRevoked P q with
    | true =>
      rw [if_pos rfl]
      constructor
      · rintro ⟨t, ⟨⟩, ⟨⟩⟩
      · rintro ⟨⟨⟩, -⟩
    | false =>
      rw [if_neg Bool.false_ne_true, if_neg Bool.false_ne_true]
      cases hb : assessClaimEvidence P q.claim (siftAll P q).active q.retrievalProvenance
          q.policy with
      | error e => simp
      | ok base =>
        constructor
        · rintro ⟨t, ⟨⟩, ht⟩
          dsimp only at ht
          split at ht
          · cases ht
          · next hquiet =>
            split at ht
            · cases ht
            · have hstatus := LifecycleStatus.of.inj ht
              refine ⟨rfl, ⟨base, rfl, hstatus⟩, fun d hd hok hauthorized => hquiet ⟨?_, ?_⟩⟩
              · exact List.length_pos_of_mem (List.mem_filter.mpr ⟨hd, by simp [hok, hauthorized]⟩)
              · simp [hstatus]
        · rintro ⟨-, ⟨r, ⟨⟩, hstatus⟩, hquiet⟩
          have hactive := Verified.attested ⟨base, hb, hstatus⟩
          refine ⟨_, rfl, ?_⟩
          dsimp only
          rw [if_neg ?_, if_neg fun hstale => hactive hstale.1, hstatus]
          rintro ⟨hdisputed, -⟩
          obtain ⟨d, hd⟩ := List.length_pos_iff_exists_mem.mp hdisputed
          simp only [List.mem_filter, Bool.and_eq_true, List.contains_iff_mem] at hd
          exact hquiet d hd.1 hd.2.1 hd.2.2

/-- What covers all that is declared still does, if the certificates that are gone are not missed. -/
theorem certified_imp_iff :
    (declaredLineageIsCertified P a m = true → declaredLineageIsCertified P a m' = true) ↔
    (declaredLineageIsCertified P a m = true → ∀ d id, Declares a d id →
      ∀ e ∈ a.body.evidence, ∀ c, m (sourceLineageCommitment P e.sourceId) = some c →
        m' (sourceLineageCommitment P e.sourceId) ≠ some c →
        sourceLineageCommitment P id ∈ d.certified c.body → Covers P m' a d id) := by
  constructor
  · intro h hm d id hid e _ c _ _ _
    exact (certified_iff.mp (h hm)).2 d id hid
  · intro h hm
    obtain ⟨hsome, hall⟩ := certified_iff.mp hm
    refine certified_iff.mpr ⟨hsome, fun d id hid => ?_⟩
    obtain ⟨e, he, c, hc, hin⟩ := hall d id hid
    by_cases hkept : m' (sourceLineageCommitment P e.sourceId) = some c
    · exact ⟨e, he, c, hkept, hin⟩
    · exact h hm d id hid e he c hc hkept hin

/-! ### The index -/

/-- The standing certificates of a source, in order. -/
def standing (P : Platform) (certs : List LineageCertificate) (revs : List Revocation) (now : ℤ)
    (k : JsString) : List LineageCertificate :=
  certs.filter fun c => stands P revs now c && decide (k = c.body.sourceCommitment)

/-- LAST: the index holds the last standing certificate of a source. -/
theorem certificateIndex_eq (certs : List LineageCertificate) (k : JsString) :
    certificateIndex P certs revs now k = (standing P certs revs now k).getLast? := by
  induction certs using List.reverseRecOn with
  | nil => rfl
  | append_singleton certs c ih =>
    have hfold : certificateIndex P (certs ++ [c]) revs now =
        if stands P revs now c then
          fun k => if k = c.body.sourceCommitment then some c else
            certificateIndex P certs revs now k
        else certificateIndex P certs revs now := by
      simp [certificateIndex]
    have hstanding : standing P (certs ++ [c]) revs now k = standing P certs revs now k ++
        if stands P revs now c && decide (k = c.body.sourceCommitment) then [c] else [] := by
      simp [standing, List.filter_append, List.filter_cons]
    rw [hfold, hstanding]
    cases hs : stands P revs now c with
    | false => simpa using ih
    | true =>
      by_cases hk : k = c.body.sourceCommitment
      · simp [hk]
      · simpa [hk] using ih

/-- The revocation takes the certificate away. -/
def revokes (P : Platform) (r : Revocation) (c : LineageCertificate) : Bool :=
  ok (verifyTrustRevocation P r) && (r.body.targetType = js "lineage-certificate" ∧
    r.body.targetId = c.certificateId ∧ r.signerNodeId = c.body.ownerNodeId : Bool)

theorem revokedByIssuer_insert (targetType : String) (targetId issuer : JsString) :
    revokedByIssuer P targetType targetId issuer (before ++ r :: after) =
      (revokedByIssuer P targetType targetId issuer (before ++ after) ||
        (ok (verifyTrustRevocation P r) && (r.body.targetType = js targetType ∧
          r.body.targetId = targetId ∧ r.signerNodeId = issuer : Bool))) := by
  simp only [revokedByIssuer, validRevocations, List.filter_append, List.any_append,
    List.filter_cons]
  cases hr : ok (verifyTrustRevocation P r) with
  | false => simp
  | true =>
    simp only [if_true, List.any_cons, Bool.true_and]
    rw [Bool.or_assoc, Bool.or_comm (List.any _ _) (decide _)]

theorem stands_insert : stands P (before ++ r :: after) now c =
    (stands P (before ++ after) now c && !revokes P r c) := by
  rw [stands, stands, revokedByIssuer_insert, revokes, Bool.not_or, Bool.and_assoc]

/-! ### One more revocation -/

theorem index_of_insert (h : certificateIndex P certs (before ++ r :: after) now k = some c) :
    certificateIndex P certs (before ++ after) now k = some c ∨
      ∃ latest, certificateIndex P certs (before ++ after) now k = some latest ∧
        revokes P r latest = true := by
  have hsplit : standing P certs (before ++ r :: after) now k =
      (standing P certs (before ++ after) now k).filter fun d => !revokes P r d := by
    rw [standing, standing, List.filter_filter]
    refine List.filter_congr fun d _ => ?_
    rw [stands_insert, Bool.and_assoc, Bool.and_comm (!_), ← Bool.and_assoc, Bool.and_comm (!_)]
  rw [certificateIndex_eq, hsplit] at h
  rw [certificateIndex_eq]
  rcases List.eq_nil_or_concat (standing P certs (before ++ after) now k) with hnil | ⟨l, d, hl⟩
  · rw [hnil] at h
    cases h
  · rw [hl, List.concat_eq_append, List.filter_append] at h
    rw [hl, List.concat_eq_append]
    cases hd : revokes P r d with
    | true => exact .inr ⟨d, by simp, hd⟩
    | false =>
      simp only [hd, Bool.not_false, List.filter_cons_of_pos, List.filter_nil,
        List.getLast?_concat] at h
      exact .inl (by simpa using h)

/-- The certificate that a source had is taken away, and an older one takes its place. -/
def Exposes (P : Platform) (q q' : ActiveTrustRequest) (r : Revocation) (k : JsString)
    (older : LineageCertificate) : Prop :=
  ∃ latest, indexOf P q k = some latest ∧ revokes P r latest = true ∧
    indexOf P q' k = some older

/-- MONOTONE: a revocation makes no attestation active just when, for those whose lineage the
    certificates that are left cover, no exposed certificate covers what was not covered before. -/
theorem revocation_monotone_iff (P : Platform) (request : ActiveTrustRequest)
    (before after : List Revocation) (r : Revocation) :
    let q := { request with revocations := before ++ after }
    let q' := { request with revocations := before ++ r :: after }
    (∀ a ∈ activeSet P q', a ∈ activeSet P q) ↔
    (claimRevoked P q' = false → ∀ a ∈ request.attestations, admissible P q' a = true →
      declaredLineageIsCertified P a (indexOf P q') = true → ∀ d id, Declares a d id →
        ∀ e ∈ a.body.evidence, ∀ older,
          Exposes P q q' r (sourceLineageCommitment P e.sourceId) older →
          sourceLineageCommitment P id ∈ d.certified older.body → Covers P (indexOf P q) a d id) := by
  intro q q'
  have hclaim : claimRevoked P q' = false → claimRevoked P q = false := by
    intro h
    simp only [claimRevoked, q', revokedByIssuer_insert, Bool.or_eq_false_iff] at h
    exact h.1
  have hadmissible : ∀ a, admissible P q' a = true → admissible P q a = true := by
    intro a h
    simp only [admissible, q', revokedByIssuer_insert, Bool.not_or, Bool.and_eq_true] at h ⊢
    exact ⟨⟨h.1.1, h.1.2.1⟩, h.2⟩
  constructor
  · intro h hopen a ha hadm hcert d id hid e _ older _ _
    obtain ⟨-, -, -, hbefore⟩ := mem_activeSet.mp (h a (mem_activeSet.mpr ⟨hopen, ha, hadm, hcert⟩))
    exact (certified_iff.mp hbefore).2 d id hid
  · intro h a ha
    obtain ⟨hopen, ha, hadm, hcert⟩ := mem_activeSet.mp ha
    refine mem_activeSet.mpr ⟨hclaim hopen, ha, hadmissible a hadm, ?_⟩
    refine certified_imp_iff.mpr (fun _ d id hid e he c hc hgone hin => ?_) hcert
    obtain hkept | ⟨latest, hlatest, hrevokes⟩ := index_of_insert hc
    · exact absurd hkept hgone
    · exact h hopen a ha hadm hcert d id hid e he c ⟨latest, hlatest, hrevokes, hc⟩ hin

/-! ### A certificate and a revocation to compute with -/

def plainCertificate (ownerNodeId sourceId originId : JsString) : LineageCertificate :=
  let body : CertificateBody := ⟨js "truyn-lineage-cert-v1", 1,
    sourceLineageCommitment plain sourceId, ownerNodeId, [sourceLineageCommitment plain originId],
    [], [], []⟩
  ⟨js "truyn:lineage:" ++ plain.hex body.value, body, js "1970-01-01T00:00:00.000Z",
    js "1970-01-02T00:00:00.000Z", ownerNodeId, js "signed"⟩

def plainRevocation (signerNodeId targetId : JsString) : Revocation :=
  let body : RevocationBody :=
    ⟨js "truyn-trust-revoke-v1", 1, js "lineage-certificate", targetId, none⟩
  ⟨js "truyn:trust-revoke:" ++ plain.hex (.object [(js "body", body.value),
    (js "signerNodeId", .string signerNodeId)]), body, signerNodeId,
    js "1970-01-01T00:00:00.000Z", signerNodeId, js "signed"⟩

/-- An attestation of one origin, with two certificates of its source: the older one is of that
    origin, the newer one of another. -/
def twoCertificates : ActiveTrustRequest where
  claim := plainClaim
  attestations := [plainAttestation (js "ann") .support [⟨js "photo", js "photo-7", none, []⟩]
    ⟨[js "gauge"], [], [], []⟩]
  lineageCertificates := [plainCertificate (js "owner") (js "photo-7") (js "gauge"),
    plainCertificate (js "owner") (js "photo-7") (js "wire")]
  now := 1000

/-- The owner revokes the newer certificate, and the attestation is active. -/
theorem revocation_activates :
    activeSet plain twoCertificates = [] ∧
    activeSet plain { twoCertificates with revocations := [plainRevocation (js "owner")
      (plainCertificate (js "owner") (js "photo-7") (js "wire")).certificateId] } =
        twoCertificates.attestations := by
  constructor <;> decide +kernel

/-! ### The order of certificates, and strangers -/

/-- One standing certificate for every source that has one. -/
def Picks (P : Platform) (q : ActiveTrustRequest) (m : Index) : Prop :=
  ∀ k, match m k with
    | none => standing P q.lineageCertificates q.revocations q.now k = []
    | some c => c ∈ standing P q.lineageCertificates q.revocations q.now k

theorem picks_index {certs' : List LineageCertificate} (h : q.lineageCertificates.Perm certs') :
    Picks P q (certificateIndex P certs' q.revocations q.now) := by
  intro k
  rw [certificateIndex_eq]
  have hp : (standing P q.lineageCertificates q.revocations q.now k).Perm
      (standing P certs' q.revocations q.now k) := h.filter _
  cases hlast : (standing P certs' q.revocations q.now k).getLast? with
  | none =>
    rw [List.getLast?_eq_none_iff.mp hlast] at hp
    exact hp.eq_nil
  | some c => exact hp.mem_iff.mpr (List.mem_of_getLast? hlast)

/-- The certificate is the choice for its source. -/
def chosen (m : Index) (c : LineageCertificate) : Bool := m c.body.sourceCommitment = some c

/-- Every choice is the index of some order. -/
theorem index_of_picks (h : Picks P q m) : ∃ certs', q.lineageCertificates.Perm certs' ∧
    certificateIndex P certs' q.revocations q.now = m := by
  refine ⟨q.lineageCertificates.filter (fun c => !chosen m c) ++ q.lineageCertificates.filter (chosen m),
    ?_, funext fun k => ?_⟩
  · exact (List.perm_append_comm.trans (List.filter_append_perm (chosen m) _)).symm
  · have hk := h k
    rw [certificateIndex_eq]
    cases hm : m k with
    | none =>
      rw [hm] at hk
      have hnone := List.filter_eq_nil_iff.mp hk
      rw [List.getLast?_eq_none_iff]
      refine List.filter_eq_nil_iff.mpr fun c hc => hnone c ?_
      rcases List.mem_append.mp hc with hc | hc <;> exact (List.mem_filter.mp hc).1
    | some c =>
      rw [hm] at hk
      obtain ⟨hc, hstands⟩ := List.mem_filter.mp hk
      simp only [Bool.and_eq_true, decide_eq_true_eq] at hstands
      have hlast : ∀ d ∈ standing P (q.lineageCertificates.filter (chosen m)) q.revocations q.now k,
          d = c := by
        intro d hd
        obtain ⟨hd, hds⟩ := List.mem_filter.mp hd
        have hchosen := (List.mem_filter.mp hd).2
        simp only [chosen, decide_eq_true_eq, Bool.and_eq_true] at hchosen hds
        rw [← hds.2, hm] at hchosen
        exact (Option.some.inj hchosen).symm
      have hin : c ∈ standing P (q.lineageCertificates.filter (chosen m)) q.revocations q.now k :=
        List.mem_filter.mpr ⟨List.mem_filter.mpr ⟨hc, by simp [chosen, ← hstands.2, hm]⟩, by
          simp [hstands.1, hstands.2]⟩
      have happend : standing P (q.lineageCertificates.filter (fun c => !chosen m c) ++
          q.lineageCertificates.filter (chosen m)) q.revocations q.now k =
          standing P (q.lineageCertificates.filter fun c => !chosen m c) q.revocations q.now k ++
            standing P (q.lineageCertificates.filter (chosen m)) q.revocations q.now k :=
        List.filter_append ..
      rw [happend, List.getLast?_append_of_ne_nil _ (List.ne_nil_of_mem hin)]
      obtain ⟨d, hd⟩ := Option.isSome_iff_exists.mp
        (List.getLast?_isSome.mpr (List.ne_nil_of_mem hin))
      rw [hd, hlast d (List.mem_of_getLast? hd)]

/-- The certificate takes the place that its source has in the index. -/
def withCertificate (m : Index) (x : LineageCertificate) : Index :=
  fun k => if k = x.body.sourceCommitment then some x else m k

theorem index_insert_certificate (P : Platform) (revs : List Revocation) (now : ℤ)
    (pre post : List LineageCertificate) (x : LineageCertificate) :
    certificateIndex P (pre ++ x :: post) revs now = certificateIndex P (pre ++ post) revs now ∨
    (stands P revs now x = true ∧ certificateIndex P (pre ++ x :: post) revs now =
      withCertificate (certificateIndex P (pre ++ post) revs now) x) := by
  have hsplit : ∀ k, standing P (pre ++ x :: post) revs now k = standing P pre revs now k ++
      ((if stands P revs now x && decide (k = x.body.sourceCommitment) then [x] else []) ++
        standing P post revs now k) := by
    intro k
    simp only [standing, List.filter_append, List.filter_cons]
    split <;> rfl
  have hwithout : ∀ k, standing P (pre ++ post) revs now k =
      standing P pre revs now k ++ standing P post revs now k := fun k => List.filter_append ..
  cases hs : stands P revs now x with
  | false =>
    refine .inl (funext fun k => ?_)
    rw [certificateIndex_eq, certificateIndex_eq, hsplit, hwithout, hs]
    rfl
  | true =>
    by_cases hpost : standing P post revs now x.body.sourceCommitment = []
    · refine .inr ⟨rfl, funext fun k => ?_⟩
      rw [certificateIndex_eq, hsplit, hs, withCertificate]
      by_cases hk : k = x.body.sourceCommitment
      · subst hk
        simp [hpost]
      · rw [if_neg hk, certificateIndex_eq, hwithout]
        simp [hk]
    · refine .inl (funext fun k => ?_)
      rw [certificateIndex_eq, certificateIndex_eq, hsplit, hwithout, hs]
      by_cases hk : k = x.body.sourceCommitment
      · subst hk
        rw [List.getLast?_append_of_ne_nil _ (by simp), List.getLast?_append_of_ne_nil _ hpost,
          List.getLast?_append_of_ne_nil _ hpost]
      · simp [hk]

theorem index_last_certificate (h : stands P revs now x = true) :
    certificateIndex P (certs ++ [x]) revs now =
      withCertificate (certificateIndex P certs revs now) x := by
  funext k
  simp [certificateIndex, withCertificate, h]

/-- A certificate that the attestation relies on is the owner's. -/
def ReliesOn (P : Platform) (m : Index) (a : Attestation) (ownerNodeId : JsString) : Prop :=
  ∃ e ∈ a.body.evidence, ∃ c, m (sourceLineageCommitment P e.sourceId) = some c ∧
    c.body.ownerNodeId = ownerNodeId

/-- The attestation relies on someone, and not on the owner of the certificate. -/
def Stranger (P : Platform) (q : ActiveTrustRequest) (a : Attestation) (x : LineageCertificate) :
    Prop :=
  (∃ owner, ReliesOn P (indexOf P q) a owner) ∧ ¬ReliesOn P (indexOf P q) a x.body.ownerNodeId

/-- The order of the certificates, and the certificate of a stranger wherever it is added, change
    nothing. -/
def ActiveFree (P : Platform) (q : ActiveTrustRequest) (x : LineageCertificate) : Prop :=
  (∀ certs', q.lineageCertificates.Perm certs' → ∀ a,
    a ∈ activeSet P { q with lineageCertificates := certs' } ↔ a ∈ activeSet P q) ∧
  ∀ pre post, q.lineageCertificates = pre ++ post → ∀ a, Stranger P q a x →
    (a ∈ activeSet P { q with lineageCertificates := pre ++ x :: post } ↔ a ∈ activeSet P q)

/-- FREE: so it is just when, for every attestation that would be admitted, all choices of one
    standing certificate for every source agree, and agree with the stranger's certificate in its
    source's place. -/
theorem active_set_free_iff (P : Platform) (q : ActiveTrustRequest) (x : LineageCertificate) :
    ActiveFree P q x ↔
    (claimRevoked P q = false → ∀ a ∈ q.attestations, admissible P q a = true →
      (∀ m, Picks P q m →
        declaredLineageIsCertified P a m = declaredLineageIsCertified P a (indexOf P q)) ∧
      (stands P q.revocations q.now x = true → Stranger P q a x →
        declaredLineageIsCertified P a (withCertificate (indexOf P q) x) =
          declaredLineageIsCertified P a (indexOf P q))) := by
  have hmem : ∀ certs' a, a ∈ activeSet P { q with lineageCertificates := certs' } ↔
      claimRevoked P q = false ∧ a ∈ q.attestations ∧ admissible P q a = true ∧
        declaredLineageIsCertified P a (certificateIndex P certs' q.revocations q.now) = true :=
    fun certs' a => mem_activeSet
  constructor
  · rintro ⟨horder, hstranger⟩ hopen a ha hadm
    have hsame : ∀ m : Index, (∃ certs', certificateIndex P certs' q.revocations q.now = m ∧
        (a ∈ activeSet P { q with lineageCertificates := certs' } ↔ a ∈ activeSet P q)) →
        declaredLineageIsCertified P a m = declaredLineageIsCertified P a (indexOf P q) := by
      rintro _ ⟨certs', rfl, hiff⟩
      rw [hmem, mem_activeSet] at hiff
      rw [Bool.eq_iff_iff]
      simpa [hopen, ha, hadm] using hiff
    refine ⟨fun m hm => ?_, fun hs hx => hsame _ ⟨q.lineageCertificates ++ [x],
      index_last_certificate hs, hstranger _ [] (by simp) a hx⟩⟩
    obtain ⟨certs', hp, rfl⟩ := index_of_picks hm
    exact hsame _ ⟨certs', rfl, horder certs' hp a⟩
  · intro h
    have hsame : ∀ {certs' a}, (claimRevoked P q = false → a ∈ q.attestations →
        admissible P q a = true → declaredLineageIsCertified P a
          (certificateIndex P certs' q.revocations q.now) =
            declaredLineageIsCertified P a (indexOf P q)) →
        (a ∈ activeSet P { q with lineageCertificates := certs' } ↔ a ∈ activeSet P q) := by
      intro certs' a heq
      rw [hmem, mem_activeSet]
      constructor
      · rintro ⟨hopen, ha, hadm, hcert⟩
        exact ⟨hopen, ha, hadm, heq hopen ha hadm ▸ hcert⟩
      · rintro ⟨hopen, ha, hadm, hcert⟩
        exact ⟨hopen, ha, hadm, (heq hopen ha hadm).symm ▸ hcert⟩
    refine ⟨fun certs' hp a => hsame fun hopen ha hadm => (h hopen a ha hadm).1 _ (picks_index hp),
      fun pre post hcerts a hx => hsame fun hopen ha hadm => ?_⟩
    rcases index_insert_certificate P q.revocations q.now pre post x with heq | ⟨hs, heq⟩
    · rw [heq, ← hcerts]
      rfl
    · rw [heq, ← hcerts]
      exact (h hopen a ha hadm).2 hs hx

/-- A stranger's certificate for the same source, added last, and the other order of two. -/
theorem stranger_deactivates :
    let own := plainCertificate (js "owner") (js "photo-7") (js "gauge")
    let foreign := plainCertificate (js "stranger") (js "photo-7") (js "wire")
    activeSet plain { twoCertificates with lineageCertificates := [own] } =
      twoCertificates.attestations ∧
    activeSet plain { twoCertificates with lineageCertificates := [own, foreign] } = [] ∧
    activeSet plain { twoCertificates with lineageCertificates := [foreign, own] } =
      twoCertificates.attestations := by
  refine ⟨?_, ?_, ?_⟩ <;> decide +kernel

end Truyn.Trust
