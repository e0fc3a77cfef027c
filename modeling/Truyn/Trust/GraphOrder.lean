import Truyn.Trust.Receipts

/-! trust:graph-order | when the order of attestations shows in the graph

    Nodes, edges, groups and commitments are sorted, so the order in which attestations come is lost,
    but for one thing: a source is described by whoever mentions it first. The graph, its digest and
    the payload of a receipt are the same for every order just when no two attestations describe one
    source in different ways (`graph_order_free`). -/

namespace Truyn.Trust
open Families

variable {P : Platform} {claim : Claim} {l l' : List Attestation} {a b : Attestation} {n m : Node}

/-! ### First descriptions -/

theorem firsts_append (l : List Node) (n : Node) : firsts (l ++ [n]) = keep (firsts l) n := by
  simp [firsts]

theorem firsts_spec (l : List Node) : ((firsts l).map Node.id).Nodup ∧
    ∀ n, n ∈ firsts l ↔ l.find? (fun m => m.id = n.id) = some n := by
  induction l using List.reverseRecOn with
  | nil => simp [firsts]
  | append_singleton l x ih =>
    obtain ⟨hnodup, hmem⟩ := ih
    have hids : (∃ n ∈ firsts l, n.id = x.id) ↔ ∃ n ∈ l, n.id = x.id := by
      constructor
      · rintro ⟨n, hn, hid⟩
        exact ⟨n, List.mem_of_find?_eq_some ((hmem n).mp hn), hid⟩
      · rintro ⟨n, hn, hid⟩
        obtain ⟨m, hm⟩ := Option.isSome_iff_exists.mp
          ((List.find?_isSome (p := fun m => m.id = x.id)).mpr ⟨n, hn, by simpa using hid⟩)
        have hmid : m.id = x.id := by simpa using List.find?_some hm
        exact ⟨m, (hmem m).mpr (by rwa [hmid]), hmid⟩
    rw [firsts_append, keep]
    by_cases hany : ∃ n ∈ l, n.id = x.id
    · rw [if_pos (by simpa using hids.mpr hany)]
      refine ⟨hnodup, fun n => ?_⟩
      rw [hmem, List.find?_append]
      cases hfind : l.find? (fun m => m.id = n.id) with
      | some m => simp
      | none =>
        have hne : x.id ≠ n.id := by
          intro heq
          obtain ⟨k, hk, hkx⟩ := hany
          have := List.find?_eq_none.mp hfind k hk
          simp [hkx, heq] at this
        simp [hne]
    · rw [if_neg (by simpa using fun n hn h => hany (hids.mp ⟨n, hn, h⟩))]
      have hfresh : ∀ n ∈ firsts l, n.id ≠ x.id := fun n hn h => hany (hids.mp ⟨n, hn, h⟩)
      refine ⟨?_, fun n => ?_⟩
      · rw [List.map_append, List.map_singleton, List.nodup_append]
        refine ⟨hnodup, List.nodup_singleton _, fun i hi j hj => ?_⟩
        obtain ⟨n, hn, rfl⟩ := List.mem_map.mp hi
        obtain rfl := List.mem_singleton.mp hj
        exact hfresh n hn
      · rw [List.mem_append, List.mem_singleton, hmem, List.find?_append]
        cases hfind : l.find? (fun m => m.id = n.id) with
        | some m =>
          have hmn : m.id = n.id := by simpa using List.find?_some hfind
          have hxn : n ≠ x := fun h => hany ⟨m, List.mem_of_find?_eq_some hfind, h ▸ hmn⟩
          simp [hxn]
        | none =>
          by_cases hxn : x.id = n.id
          · simp [hxn, eq_comm]
          · have hne : n ≠ x := fun h => hxn (h ▸ rfl)
            simp [hxn, hne]

theorem mem_firsts {l : List Node} : n ∈ firsts l ↔ l.find? (fun m => m.id = n.id) = some n :=
  (firsts_spec l).2 n

/-- What the attestation says first of a source. -/
def describes (P : Platform) (a : Attestation) (id : JsString) : Option Node :=
  (mentions P a).find? fun n => n.id = id

/-- No two attestations describe one source in different ways. -/
def SourcesAgree (P : Platform) (l : List Attestation) : Prop :=
  ∀ a ∈ l, ∀ b ∈ l, ∀ id n m, describes P a id = some n → describes P b id = some m → n = m

theorem mem_firsts_mentions : n ∈ firsts (l.flatMap (mentions P)) ↔
    l.findSome? (fun a => describes P a n.id) = some n := by
  rw [mem_firsts, List.find?_flatMap]
  rfl

/-- Sources that all describe alike are in the graph in whatever order they come. -/
theorem firsts_perm (h : l.Perm l') (hagree : SourcesAgree P l) :
    (firsts (l.flatMap (mentions P))).Perm (firsts (l'.flatMap (mentions P))) := by
  have hsub : ∀ {l l' : List Attestation}, l.Perm l' → SourcesAgree P l →
      ∀ n ∈ firsts (l.flatMap (mentions P)), n ∈ firsts (l'.flatMap (mentions P)) := by
    intro l l' h hagree n hn
    obtain ⟨a, ha, hda⟩ := List.exists_of_findSome?_eq_some (mem_firsts_mentions.mp hn)
    cases hfind : l'.findSome? (fun a => describes P a n.id) with
    | none =>
      have := List.findSome?_eq_none_iff.mp hfind a (h.mem_iff.mp ha)
      rw [hda] at this
      cases this
    | some m =>
      obtain ⟨b, hb, hdb⟩ := List.exists_of_findSome?_eq_some hfind
      have heq := hagree a ha b (h.mem_iff.mpr hb) n.id n m hda hdb
      rw [mem_firsts_mentions, hfind, heq]
  refine (List.perm_ext_iff_of_nodup (List.Nodup.of_map _ (firsts_spec _).1)
    (List.Nodup.of_map _ (firsts_spec _).1)).mpr fun n => ⟨hsub h hagree n, hsub h.symm ?_ n⟩
  exact fun a ha b hb => hagree a (h.mem_iff.mpr ha) b (h.mem_iff.mpr hb)

/-! ### What a valid attestation's id says -/

theorem verifyAttestation_facts {id : JsString} (h : verifyAttestation P a id = .ok ()) :
    a.body.verdict ∈ [Verdict.support, .contradict, .uncertain] ∧
    ∃ normal, normalizedBody P a.body = .ok normal ∧
      P.canonicalize normal.value = P.canonicalize a.body.value ∧
      attestationIdOf P normal a.attesterNodeId = a.attestationId := by
  unfold verifyAttestation at h
  by_cases hmissing : a.attestationId.isEmpty ∨ a.attesterNodeId.isEmpty ∨ a.createdAt.isEmpty ∨
      a.publicKey.isEmpty ∨ a.signature.isEmpty
  · rw [if_pos hmissing] at h
    cases h
  rw [if_neg hmissing] at h
  by_cases hclaim : !id.isEmpty ∧ a.body.claimId ≠ id
  · rw [if_pos hclaim] at h
    cases h
  rw [if_neg hclaim] at h
  by_cases hverdict : a.body.verdict ∉ [Verdict.support, .contradict, .uncertain]
  · rw [if_pos hverdict] at h
    cases h
  rw [if_neg hverdict] at h
  by_cases hkey : P.nodeIdFromPublicKey a.publicKey ≠ some a.attesterNodeId
  · rw [if_pos hkey] at h
    cases h
  rw [if_neg hkey] at h
  cases hn : normalizedBody P a.body with
  | error e =>
    rw [hn] at h
    cases h
  | ok normal =>
    rw [hn] at h
    dsimp only [bind, Except.bind, pure, Except.pure] at h
    by_cases hcanon : P.canonicalize normal.value ≠ P.canonicalize a.body.value
    · rw [if_pos hcanon] at h
      cases h
    rw [if_neg hcanon] at h
    by_cases hid : attestationIdOf P normal a.attesterNodeId ≠ a.attestationId
    · rw [if_pos hid] at h
      cases h
    exact ⟨not_not.mp hverdict, normal, rfl, not_not.mp hcanon, not_not.mp hid⟩

theorem claimContentId_id {body : ClaimBody} {c : JsString × ClaimBody}
    (h : claimContentId P body = .ok c) : ∃ v, c.1 = js "truyn:claim:" ++ P.hex v := by
  unfold claimContentId at h
  cases hd : normalizeText P body.domain "claim domain" 256 with
  | error e =>
    rw [hd] at h
    cases h
  | ok domain =>
    cases hs : normalizeText P body.statement "claim statement" 16384 with
    | error e =>
      rw [hd, hs] at h
      cases h
    | ok statement =>
      cases hsub : body.subject.mapM fun s => normalizeText P s "claim subject" 2048 with
      | error e => simp [hd, hs, hsub, bind, Except.bind] at h
      | ok subject =>
        simp only [hd, hs, hsub, bind, Except.bind, pure, Except.pure, Except.ok.injEq] at h
        exact ⟨_, (congrArg Prod.fst h).symm⟩

theorem verifyClaim_id (h : verifyClaim P claim = .ok ()) :
    ∃ v, claim.claimId = js "truyn:claim:" ++ P.hex v := by
  unfold verifyClaim at h
  by_cases hmissing : claim.claimId.isEmpty ∨ claim.issuedBy.isEmpty ∨ claim.createdAt.isEmpty ∨
      claim.publicKey.isEmpty ∨ claim.signature.isEmpty
  · rw [if_pos hmissing] at h
    cases h
  rw [if_neg hmissing] at h
  by_cases hkey : P.nodeIdFromPublicKey claim.publicKey ≠ some claim.issuedBy
  · rw [if_pos hkey] at h
    cases h
  rw [if_neg hkey] at h
  cases hn : claimContentId P claim.body with
  | error e =>
    rw [hn] at h
    cases h
  | ok c =>
    rw [hn] at h
    dsimp only [bind, Except.bind, pure, Except.pure] at h
    by_cases hid : c.1 ≠ claim.claimId ∨ P.canonicalize c.2.value ≠ P.canonicalize claim.body.value
    · rw [if_pos hid] at h
      cases h
    have hc : c.1 = claim.claimId := by
      by_contra hne
      exact hid (.inl hne)
    obtain ⟨v, hv⟩ := claimContentId_id hn
    exact ⟨v, hc.symm.trans hv⟩

/-! ### Without collisions -/

/-- What the ids of a graph are digests of. -/
def hashed (P : Platform) (l : List Attestation) : Set Value := {v |
  (∃ a ∈ l, v = a.body.value ∨ ∃ normal, normalizedBody P a.body = .ok normal ∧
    (v = normal.value ∨ v = normal.attested a.attesterNodeId)) ∨
  ∃ p ∈ membersOf l, v = groupValue p}

/-- No two different values among them have one digest. -/
def CollisionFree (P : Platform) (l : List Attestation) : Prop := Set.InjOn P.hex (hashed P l)

theorem strings_injective : Function.Injective strings := by
  intro s t h
  rw [strings, strings, Value.array.injEq] at h
  exact List.map_injective_iff.mpr (fun _ _ h => Value.string.inj h) h

theorem nullable_injective : Function.Injective nullable := by
  intro s t h
  cases s <;> cases t
  · rfl
  · cases h
  · cases h
  · exact congrArg some (Value.string.inj h)

theorem Evidence.value_injective : Function.Injective Evidence.value := by
  intro e f h
  simp only [Evidence.value, Value.object.injEq, List.cons.injEq, Prod.mk.injEq, true_and,
    and_true, Value.string.injEq] at h
  obtain ⟨hdigest, hkind, hparents, hsource⟩ := h
  cases e
  cases f
  simp only [Evidence.mk.injEq]
  exact ⟨hkind, hsource, nullable_injective hdigest, strings_injective hparents⟩

theorem Lineage.value_injective : Function.Injective Lineage.value := by
  intro k m h
  simp only [Lineage.value, Value.object.injEq, List.cons.injEq, Prod.mk.injEq, true_and,
    and_true] at h
  obtain ⟨hgenerators, horigins, hparents, hpublishers⟩ := h
  cases k
  cases m
  simp only [Lineage.mk.injEq]
  exact ⟨strings_injective horigins, strings_injective hpublishers,
    strings_injective hgenerators, strings_injective hparents⟩

/-- The three verdicts have different texts. -/
theorem verdict_of_text {v w : Verdict} (hv : v ∈ [Verdict.support, .contradict, .uncertain])
    (hw : w ∈ [Verdict.support, .contradict, .uncertain]) (h : v.text = w.text) : v = w := by
  simp only [List.mem_cons, List.not_mem_nil, or_false] at hv hw
  rcases hv with rfl | rfl | rfl <;> rcases hw with rfl | rfl | rfl <;>
    first | rfl | exact absurd h (by decide)

theorem body_of_value {b c : AttestationBody}
    (hb : b.verdict ∈ [Verdict.support, .contradict, .uncertain])
    (hc : c.verdict ∈ [Verdict.support, .contradict, .uncertain]) (h : b.value = c.value) :
    b = c := by
  simp only [AttestationBody.value, AttestationBody.members, Value.object.injEq, List.cons.injEq,
    Prod.mk.injEq, true_and, and_true, Value.string.injEq, Value.number.injEq, Value.array.injEq,
    Int.cast_inj] at h
  obtain ⟨hclaim, hdomain, hevidence, hlineage, hmethod, hprotocol, hrationale, hverdict,
    hversion⟩ := h
  cases b
  cases c
  simp only [AttestationBody.mk.injEq]
  exact ⟨hprotocol, hversion, hclaim, verdict_of_text hb hc hverdict, hdomain, hmethod,
    List.map_injective_iff.mpr Evidence.value_injective hevidence,
    Lineage.value_injective hlineage, nullable_injective hrationale⟩

/-- Attestations with one id have one body and one attester. -/
theorem body_of_id (hfree : CollisionFree P l) (hvalid : Valid P claim l) (ha : a ∈ l) (hb : b ∈ l)
    (h : a.attestationId = b.attestationId) :
    a.body = b.body ∧ a.attesterNodeId = b.attesterNodeId := by
  obtain ⟨hva, na, hna, hca, hida⟩ := verifyAttestation_facts (hvalid.2 a ha)
  obtain ⟨hvb, nb, hnb, hcb, hidb⟩ := verifyAttestation_facts (hvalid.2 b hb)
  have hnormal : ∀ {c : Attestation} {n}, c ∈ l → normalizedBody P c.body = .ok n →
      P.canonicalize n.value = P.canonicalize c.body.value → n.value = c.body.value := by
    intro c n hc hn hcanon
    exact hfree (.inl ⟨c, hc, .inr ⟨n, hn, .inl rfl⟩⟩) (.inl ⟨c, hc, .inl rfl⟩)
      (congrArg P.sha256 hcanon)
  have hattested : na.attested a.attesterNodeId = nb.attested b.attesterNodeId := by
    refine hfree (.inl ⟨a, ha, .inr ⟨na, hna, .inr rfl⟩⟩) (.inl ⟨b, hb, .inr ⟨nb, hnb, .inr rfl⟩⟩) ?_
    exact List.append_cancel_left (hida.trans (h.trans hidb.symm))
  simp only [AttestationBody.attested, Value.object.injEq, List.cons.injEq, Prod.mk.injEq,
    true_and, Value.string.injEq] at hattested
  refine ⟨body_of_value hva hvb ?_, hattested.1⟩
  rw [← hnormal ha hna hca, ← hnormal hb hnb hcb]
  exact congrArg Value.object hattested.2

/-! ### Ids that a language tells apart -/

/-- A digest with the name of its kind. -/
def IsId (P : Platform) (s : JsString) : Prop :=
  ∃ kind ∈ [js "truyn:claim:", js "truyn:attest:", js "source:sha256:", js "sha256:"],
    ∃ v, s = kind ++ P.hex v

/-- `localeCompare` tells ids apart, alone and at the start or at the end of like text. -/
structure TellsIds (P : Platform) : Prop where
  alone : ∀ x y, IsId P x → IsId P y → P.collation.same id x y = true → x = y
  starts : ∀ x y r s, IsId P x → IsId P y →
    P.collation.same id (x ++ (js ":" ++ r)) (y ++ (js ":" ++ s)) = true → x = y
  ends : ∀ z x y, IsId P z → IsId P x → IsId P y →
    P.collation.same id (z ++ (js ":DERIVED_FROM:" ++ x)) (z ++ (js ":DERIVED_FROM:" ++ y)) = true →
      x = y

variable {x y : JsString} {e : Edge} {p : List Attestation}

theorem kinds_apart {p q : JsString} {k : ℕ} (hp : k ≤ p.length) (hq : k ≤ q.length)
    (hne : p.take k ≠ q.take k) : p ++ x ≠ q ++ y := by
  intro h
  have htake := congrArg (List.take k) h
  rw [List.take_append_of_le_length hp, List.take_append_of_le_length hq] at htake
  exact hne htake

theorem attest_ne_source : js "truyn:attest:" ++ x ≠ js "source:sha256:" ++ y :=
  kinds_apart (k := 1) (by decide) (by decide) (by decide)

theorem claim_ne_source : js "truyn:claim:" ++ x ≠ js "source:sha256:" ++ y :=
  kinds_apart (k := 1) (by decide) (by decide) (by decide)

theorem claim_ne_attest : js "truyn:claim:" ++ x ≠ js "truyn:attest:" ++ y :=
  kinds_apart (k := 7) (by decide) (by decide) (by decide)

/-- The id of a node of a source. -/
def IsSource (P : Platform) (s : JsString) : Prop := ∃ v, s = js "source:sha256:" ++ P.hex v

theorem IsSource.isId {s : JsString} : IsSource P s → IsId P s
  | ⟨v, h⟩ => ⟨_, by simp, v, h⟩

theorem isSource_sourceNodeId (sourceId : JsString) (contentDigest : Option JsString) :
    IsSource P (sourceNodeId P sourceId contentDigest) := by
  have hkind : js "source:" ++ js "sha256:" = js "source:sha256:" := by decide
  refine ⟨.object [(js "contentDigest", nullable contentDigest),
    (js "sourceId", .string sourceId)], ?_⟩
  rw [sourceNodeId, Platform.digest, ← List.append_assoc, hkind]
  rfl

theorem isSource_of_mentions (h : n ∈ mentions P a) : IsSource P n.id := by
  obtain ⟨e, -, hn⟩ := List.mem_flatMap.mp h
  rcases List.mem_cons.mp hn with rfl | hn
  · exact isSource_sourceNodeId _ _
  · obtain ⟨p, -, rfl⟩ := List.mem_map.mp hn
    exact isSource_sourceNodeId _ _

theorem mem_of_firsts (h : n ∈ firsts (l.flatMap (mentions P))) : ∃ a ∈ l, n ∈ mentions P a :=
  List.mem_flatMap.mp (List.mem_of_find?_eq_some (mem_firsts.mp h))

/-- What a valid attestation's id is made of. -/
theorem attestationId_eq (hvalid : Valid P claim l) (ha : a ∈ l) :
    ∃ v, a.attestationId = js "truyn:attest:" ++ P.hex v := by
  obtain ⟨-, na, -, -, hid⟩ := verifyAttestation_facts (hvalid.2 a ha)
  exact ⟨_, hid.symm⟩

/-! ### Nodes and edges in one order -/

/-- The nodes, unsorted. -/
def nodesOf (P : Platform) (claim : Claim) (l : List Attestation) : List Node :=
  .claim claim.claimId (P.digest claim.body.value) ::
    (l.map (attestNode P) ++ firsts (l.flatMap (mentions P)))

theorem mem_nodesOf : n ∈ nodesOf P claim l ↔
    n = .claim claim.claimId (P.digest claim.body.value) ∨ (∃ a ∈ l, attestNode P a = n) ∨
      n ∈ firsts (l.flatMap (mentions P)) := by
  simp [nodesOf]

/-- Nodes with one id are one node. -/
theorem node_of_id (hfree : CollisionFree P l) (hvalid : Valid P claim l)
    (hn : n ∈ nodesOf P claim l) (hm : m ∈ nodesOf P claim l) (h : n.id = m.id) : n = m := by
  obtain ⟨v, hclaim⟩ := verifyClaim_id hvalid.1
  have hattest : ∀ a ∈ l, ∃ w, (attestNode P a).id = js "truyn:attest:" ++ P.hex w :=
    fun a ha => attestationId_eq hvalid ha
  have hsource : ∀ k ∈ firsts (l.flatMap (mentions P)), IsSource P k.id := fun k hk =>
    let ⟨_, _, hmem⟩ := mem_of_firsts hk
    isSource_of_mentions hmem
  rcases mem_nodesOf.mp hn with rfl | ⟨a, ha, rfl⟩ | hn <;>
    rcases mem_nodesOf.mp hm with rfl | ⟨b, hb, rfl⟩ | hm
  · rfl
  · obtain ⟨w, hw⟩ := hattest b hb
    exact absurd (hclaim.symm.trans (h.trans hw)) claim_ne_attest
  · obtain ⟨w, hw⟩ := hsource m hm
    exact absurd (hclaim.symm.trans (h.trans hw)) claim_ne_source
  · obtain ⟨w, hw⟩ := hattest a ha
    exact absurd (hclaim.symm.trans (h.symm.trans hw)) claim_ne_attest
  · obtain ⟨hbody, hattester⟩ := body_of_id hfree hvalid ha hb h
    have hid : a.attestationId = b.attestationId := h
    rw [attestNode, attestNode, hid, hbody, hattester]
  · obtain ⟨w, hw⟩ := hattest a ha
    obtain ⟨w', hw'⟩ := hsource m hm
    exact absurd (hw.symm.trans (h.trans hw')) attest_ne_source
  · obtain ⟨w, hw⟩ := hsource n hn
    exact absurd (hclaim.symm.trans (h.symm.trans hw)) claim_ne_source
  · obtain ⟨w, hw⟩ := hattest b hb
    obtain ⟨w', hw'⟩ := hsource n hn
    exact absurd (hw.symm.trans (h.symm.trans hw')) attest_ne_source
  · have hn' := mem_firsts.mp hn
    rw [h, mem_firsts.mp hm] at hn'
    exact (Option.some.inj hn').symm

theorem isId_of_node (hvalid : Valid P claim l) (hn : n ∈ nodesOf P claim l) : IsId P n.id := by
  rcases mem_nodesOf.mp hn with rfl | ⟨a, ha, rfl⟩ | hn
  · obtain ⟨v, hv⟩ := verifyClaim_id hvalid.1
    exact ⟨_, by simp, v, hv⟩
  · obtain ⟨v, hv⟩ := attestationId_eq hvalid ha
    exact ⟨_, by simp, v, hv⟩
  · obtain ⟨a, ha, hmem⟩ := mem_of_firsts hn
    exact (isSource_of_mentions hmem).isId

theorem nodes_eq (hfree : CollisionFree P l) (htells : TellsIds P) (hvalid : Valid P claim l)
    (h : l.Perm l') (hagree : SourcesAgree P l) :
    P.collation.sortBy Node.id (nodesOf P claim l) =
      P.collation.sortBy Node.id (nodesOf P claim l') := by
  have hp : (nodesOf P claim l).Perm (nodesOf P claim l') :=
    ((h.map _).append (firsts_perm h hagree)).cons _
  refine Collation.sortBy_eq hp fun n hn m hm hle hge => node_of_id hfree hvalid hn hm ?_
  exact htells.alone _ _ (isId_of_node hvalid hn) (isId_of_node hvalid hm)
    (Collation.same_iff.mpr ⟨hle, hge⟩)

/-- An edge comes from the attestation, or from one source to another. -/
theorem edge_cases (h : e ∈ edgesOf P claim a) : e.fromId = a.attestationId ∨
    (IsSource P e.fromId ∧ IsSource P e.toId ∧ e.type = .derivedFrom) := by
  simp only [edgesOf, List.mem_cons, List.mem_append, List.mem_flatMap, List.mem_map] at h
  rcases h with rfl | ⟨ev, -, hev⟩ | ⟨p, -, rfl⟩
  · exact .inl rfl
  · rcases List.mem_cons.mp hev with rfl | hev
    · exact .inl rfl
    · obtain ⟨p, -, rfl⟩ := List.mem_map.mp hev
      exact .inr ⟨isSource_sourceNodeId _ _, isSource_sourceNodeId _ _, rfl⟩
  · exact .inl rfl

theorem isId_of_edge (hvalid : Valid P claim l) (ha : a ∈ l) (h : e ∈ edgesOf P claim a) :
    IsId P e.fromId := by
  rcases edge_cases h with hfrom | ⟨hfrom, -, -⟩
  · obtain ⟨v, hv⟩ := attestationId_eq hvalid ha
    exact ⟨_, by simp, v, hfrom.trans hv⟩
  · exact hfrom.isId

theorem Edge.key_eq (e : Edge) :
    e.key = e.fromId ++ (js ":" ++ (e.type.text ++ js ":" ++ e.toId)) := by
  simp [key]

theorem Edge.key_derivedFrom (h : e.type = .derivedFrom) :
    e.key = e.fromId ++ (js ":DERIVED_FROM:" ++ e.toId) := by
  have htext : js ":" ++ (js "DERIVED_FROM" ++ js ":") = js ":DERIVED_FROM:" := by decide
  rw [key, h, ← htext]
  simp [EdgeType.text]

theorem same_key {x : Edge} (h : P.collation.same Edge.key x e = true) :
    P.collation.same id x.key e.key = true := h

theorem flatMap_ite {α β : Type*} (l : List α) (p : α → Bool) (F : List β) :
    (l.flatMap fun a => if p a then F else []) = (List.replicate (l.countP p) F).flatten := by
  induction l with
  | nil => rfl
  | cons a l ih =>
    by_cases h : p a = true
    · simp [h, ih, List.replicate_succ]
    · simp [h, ih]

theorem edges_eq (hfree : CollisionFree P l) (htells : TellsIds P) (hvalid : Valid P claim l)
    (h : l.Perm l') : P.collation.sortBy Edge.key (l.flatMap (edgesOf P claim)) =
      P.collation.sortBy Edge.key (l'.flatMap (edgesOf P claim)) := by
  have hp : (l.flatMap (edgesOf P claim)).Perm (l'.flatMap (edgesOf P claim)) :=
    h.flatMap_right _
  refine Collation.sortBy_eq_of_same hp fun x hx => ?_
  obtain ⟨a, ha, hxa⟩ := List.mem_flatMap.mp hx
  have hstart : ∀ b ∈ l, ∀ e ∈ edgesOf P claim b, P.collation.same Edge.key x e = true →
      x.fromId = e.fromId := by
    intro b hb e he hsame
    have hkeys := same_key hsame
    rw [Edge.key_eq, Edge.key_eq] at hkeys
    exact htells.starts _ _ _ _ (isId_of_edge hvalid ha hxa) (isId_of_edge hvalid hb he) hkeys
  rcases edge_cases hxa with hfrom | ⟨hfrom, hto, htype⟩
  · -- the edges of one attestation, once for every time that it is in the list
    have hpart : ∀ b ∈ l, (edgesOf P claim b).filter (P.collation.same Edge.key x) =
        if decide (b.attestationId = a.attestationId) then
          (edgesOf P claim a).filter (P.collation.same Edge.key x) else [] := by
      intro b hb
      by_cases hid : b.attestationId = a.attestationId
      · obtain ⟨hbody, -⟩ := body_of_id hfree hvalid hb ha hid
        simp [hid, edgesOf, hbody]
      · simp only [hid, decide_false, Bool.false_eq_true, if_false, List.filter_eq_nil_iff]
        intro e he hsame
        have hfrom' := hstart b hb e he hsame
        rw [hfrom] at hfrom'
        rcases edge_cases he with hb' | ⟨⟨v, hv⟩, -, -⟩
        · exact hid (hb'.symm.trans hfrom'.symm)
        · obtain ⟨w, hw⟩ := attestationId_eq hvalid ha
          exact attest_ne_source (hw.symm.trans (hfrom'.trans hv))
    have hall : ∀ k : List Attestation, (∀ b ∈ k, b ∈ l) →
        (k.flatMap (edgesOf P claim)).filter (P.collation.same Edge.key x) =
          (List.replicate (k.countP fun b => decide (b.attestationId = a.attestationId))
            ((edgesOf P claim a).filter (P.collation.same Edge.key x))).flatten := by
      intro k hk
      rw [List.filter_flatMap, ← flatMap_ite]
      exact List.flatMap_congr fun b hb => hpart b (hk b hb)
    rw [hall l fun _ => id, hall l' fun b hb => h.mem_iff.mpr hb, h.countP_eq]
  · -- copies of one edge
    have hone : ∀ k : List Attestation, (∀ b ∈ k, b ∈ l) → ∀ e ∈
        (k.flatMap (edgesOf P claim)).filter (P.collation.same Edge.key x), e = x := by
      intro k hk e he
      obtain ⟨hek, hsame⟩ := List.mem_filter.mp he
      obtain ⟨b, hb, heb⟩ := List.mem_flatMap.mp hek
      have hfrom' := hstart b (hk b hb) e heb hsame
      rcases edge_cases heb with hb' | ⟨-, hto', htype'⟩
      · obtain ⟨w, hw⟩ := attestationId_eq hvalid (hk b hb)
        obtain ⟨v, hv⟩ := hfrom
        exact absurd (hw.symm.trans (hb'.symm.trans (hfrom'.symm.trans hv))) attest_ne_source
      · have hkeys := same_key hsame
        rw [Edge.key_derivedFrom htype, Edge.key_derivedFrom htype', ← hfrom'] at hkeys
        have hends := htells.ends x.fromId _ _ hfrom.isId hto.isId hto'.isId hkeys
        cases e
        cases x
        simp only [Edge.mk.injEq]
        exact ⟨hfrom'.symm, hends.symm, htype'.trans htype.symm⟩
    have hreplicate := List.eq_replicate_of_mem (hone l fun _ => id)
    have hreplicate' := List.eq_replicate_of_mem (hone l' fun b hb => h.mem_iff.mpr hb)
    rw [hreplicate, hreplicate', (hp.filter _).length_eq]

/-! ### Groups in one order -/

theorem mem_idsOf {field : Lineage → List JsString} :
    x ∈ idsOf field p ↔ ∃ a ∈ p, x ∈ field a.body.lineage := by
  rw [idsOf, (sortStrings_perm _).mem_iff]
  simp

theorem mem_lineageTokens {t : JsString} : t ∈ lineageTokens a ↔
    (∃ o ∈ a.body.lineage.originIds, js "origin:" ++ o = t) ∨
    (∃ o ∈ a.body.lineage.publisherIds, js "publisher:" ++ o = t) ∨
    ∃ o ∈ a.body.lineage.generatorIds, js "generator:" ++ o = t := by
  simp [lineageTokens]

/-- What is digested of a group tells its tokens. -/
theorem token_of_groupValue {q : List Attestation} {t : JsString} (h : groupValue p = groupValue q)
    (ha : a ∈ p) (ht : t ∈ lineageTokens a) : ∃ b ∈ q, t ∈ lineageTokens b := by
  simp only [groupValue, Value.object.injEq, List.cons.injEq, Prod.mk.injEq, true_and] at h
  obtain ⟨hgenerators, horigins, hpublishers, -⟩ := h
  rcases mem_lineageTokens.mp ht with ⟨o, ho, rfl⟩ | ⟨o, ho, rfl⟩ | ⟨o, ho, rfl⟩
  · have hmem := strings_injective horigins ▸ mem_idsOf.mpr ⟨a, ha, ho⟩
    obtain ⟨b, hb, hob⟩ := mem_idsOf.mp hmem
    exact ⟨b, hb, mem_lineageTokens.mpr (.inl ⟨o, hob, rfl⟩)⟩
  · have hmem := strings_injective hpublishers ▸ mem_idsOf.mpr ⟨a, ha, ho⟩
    obtain ⟨b, hb, hob⟩ := mem_idsOf.mp hmem
    exact ⟨b, hb, mem_lineageTokens.mpr (.inr (.inl ⟨o, hob, rfl⟩))⟩
  · have hmem := strings_injective hgenerators ▸ mem_idsOf.mpr ⟨a, ha, ho⟩
    obtain ⟨b, hb, hob⟩ := mem_idsOf.mp hmem
    exact ⟨b, hb, mem_lineageTokens.mpr (.inr (.inr ⟨o, hob, rfl⟩))⟩

theorem mem_of_membersOf (hp : p ∈ membersOf l) (ha : a ∈ p) : a ∈ l := by
  obtain ⟨c, -, rfl⟩ := mem_membersOf.mp hp
  exact (mem_kinOf.mp ha).1

/-- Groups that digest alike are one group. -/
theorem group_of_value {q : List Attestation} (hp : p ∈ membersOf l) (hq : q ∈ membersOf l)
    (h : groupValue p = groupValue q) : p = q := by
  obtain ⟨c, hc, hpc⟩ := mem_membersOf.mp hp
  obtain ⟨d, hd, hqd⟩ := mem_membersOf.mp hq
  have hcp : c ∈ p := hpc ▸ mem_kinOf.mpr ⟨hc, kin_refl⟩
  have hdq : d ∈ q := hqd ▸ mem_kinOf.mpr ⟨hd, kin_refl⟩
  have hshare : ∀ {p q : List Attestation} {c : Attestation}, p ∈ membersOf l → q ∈ membersOf l →
      groupValue p = groupValue q → c ∈ p → known c = true → ∃ b ∈ q, Kin l c b := by
    intro p q c hp hq h hcp hk
    obtain ⟨t, ht⟩ := List.exists_mem_of_ne_nil (lineageTokens c) (by simpa [known] using hk)
    obtain ⟨b, hb, htb⟩ := token_of_groupValue h hcp ht
    exact ⟨b, hb, .inl ⟨hk, .single ⟨mem_knownOf.mpr ⟨mem_of_membersOf hp hcp, hk⟩,
      mem_knownOf.mpr ⟨mem_of_membersOf hq hb, known_of_token htb⟩, t, ht, htb⟩⟩⟩
  have hkin : ∃ b ∈ q, Kin l c b := by
    by_cases hkc : known c = true
    · exact hshare hp hq h hcp hkc
    · rw [Bool.not_eq_true] at hkc
      refine ⟨d, hdq, .inr ⟨hkc, ?_⟩⟩
      by_contra hkd
      rw [Bool.not_eq_false] at hkd
      obtain ⟨b, hb, hdb⟩ := hshare hq hp h.symm hdq hkd
      rw [unknown_group hp hcp hkc] at hb
      rcases hdb with ⟨-, hlink⟩ | ⟨hk, -⟩
      · have hin := hlink.mem (mem_knownOf.mpr ⟨hd, hkd⟩)
        simp [(mem_knownOf.mp hin).2] at hb
      · rw [hkd] at hk
        cases hk
  obtain ⟨b, hb, hcb⟩ := hkin
  have hbp : b ∈ p := hpc ▸ mem_kinOf.mpr ⟨mem_of_membersOf hq hb, hcb⟩
  by_contra hne
  have hsymm : Std.Symm (List.Disjoint (α := Attestation)) := ⟨fun _ _ h => h.symm⟩
  exact disjoint_membersOf.forall hp hq hne hbp hb

theorem independence_eq (hfree : CollisionFree P l) (htells : TellsIds P) (h : l.Perm l') :
    analyzeAttestationIndependence P l = analyzeAttestationIndependence P l' := by
  have hp : ((membersOf l).map (describe P)).Perm ((membersOf l').map (describe P)) :=
    (Collation.sortBy_perm _).symm.trans ((groups_perm (P := P) h).trans (Collation.sortBy_perm _))
  have hsorted : P.collation.sortBy Group.groupId ((membersOf l).map (describe P)) =
      P.collation.sortBy Group.groupId ((membersOf l').map (describe P)) := by
    refine Collation.sortBy_eq hp fun g hg g' hg' hle hge => ?_
    obtain ⟨p, hp, rfl⟩ := List.mem_map.mp hg
    obtain ⟨q, hq, rfl⟩ := List.mem_map.mp hg'
    have hid : (describe P p).groupId = (describe P q).groupId :=
      htells.alone _ _ ⟨js "sha256:", by simp, groupValue p, rfl⟩
        ⟨js "sha256:", by simp, groupValue q, rfl⟩ (Collation.same_iff.mpr ⟨hle, hge⟩)
    have hvalue : groupValue p = groupValue q :=
      hfree (.inr ⟨p, hp, rfl⟩) (.inr ⟨q, hq, rfl⟩) (List.append_cancel_left hid)
    rw [group_of_value hp hq hvalue]
  rw [analyzeAttestationIndependence, analyzeAttestationIndependence, hsorted, h.length_eq]

/-! ### The graph in one order -/

theorem graph_perm (hfree : CollisionFree P l) (htells : TellsIds P) (hvalid : Valid P claim l)
    (h : l.Perm l') (hagree : SourcesAgree P l) : graphOf P claim l = graphOf P claim l' := by
  have hnodes : P.collation.sortBy Node.id (.claim claim.claimId (P.digest claim.body.value) ::
      (l.map (attestNode P) ++ firsts (l.flatMap (mentions P)))) =
      P.collation.sortBy Node.id (.claim claim.claimId (P.digest claim.body.value) ::
      (l'.map (attestNode P) ++ firsts (l'.flatMap (mentions P)))) :=
    nodes_eq hfree htells hvalid h hagree
  rw [graphOf, graphOf, hnodes, edges_eq hfree htells hvalid h, independence_eq hfree htells h]

/-- Whoever comes first describes the source. -/
theorem firsts_cons {id : JsString} (hd : describes P a id = some n) :
    n ∈ firsts ((a :: l).flatMap (mentions P)) ∧
      ∀ m ∈ firsts ((a :: l).flatMap (mentions P)), m.id = id → m = n := by
  have hid : n.id = id := by simpa using List.find?_some hd
  constructor
  · rw [mem_firsts_mentions, hid, List.findSome?_cons, hd]
  · intro m hm hmid
    rw [mem_firsts_mentions, hmid, List.findSome?_cons, hd] at hm
    exact (Option.some.inj hm).symm

/-- Sources that are described in two ways come out in two ways. -/
theorem agree_of_graphs (claim : Claim)
    (h : ∀ l', l.Perm l' → graphOf P claim l = graphOf P claim l') :
    SourcesAgree P l := by
  classical
  intro a ha b hb id n m hn hm
  have hfirst : ∀ {c : Attestation}, c ∈ l → graphOf P claim l = graphOf P claim (c :: l.erase c) :=
    fun hc => h _ (List.perm_cons_erase hc)
  have hgraph := (hfirst ha).symm.trans (hfirst hb)
  have hnodes : P.collation.sortBy Node.id (nodesOf P claim (a :: l.erase a)) =
      P.collation.sortBy Node.id (nodesOf P claim (b :: l.erase b)) := congrArg Graph.nodes hgraph
  have hin : n ∈ nodesOf P claim (b :: l.erase b) := by
    have hmem : n ∈ P.collation.sortBy Node.id (nodesOf P claim (a :: l.erase a)) :=
      (Collation.sortBy_perm _).mem_iff.mpr (mem_nodesOf.mpr (.inr (.inr (firsts_cons hn).1)))
    have hmem' : n ∈ P.collation.sortBy Node.id (nodesOf P claim (b :: l.erase b)) := hnodes ▸ hmem
    exact (Collation.sortBy_perm _).mem_iff.mp hmem'
  have hid : n.id = id := by simpa using List.find?_some hn
  have hsource : ∃ i k c d, n = .source i k c d := by
    obtain ⟨e, -, he⟩ := List.mem_flatMap.mp (List.mem_of_find?_eq_some hn)
    rcases List.mem_cons.mp he with rfl | he
    · exact ⟨_, _, _, _, rfl⟩
    · obtain ⟨p, -, rfl⟩ := List.mem_map.mp he
      exact ⟨_, _, _, _, rfl⟩
  obtain ⟨i, k, c, d, rfl⟩ := hsource
  rcases mem_nodesOf.mp hin with heq | ⟨e, -, heq⟩ | hfirsts
  · cases heq
  · cases heq
  · exact (firsts_cons hm).2 _ hfirsts hid

/-! ### Orders of attestations -/

/-- The graph, its digest and the payload of a receipt, for every order of the attestations. -/
def OrderFree (P : Platform) (claim : Claim) (l : List Attestation) : Prop :=
  ∀ l', l.Perm l' →
    (∀ g g', buildProvenanceGraph P claim l = .ok g → buildProvenanceGraph P claim l' = .ok g' →
      g = g') ∧
    ∀ identity rp policy createdAt createdAt' r r',
      createTrustReceipt P identity claim l rp policy createdAt = .ok r →
      createTrustReceipt P identity claim l' rp policy createdAt' = .ok r' → r.payload = r'.payload

theorem payload_perm (hfree : CollisionFree P l) (htells : TellsIds P) (hvalid : Valid P claim l)
    (h : l.Perm l') (hagree : SourcesAgree P l) (policy : Policy) (retrieval : Retrieval) :
    payloadOf P claim l (assessmentOf P claim l policy retrieval) =
      payloadOf P claim l' (assessmentOf P claim l' policy retrieval) := by
  rw [payloadOf, payloadOf, assessmentOf, assessmentOf, graph_perm hfree htells hvalid h hagree,
    independence_eq hfree htells h, h.length_eq, sortStrings_eq (h.map _)]

/-- ORDER FREE: valid attestations give one graph and one payload in every order just when no two
    of them describe one source in different ways. -/
theorem graph_order_free (P : Platform) (claim : Claim) (l : List Attestation)
    (hfree : CollisionFree P l) (htells : TellsIds P) :
    OrderFree P claim l ↔ (Valid P claim l → SourcesAgree P l) := by
  constructor
  · intro horder hvalid
    refine agree_of_graphs claim fun l' h => ?_
    have hvalid' : Valid P claim l' := ⟨hvalid.1, fun a ha => hvalid.2 a (h.mem_iff.mpr ha)⟩
    exact (horder l' h).1 _ _ (buildProvenanceGraph_ok.mpr ⟨hvalid, rfl⟩)
      (buildProvenanceGraph_ok.mpr ⟨hvalid', rfl⟩)
  · intro hagree l' h
    constructor
    · intro g g' hg hg'
      obtain ⟨hvalid, rfl⟩ := buildProvenanceGraph_ok.mp hg
      obtain ⟨-, rfl⟩ := buildProvenanceGraph_ok.mp hg'
      exact graph_perm hfree htells hvalid h (hagree hvalid)
    · intro identity rp policy createdAt createdAt' r r' hr hr'
      obtain ⟨s, hs, hpayload⟩ := createTrustReceipt_payload hr
      obtain ⟨s', hs', hpayload'⟩ := createTrustReceipt_payload hr'
      obtain ⟨hvalid, p, retrieval, hp, hb, rfl⟩ := assessClaimEvidence_ok.mp hs
      obtain ⟨-, p', retrieval', hp', hb', rfl⟩ := assessClaimEvidence_ok.mp hs'
      cases hp.symm.trans hp'
      cases hb.symm.trans hb'
      rw [hpayload, hpayload', payload_perm hfree htells hvalid h (hagree hvalid)]

/-! ### Two reports of one photograph -/

theorem plain_hex (v : Value) : ∀ u ∈ plain.hex v, u ≠ 58 := by
  have hdigit : ∀ d < 16, hexDigit d ≠ 58 := by decide
  intro u hu
  obtain ⟨i, -, rfl⟩ := List.mem_map.mp hu
  exact hdigit _ (Nat.mod_lt _ (by decide))

theorem plain_tells : TellsIds plain := by
  have hsame : ∀ {x y : JsString}, plain.collation.same id x y = true → x = y := by
    intro x y h
    obtain ⟨hxy, hyx⟩ := Collation.same_iff.mp h
    exact unitsLe_antisymm x y hxy hyx
  have hkinds : ∀ p ∈ [js "truyn:claim:", js "truyn:attest:", js "source:sha256:", js "sha256:"],
      7 ≤ p.length ∧ ∀ q ∈ [js "truyn:claim:", js "truyn:attest:", js "source:sha256:",
        js "sha256:"], p.take 7 = q.take 7 → p = q := by decide
  have hstop : ∀ {x r : JsString}, (∀ u ∈ x, u ≠ 58) →
      (x ++ 58 :: r).takeWhile (fun u => u ≠ 58) = x := by
    intro x r hx
    rw [List.takeWhile_append_of_pos (by simpa using hx)]
    simp
  refine ⟨fun x y _ _ h => hsame h, ?_, fun z x y _ _ _ h => ?_⟩
  · rintro _ _ r s ⟨p, hp, v, rfl⟩ ⟨q, hq, w, rfl⟩ h
    have heq := hsame h
    have hpq : p = q := by
      by_contra hne
      rw [List.append_assoc, List.append_assoc] at heq
      exact kinds_apart (hkinds p hp).1 (hkinds q hq).1
        (fun ht => hne ((hkinds p hp).2 q hq ht)) heq
    subst hpq
    rw [List.append_assoc, List.append_assoc] at heq
    have hrest := congrArg (List.takeWhile fun u => u ≠ 58) (List.append_cancel_left heq)
    have hcolon : ∀ t, js ":" ++ t = 58 :: t := fun t => rfl
    rw [hcolon, hcolon, hstop (plain_hex v), hstop (plain_hex w)] at hrest
    rw [hrest]
  · exact List.append_cancel_left (List.append_cancel_left (hsame h))

def report (attesterNodeId kind : JsString) : Attestation :=
  plainAttestation attesterNodeId .support [⟨kind, js "photo-7", none, []⟩]
    ⟨[attesterNodeId], [], [], []⟩

theorem report_valid : Valid plain plainClaim
    [report (js "ann") (js "photo"), report (js "bob") (js "scan")] := by
  refine ⟨by decide +kernel, fun a ha => ?_⟩
  rcases List.mem_pair.mp ha with rfl | rfl
  · decide +kernel
  · decide +kernel

/-- What is digested of two attestations in normal form that have no token in common. -/
theorem hashed_pair {v : Value} (ha : normalizedBody plain a.body = .ok a.body)
    (hb : normalizedBody plain b.body = .ok b.body) (hparts : membersOf [a, b] = [[a], [b]])
    (h : v ∈ hashed plain [a, b]) :
    v ∈ [a.body.value, b.body.value, a.body.attested a.attesterNodeId,
      b.body.attested b.attesterNodeId, groupValue [a], groupValue [b]] := by
  have hnormal : ∀ {c : Attestation}, normalizedBody plain c.body = .ok c.body →
      (v = c.body.value ∨ ∃ normal, normalizedBody plain c.body = .ok normal ∧
        (v = normal.value ∨ v = normal.attested c.attesterNodeId)) →
      v = c.body.value ∨ v = c.body.attested c.attesterNodeId := by
    rintro c hc (h | ⟨n, hn, h⟩)
    · exact .inl h
    · cases hc.symm.trans hn
      exact h
  rcases h with ⟨c, hc, h⟩ | ⟨p, hp, rfl⟩
  · rcases List.mem_pair.mp hc with rfl | rfl
    · rcases hnormal ha h with rfl | rfl <;> simp
    · rcases hnormal hb h with rfl | rfl <;> simp
  · rw [hparts] at hp
    rcases List.mem_pair.mp hp with rfl | rfl <;> simp

theorem graph_order_free_alike : OrderFree plain plainClaim
    [report (js "ann") (js "photo"), report (js "bob") (js "photo")] := by
  have hfree : CollisionFree plain
      [report (js "ann") (js "photo"), report (js "bob") (js "photo")] := by
    intro v hv w hw h
    have hpair := fun {v} => hashed_pair (v := v) (a := report (js "ann") (js "photo"))
      (b := report (js "bob") (js "photo")) (by rfl) (by rfl)
      (by rfl)
    exact List.inj_on_of_nodup_map (by decide +kernel) (hpair hv) (hpair hw) h
  refine (graph_order_free plain plainClaim _ hfree plain_tells).mpr fun _ => ?_
  intro a ha b hb id n m hn hm
  have hmentions : ∀ c ∈ [report (js "ann") (js "photo"), report (js "bob") (js "photo")],
      mentions plain c = [sourceNode plain ⟨js "photo", js "photo-7", none, []⟩] := by
    decide +kernel
  rw [describes, hmentions a ha] at hn
  rw [describes, hmentions b hb] at hm
  exact Option.some.inj (hn.symm.trans hm)

/-- One photograph, called a photo by the one and a scan by the other. -/
theorem graph_depends_on_order : ∃ g g',
    buildProvenanceGraph plain plainClaim
      [report (js "ann") (js "photo"), report (js "bob") (js "scan")] = .ok g ∧
    buildProvenanceGraph plain plainClaim
      [report (js "bob") (js "scan"), report (js "ann") (js "photo")] = .ok g' ∧
    g.graphDigest ≠ g'.graphDigest := by
  have hvalid : Valid plain plainClaim
      [report (js "bob") (js "scan"), report (js "ann") (js "photo")] :=
    ⟨report_valid.1, fun a ha => report_valid.2 a ((List.Perm.swap _ _ _).mem_iff.mpr ha)⟩
  exact ⟨_, _, buildProvenanceGraph_ok.mpr ⟨report_valid, rfl⟩,
    buildProvenanceGraph_ok.mpr ⟨hvalid, rfl⟩, by decide +kernel⟩

end Truyn.Trust
