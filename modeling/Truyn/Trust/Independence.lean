import Truyn.Trust.Claims
import Truyn.Schemes.UnionFind
import Truyn.Schemes.Families

/-! trust:independence | attestations grouped by common lineage

    `analyzeAttestationIndependence` merges attestations that name one origin, publisher or
    generator, in a union-find over their positions. Its groups are the families of attestations
    that share lineage tokens, and one more group for those that name none (`groups_of_merged`). So
    the groups, and every count, depend on the attestations only and not on their order
    (`independence_groups`). -/

namespace Truyn.Trust
open UnionFind Families Relation

/-- `new Set([...origins, ...publishers, ...generators])`. -/
def lineageTokens (a : Attestation) : List JsString :=
  setOf (a.body.lineage.originIds.map (js "origin:" ++ ·) ++
    a.body.lineage.publisherIds.map (js "publisher:" ++ ·) ++
    a.body.lineage.generatorIds.map (js "generator:" ++ ·))

/-- `mixed`, or what all verdicts that are not `uncertain` say. -/
inductive GroupVerdict
  | mixed
  | support
  | contradict
  | uncertain
  deriving DecidableEq

structure Group where
  groupId : JsString
  knownLineage : Bool
  verdict : GroupVerdict
  memberCount : ℕ
  attesterCount : ℕ
  originCount : ℕ
  publisherCount : ℕ
  generatorCount : ℕ
  attestationIds : List JsString
  deriving DecidableEq

structure Independence where
  groups : List Group
  independentKnownGroups : ℕ
  supportGroups : ℕ
  contradictGroups : ℕ
  mixedGroups : ℕ
  uncertainGroups : ℕ
  unknownLineageGroups : ℕ
  rawAttestations : ℕ
  deriving DecidableEq

/-! ### Merging -/

/-- The local variables of the first loop. -/
structure Merging where
  uf : Forest ℕ
  tokenOwner : JsString → Option ℕ
  unknown : List ℕ

def mergeOne (s : Merging) (x : Attestation × ℕ) : Merging :=
  let tokens := lineageTokens x.1
  if tokens.isEmpty then { s with unknown := s.unknown ++ [x.2] }
  else
    let m := (tokens.map fun t => (x.2, t)).foldl mark (s.uf, s.tokenOwner)
    { s with uf := m.1, tokenOwner := m.2 }

/-- `for (let i = 1; ...) uf.union(unknown[0], unknown[i])`. -/
def uniteAll (F : Forest ℕ) : List ℕ → Forest ℕ
  | [] => F
  | u :: us => us.foldl (fun G v => G.union u v) F

def mergeAll (attestations : List Attestation) : Forest ℕ :=
  let s := attestations.zipIdx.foldl mergeOne ⟨alone, fun _ => none, []⟩
  uniteAll s.uf s.unknown

/-- `const root = uf.find(index); ... groups.get(root).push(attestation)`. -/
def gather (s : Forest ℕ × List (ℕ × List Attestation)) (x : Attestation × ℕ) :
    Forest ℕ × List (ℕ × List Attestation) :=
  ((s.1.find x.2).1, collect s.2 (s.1.find x.2).2 x.1)

/-- The members of each group. -/
def membersOf (attestations : List Attestation) : List (List Attestation) :=
  ((attestations.zipIdx.foldl gather (mergeAll attestations, [])).2).map Prod.snd

/-! ### Groups -/

def groupVerdict (verdicts : List Verdict) : GroupVerdict :=
  if .support ∈ verdicts ∧ .contradict ∈ verdicts then .mixed
  else if .support ∈ verdicts then .support
  else if .contradict ∈ verdicts then .contradict
  else .uncertain

/-- A set of ids, sorted. -/
def idsOf (field : Lineage → List JsString) (members : List Attestation) : List JsString :=
  sortStrings (setOf (members.flatMap fun m => field m.body.lineage))

def groupValue (members : List Attestation) : Value := .object [
  (js "generators", strings (idsOf Lineage.generatorIds members)),
  (js "origins", strings (idsOf Lineage.originIds members)),
  (js "publishers", strings (idsOf Lineage.publisherIds members)),
  (js "unknown", .bool !(0 < (idsOf Lineage.originIds members).length +
    (idsOf Lineage.publisherIds members).length + (idsOf Lineage.generatorIds members).length))]

def describe (P : Platform) (members : List Attestation) : Group where
  groupId := P.digest (groupValue members)
  knownLineage := 0 < (idsOf Lineage.originIds members).length +
    (idsOf Lineage.publisherIds members).length + (idsOf Lineage.generatorIds members).length
  verdict := groupVerdict (members.map fun m => m.body.verdict)
  memberCount := members.length
  attesterCount := (setOf (members.map Attestation.attesterNodeId)).length
  originCount := (idsOf Lineage.originIds members).length
  publisherCount := (idsOf Lineage.publisherIds members).length
  generatorCount := (idsOf Lineage.generatorIds members).length
  attestationIds := sortStrings (members.map Attestation.attestationId)

/-- What is returned for these groups. -/
def summary (normalizedGroups : List Group) (rawAttestations : ℕ) : Independence :=
  let known := normalizedGroups.filter fun g => g.knownLineage
  { groups := normalizedGroups
    independentKnownGroups := known.length
    supportGroups := (known.filter fun g => g.verdict = .support).length
    contradictGroups := (known.filter fun g => g.verdict = .contradict).length
    mixedGroups := (known.filter fun g => g.verdict = .mixed).length
    uncertainGroups := (known.filter fun g => g.verdict = .uncertain).length
    unknownLineageGroups := (normalizedGroups.filter fun g => !g.knownLineage).length
    rawAttestations := rawAttestations }

def analyzeAttestationIndependence (P : Platform) (attestations : List Attestation) :
    Independence :=
  summary (P.collation.sortBy Group.groupId ((membersOf attestations).map (describe P)))
    attestations.length

/-! ### A group does not depend on the order of its members -/

theorem idsOf_perm {field : Lineage → List JsString} {l m : List Attestation} (h : l.Perm m) :
    idsOf field l = idsOf field m :=
  sortStrings_eq (setOf_perm fun x => by simp [h.mem_iff])

variable {p l' : List Attestation} {P : Platform}

theorem describe_perm {l m : List Attestation} (h : l.Perm m) :
    describe P l = describe P m := by
  have hverdict : groupVerdict (l.map fun m => m.body.verdict) =
      groupVerdict (m.map fun m => m.body.verdict) := by
    unfold groupVerdict
    simp only [(h.map _).mem_iff]
  have hattesters : (setOf (l.map Attestation.attesterNodeId)).length =
      (setOf (m.map Attestation.attesterNodeId)).length :=
    (setOf_perm fun x => (h.map _).mem_iff).length_eq
  unfold describe groupValue
  simp only [idsOf_perm h, hverdict, hattesters, h.length_eq, sortStrings_eq (h.map _)]

/-- `describe`, of a multiset of attestations. -/
def describeAll (P : Platform) (c : Multiset Attestation) : Group :=
  Quot.liftOn c (describe P) fun _ _ h => describe_perm h

/-! ### Known and unknown lineage -/

/-- The attestation names an origin, a publisher or a generator. -/
def known (a : Attestation) : Bool := !(lineageTokens a).isEmpty

theorem known_iff {a : Attestation} : known a = true ↔ a.body.lineage.originIds ≠ [] ∨
    a.body.lineage.publisherIds ≠ [] ∨ a.body.lineage.generatorIds ≠ [] := by
  simp only [known, lineageTokens, Bool.not_eq_true', List.isEmpty_eq_false_iff, ne_eq,
    setOf_eq_nil, List.append_eq_nil_iff, List.map_eq_nil_iff]
  tauto

theorem idsOf_pos {field : Lineage → List JsString} {l : List Attestation} :
    0 < (idsOf field l).length ↔ ∃ a ∈ l, field a.body.lineage ≠ [] := by
  rw [idsOf, (sortStrings_perm _).length_eq, List.length_pos_iff, ne_eq, setOf_eq_nil,
    List.flatMap_eq_nil_iff]
  simp

/-- A group has known lineage when one of its members has. -/
theorem describe_known {l : List Attestation} :
    (describe P l).knownLineage = true ↔ ∃ a ∈ l, known a = true := by
  have hpos : (describe P l).knownLineage = true ↔
      0 < (idsOf Lineage.originIds l).length ∨ 0 < (idsOf Lineage.publisherIds l).length ∨
        0 < (idsOf Lineage.generatorIds l).length := by
    simp only [describe, decide_eq_true_eq]
    omega
  rw [hpos, idsOf_pos, idsOf_pos, idsOf_pos]
  simp only [known_iff]
  constructor
  · rintro (⟨a, ha, h⟩ | ⟨a, ha, h⟩ | ⟨a, ha, h⟩)
    · exact ⟨a, ha, .inl h⟩
    · exact ⟨a, ha, .inr (.inl h)⟩
    · exact ⟨a, ha, .inr (.inr h)⟩
  · rintro ⟨a, ha, h | h | h⟩
    · exact .inl ⟨a, ha, h⟩
    · exact .inr (.inl ⟨a, ha, h⟩)
    · exact .inr (.inr ⟨a, ha, h⟩)

/-! ### The merged forest -/

/-- Every position with each of its tokens. -/
def incidences (l : List (Attestation × ℕ)) : List (ℕ × JsString) :=
  l.flatMap fun x => (lineageTokens x.1).map fun t => (x.2, t)

theorem foldl_mergeOne (l : List (Attestation × ℕ)) (s : Merging) :
    l.foldl mergeOne s =
      ⟨((incidences l).foldl mark (s.uf, s.tokenOwner)).1,
        ((incidences l).foldl mark (s.uf, s.tokenOwner)).2,
        s.unknown ++ (l.filter fun x => !known x.1).map Prod.snd⟩ := by
  induction l generalizing s with
  | nil => simp [incidences]
  | cons x l ih =>
    rw [List.foldl_cons, ih]
    have hcons : incidences (x :: l) =
        (lineageTokens x.1).map (fun t => (x.2, t)) ++ incidences l := rfl
    rw [hcons, List.foldl_append]
    by_cases hk : (lineageTokens x.1).isEmpty = true
    · have hnil : lineageTokens x.1 = [] := List.isEmpty_iff.mp hk
      simp [mergeOne, hnil, known]
    · simp [mergeOne, hk, known]

theorem share_incidences {l : List Attestation} {i j : ℕ} :
    Share (incidences l.zipIdx) i j ↔ ∃ a b, l[i]? = some a ∧ l[j]? = some b ∧
      ∃ t, t ∈ lineageTokens a ∧ t ∈ lineageTokens b := by
  have hmem : ∀ k t, (k, t) ∈ incidences l.zipIdx ↔ ∃ a, l[k]? = some a ∧ t ∈ lineageTokens a := by
    intro k t
    simp only [incidences, List.mem_flatMap, List.mem_map, Prod.mk.injEq]
    constructor
    · rintro ⟨x, hx, _, ht, rfl, rfl⟩
      exact ⟨x.1, List.mem_zipIdx_iff_getElem?.mp hx, ht⟩
    · rintro ⟨a, ha, ht⟩
      exact ⟨(a, k), List.mem_zipIdx_iff_getElem?.mpr ha, t, ht, rfl, rfl⟩
  constructor
  · rintro ⟨t, hi, hj⟩
    obtain ⟨a, ha, hta⟩ := (hmem i t).mp hi
    obtain ⟨b, hb, htb⟩ := (hmem j t).mp hj
    exact ⟨a, b, ha, hb, t, hta, htb⟩
  · rintro ⟨a, b, ha, hb, t, hta, htb⟩
    exact ⟨t, (hmem i t).mpr ⟨a, ha, hta⟩, (hmem j t).mpr ⟨b, hb, htb⟩⟩

/-- The attestations with known lineage. -/
def knownOf (l : List Attestation) : Multiset Attestation := ↑(l.filter known)

theorem mem_knownOf {l : List Attestation} {a : Attestation} :
    a ∈ knownOf l ↔ a ∈ l ∧ known a = true := by simp [knownOf]

theorem known_of_token {a : Attestation} {t : JsString} (h : t ∈ lineageTokens a) :
    known a = true := by
  rw [known, Bool.not_eq_true', List.isEmpty_eq_false_iff]
  exact List.ne_nil_of_mem h

variable {l : List Attestation} {i j : ℕ} {a b : Attestation}

/-- Chains of positions are chains of attestations. -/
theorem linked_of_positions (ha : l[i]? = some a) (hb : l[j]? = some b)
    (h : ReflTransGen (Share (incidences l.zipIdx)) i j) :
    Linked lineageTokens (knownOf l) a b := by
  induction h generalizing b with
  | refl =>
    rw [ha] at hb
    cases hb
    exact .refl
  | tail _ hs ih =>
    obtain ⟨c, d, hc, hd, t, htc, htd⟩ := share_incidences.mp hs
    rw [hb] at hd
    cases hd
    exact (ih hc).tail ⟨mem_knownOf.mpr ⟨List.mem_of_getElem? hc, known_of_token htc⟩,
      mem_knownOf.mpr ⟨List.mem_of_getElem? hb, known_of_token htd⟩, t, htc, htd⟩

theorem positions_of_linked (ha : l[i]? = some a) (hb : l[j]? = some b) (hka : known a = true)
    (h : Linked lineageTokens (knownOf l) a b) :
    ReflTransGen (Share (incidences l.zipIdx)) i j := by
  induction h generalizing j with
  | refl =>
    obtain ⟨t, ht⟩ := List.exists_mem_of_ne_nil (lineageTokens a) (by simpa [known] using hka)
    exact .single (share_incidences.mpr ⟨a, a, ha, hb, t, ht, ht⟩)
  | @tail c d _ hn ih =>
    obtain ⟨hc, -, t, htc, htd⟩ := hn
    obtain ⟨k, hk⟩ := List.mem_iff_getElem?.mp (mem_knownOf.mp hc).1
    exact (ih hk).tail (share_incidences.mpr ⟨c, d, hk, hb, t, htc, htd⟩)

/-- Two attestations belong in one group. -/
def Kin (l : List Attestation) (a b : Attestation) : Prop :=
  (known a = true ∧ Linked lineageTokens (knownOf l) a b) ∨ (known a = false ∧ known b = false)

theorem alone_of_unknown (ha : l[i]? = some a) (hka : known a = false)
    (h : ReflTransGen (Share (incidences l.zipIdx)) i j) : i = j := by
  induction h with
  | refl => rfl
  | tail _ hs ih =>
    obtain ⟨c, d, hc, hd, t, htc, -⟩ := share_incidences.mp hs
    rw [← ih, ha] at hc
    cases hc
    rw [known_of_token htc] at hka
    cases hka

/-- MERGED: two positions have one root just when their attestations belong in one group. -/
theorem together_mergeAll (ha : l[i]? = some a) (hb : l[j]? = some b) :
    (mergeAll l).Together i j ↔ Kin l a b := by
  have huf : ∀ x y, ((incidences l.zipIdx).foldl mark (alone, fun _ => none)).1.Together x y ↔
      ReflTransGen (Share (incidences l.zipIdx)) x y := fun x y => together_marked _
  have hunknown : ∀ {k c}, l[k]? = some c → (k ∈ (l.zipIdx.filter fun x => !known x.1).map Prod.snd ↔
      known c = false) := by
    intro k c hc
    simp only [List.mem_map, List.mem_filter, Bool.not_eq_true']
    constructor
    · rintro ⟨x, ⟨hx, hk⟩, rfl⟩
      have hx' := List.mem_zipIdx_iff_getElem?.mp hx
      rw [hc] at hx'
      cases hx'
      exact hk
    · exact fun hk => ⟨(c, k), ⟨List.mem_zipIdx_iff_getElem?.mpr hc, hk⟩, rfl⟩
  -- what the second loop adds: all positions of unknown lineage, which so far were alone
  have hunite : (mergeAll l).Together i j ↔
      ReflTransGen (Share (incidences l.zipIdx)) i j ∨ (known a = false ∧ known b = false) := by
    have hus : ∀ us, us = (l.zipIdx.filter fun x => !known x.1).map Prod.snd →
        ((uniteAll ((incidences l.zipIdx).foldl mark (alone, fun _ => none)).1 us).Together i j ↔
          ReflTransGen (Share (incidences l.zipIdx)) i j ∨ (known a = false ∧ known b = false)) := by
      intro us hus
      have hin : ∀ {k c}, l[k]? = some c → ((∃ v ∈ us,
          ((incidences l.zipIdx).foldl mark (alone, fun _ => none)).1.Together k v) ↔
            known c = false) := by
        intro k c hc
        constructor
        · rintro ⟨v, hv, hkv⟩
          rw [hus] at hv
          obtain ⟨x, hx, rfl⟩ := List.mem_map.mp hv
          obtain ⟨hx, hkx⟩ := List.mem_filter.mp hx
          have hpos := List.mem_zipIdx_iff_getElem?.mp hx
          have hkx' : known x.1 = false := by simpa using hkx
          have heq := alone_of_unknown hpos hkx' (linked_symm ((huf _ _).mp hkv))
          rw [heq, hc] at hpos
          cases hpos
          exact hkx'
        · exact fun hk => ⟨k, hus ▸ (hunknown hc).mpr hk, rfl⟩
      cases us with
      | nil =>
        have hnone : known a ≠ false := by
          intro hk
          obtain ⟨v, hv, -⟩ := (hin ha).mpr hk
          cases hv
        rw [uniteAll, huf]
        exact ⟨.inl, fun h => h.elim id fun h => absurd h.1 hnone⟩
      | cons u us =>
        have hfrom : (∃ v ∈ u :: us,
            ((incidences l.zipIdx).foldl mark (alone, fun _ => none)).1.Together v j) ↔
              known b = false := by
          rw [← hin hb]
          exact exists_congr fun v => and_congr_right fun _ => eq_comm
        rw [uniteAll, Forest.together_unite, huf, hin ha, hfrom]
    have hmerge : mergeAll l = uniteAll ((incidences l.zipIdx).foldl mark (alone, fun _ => none)).1
        ((l.zipIdx.filter fun x => !known x.1).map Prod.snd) := by
      rw [mergeAll, foldl_mergeOne]
      rfl
    rw [hmerge]
    exact hus _ rfl
  rw [hunite, Kin]
  cases hka : known a with
  | true =>
    simp only [Bool.true_eq_false, false_and, or_false, true_and]
    exact ⟨linked_of_positions ha hb, positions_of_linked ha hb hka⟩
  | false =>
    simp only [Bool.false_eq_true, false_and, false_or, true_and]
    refine ⟨fun h => h.elim (fun h => ?_) id, .inr⟩
    rw [← alone_of_unknown ha hka h, ha] at hb
    cases hb
    exact hka


/-! ### The groups are the families -/

open Classical in
/-- The attestations of the list in one group with `a`. -/
noncomputable def kinOf (l : List Attestation) (a : Attestation) : List Attestation :=
  l.filter fun b => Kin l a b

theorem mem_kinOf : b ∈ kinOf l a ↔ b ∈ l ∧ Kin l a b := by simp [kinOf]

theorem kin_refl : Kin l a a := by
  cases h : known a with
  | true => exact .inl ⟨h, .refl⟩
  | false => exact .inr ⟨h, h⟩

theorem foldl_gather {M : Forest ℕ} (xs : List (Attestation × ℕ))
    (s : Forest ℕ × List (ℕ × List Attestation)) (h : ∀ v, s.1.top v = M.top v) :
    (xs.foldl gather s).2 = xs.foldl (fun g x => collect g (M.top x.2) x.1) s.2 := by
  induction xs generalizing s with
  | nil => rfl
  | cons x xs ih =>
    have htop : ∀ v, (gather s x).1.top v = M.top v := fun v => Forest.find_top.trans (h v)
    rw [List.foldl_cons, List.foldl_cons, ih _ htop, gather, Forest.find_root, h]

/-- The members of the group at a root. -/
theorem under_eq_kinOf (ha : l[i]? = some a) :
    under (l.zipIdx.map fun x => ((mergeAll l).top x.2, x.1)) ((mergeAll l).top i) = kinOf l a := by
  classical
  have hfilter : ((l.zipIdx.map fun x => ((mergeAll l).top x.2, x.1)).filter
      fun x => x.1 = (mergeAll l).top i) =
      (l.zipIdx.filter fun x => Kin l a x.1).map fun x => ((mergeAll l).top x.2, x.1) := by
    rw [List.filter_map]
    refine congrArg _ (List.filter_congr fun x hx => ?_)
    have hpos := List.mem_zipIdx_iff_getElem?.mp hx
    have htogether := together_mergeAll ha hpos
    simp only [Function.comp_apply, decide_eq_decide]
    exact ⟨fun h => htogether.mp h.symm, fun h => (htogether.mpr h).symm⟩
  have hfst : (l.filter fun b => Kin l a b) =
      (l.zipIdx.filter fun x => Kin l a x.1).map Prod.fst := by
    have h := List.filter_map (f := Prod.fst) (p := fun b => decide (Kin l a b)) (l := l.zipIdx)
    rwa [List.zipIdx_map_fst] at h
  rw [under, hfilter, List.map_map, kinOf, hfst]
  rfl

/-- The roots, each with its members. -/
theorem membersOf_eq : membersOf l =
    (l.zipIdx.map fun x => (mergeAll l).top x.2).eraseDups.map
      (under (l.zipIdx.map fun x => ((mergeAll l).top x.2, x.1))) := by
  have hcollect : l.zipIdx.foldl (fun g x => collect g ((mergeAll l).top x.2) x.1) [] =
      (l.zipIdx.map fun x => ((mergeAll l).top x.2, x.1)).foldl
        (fun g x => collect g x.1 x.2) [] := by rw [List.foldl_map]
  rw [membersOf, foldl_gather (M := mergeAll l) _ _ fun _ => rfl, hcollect, foldl_collect,
    List.map_map, List.map_map]
  rfl

theorem mem_membersOf : p ∈ membersOf l ↔ ∃ a ∈ l, p = kinOf l a := by
  rw [membersOf_eq]
  simp only [List.mem_map, List.mem_eraseDups]
  constructor
  · rintro ⟨_, ⟨x, hx, rfl⟩, rfl⟩
    have hpos := List.mem_zipIdx_iff_getElem?.mp hx
    exact ⟨x.1, List.mem_of_getElem? hpos, under_eq_kinOf hpos⟩
  · rintro ⟨a, ha, rfl⟩
    obtain ⟨i, hi⟩ := List.mem_iff_getElem?.mp ha
    exact ⟨_, ⟨(a, i), List.mem_zipIdx_iff_getElem?.mpr hi, rfl⟩, under_eq_kinOf hi⟩

/-- The groups, in no order. -/
def partsOf (l : List Attestation) : Multiset (Multiset Attestation) :=
  Multiset.ofList ((membersOf l).map Multiset.ofList)

/-- No two groups have the same members. -/
theorem nodup_partsOf : (partsOf l).Nodup := by
  rw [partsOf, Multiset.coe_nodup, membersOf_eq, List.map_map]
  refine (nodup_eraseDups _).map_on fun r hr r' hr' heq => ?_
  obtain ⟨x, hx, rfl⟩ := List.mem_map.mp (List.mem_eraseDups.mp hr)
  obtain ⟨y, hy, rfl⟩ := List.mem_map.mp (List.mem_eraseDups.mp hr')
  have hx' := List.mem_zipIdx_iff_getElem?.mp hx
  have hy' := List.mem_zipIdx_iff_getElem?.mp hy
  simp only [Function.comp_apply, under_eq_kinOf hx', under_eq_kinOf hy'] at heq
  have hmem : x.1 ∈ (kinOf l y.1 : Multiset Attestation) :=
    heq ▸ mem_kinOf.mpr ⟨List.mem_of_getElem? hx', kin_refl⟩
  exact ((together_mergeAll hy' hx').mpr (mem_kinOf.mp hmem).2).symm

/-- Those without any token. -/
def unknownOf (l : List Attestation) : Multiset Attestation := ↑(l.filter fun a => !known a)

theorem kinOf_known (h : known a = true) (ha : a ∈ l) :
    (kinOf l a : Multiset Attestation) = family lineageTokens (knownOf l) a := by
  classical
  have hfilter : family lineageTokens (knownOf l) a =
      ((l.filter known).filter fun b => Linked lineageTokens (knownOf l) a b : List _) := by
    rw [family]
    exact Multiset.filter_coe _ _
  rw [kinOf, hfilter, List.filter_filter]
  refine congrArg _ (List.filter_congr fun b hb => ?_)
  have hmem : Linked lineageTokens (knownOf l) a b → known b = true := fun hlink =>
    (mem_knownOf.mp (hlink.mem (mem_knownOf.mpr ⟨ha, h⟩))).2
  by_cases hlink : Linked lineageTokens (knownOf l) a b
  · simp [Kin, h, hlink, hmem hlink]
  · simp [Kin, h, hlink]

theorem kinOf_unknown (h : known a = false) : kinOf l a = l.filter fun b => !known b := by
  rw [kinOf]
  exact List.filter_congr fun b _ => by cases hb : known b <;> simp [Kin, h, hb]

/-- GROUPS OF MERGED: the families of known lineage, and all the rest as one group. -/
theorem groups_of_merged : partsOf l =
    (families lineageTokens (knownOf l)).val + if unknownOf l = 0 then 0 else {unknownOf l} := by
  have hmem : ∀ c, (c ∈ families lineageTokens (knownOf l) ↔
      ∃ a ∈ l, known a = true ∧ c = kinOf l a) := by
    intro c
    rw [mem_families]
    constructor
    · rintro ⟨a, ha, rfl⟩
      obtain ⟨ha, hk⟩ := mem_knownOf.mp ha
      exact ⟨a, ha, hk, (kinOf_known hk ha).symm⟩
    · rintro ⟨a, ha, hk, rfl⟩
      exact ⟨a, mem_knownOf.mpr ⟨ha, hk⟩, (kinOf_known hk ha).symm⟩
  have hunknown : ∀ c, (c ∈ (if unknownOf l = 0 then 0 else {unknownOf l} : Multiset _) ↔
      ∃ a ∈ l, known a = false ∧ c = kinOf l a) := by
    intro c
    have hzero : unknownOf l = 0 ↔ ∀ a ∈ l, known a = true := by
      simp [unknownOf, List.filter_eq_nil_iff]
    split
    next h =>
      simp only [Multiset.notMem_zero, false_iff]
      rintro ⟨a, ha, hk, -⟩
      rw [hzero.mp h a ha] at hk
      cases hk
    next h =>
      rw [Multiset.mem_singleton]
      constructor
      · rintro rfl
        simp only [hzero, not_forall, Bool.not_eq_true] at h
        obtain ⟨a, ha, hk⟩ := h
        exact ⟨a, ha, hk, congrArg _ (kinOf_unknown hk).symm⟩
      · rintro ⟨a, -, hk, rfl⟩
        exact congrArg _ (kinOf_unknown hk)
  have hdisjoint : Disjoint (families lineageTokens (knownOf l)).val
      (if unknownOf l = 0 then 0 else {unknownOf l}) := by
    rw [Multiset.disjoint_left]
    intro c hc hc'
    obtain ⟨a, ha, hk, rfl⟩ := (hmem c).mp hc
    obtain ⟨b, -, hk', heq⟩ := (hunknown _).mp hc'
    have hin : a ∈ (kinOf l b : Multiset Attestation) := heq ▸ mem_kinOf.mpr ⟨ha, kin_refl⟩
    rw [kinOf_unknown hk'] at hin
    simp [hk] at hin
  have hnodup : (if unknownOf l = 0 then 0 else {unknownOf l} : Multiset _).Nodup := by
    split
    · exact Multiset.nodup_zero
    · exact Multiset.nodup_singleton _
  refine (Multiset.Nodup.ext nodup_partsOf (Multiset.nodup_add.mpr
    ⟨(families _ _).nodup, hnodup, hdisjoint⟩)).mpr fun c => ?_
  rw [Multiset.mem_add, Finset.mem_val, hmem, hunknown, partsOf]
  simp only [Multiset.mem_coe, List.mem_map, mem_membersOf]
  constructor
  · rintro ⟨_, ⟨a, ha, rfl⟩, rfl⟩
    cases hk : known a with
    | true => exact .inl ⟨a, ha, hk, rfl⟩
    | false => exact .inr ⟨a, ha, hk, rfl⟩
  · rintro (⟨a, ha, -, rfl⟩ | ⟨a, ha, -, rfl⟩)
    · exact ⟨_, ⟨a, ha, rfl⟩, rfl⟩
    · exact ⟨_, ⟨a, ha, rfl⟩, rfl⟩

theorem flatten_membersOf : (membersOf l).flatten.Perm l := by
  have h := flatten_under (l.zipIdx.map fun x => ((mergeAll l).top x.2, x.1))
  rw [membersOf_eq]
  simpa [List.map_map, Function.comp_def] using h

theorem disjoint_membersOf : (membersOf l).Pairwise List.Disjoint := by
  rw [membersOf_eq, List.pairwise_map]
  refine (nodup_eraseDups _).imp_of_mem fun {r r'} hr hr' hne c hc hc' => hne ?_
  obtain ⟨x, hx, rfl⟩ := List.mem_map.mp (List.mem_eraseDups.mp hr)
  obtain ⟨y, hy, rfl⟩ := List.mem_map.mp (List.mem_eraseDups.mp hr')
  have hx' := List.mem_zipIdx_iff_getElem?.mp hx
  have hy' := List.mem_zipIdx_iff_getElem?.mp hy
  rw [under_eq_kinOf hx'] at hc
  rw [under_eq_kinOf hy'] at hc'
  obtain ⟨hcl, hxc⟩ := mem_kinOf.mp hc
  obtain ⟨k, hk⟩ := List.mem_iff_getElem?.mp hcl
  exact ((together_mergeAll hx' hk).mpr hxc).trans
    ((together_mergeAll hy' hk).mpr (mem_kinOf.mp hc').2).symm

/-! ### Counts -/

theorem groups_eq :
    Multiset.ofList (analyzeAttestationIndependence P l).groups =
      (partsOf l).map (describeAll P) := by
  rw [partsOf, Multiset.map_coe, List.map_map]
  exact Multiset.coe_eq_coe.mpr (Collation.sortBy_perm _)

theorem describeAll_known {c : Multiset Attestation} :
    (describeAll P c).knownLineage = true ↔ ∃ a ∈ c, known a = true := by
  induction c using Quotient.inductionOn with
  | _ p => exact describe_known

/-- COUNTED: only families of known lineage count, each once. -/
theorem known_groups (Q : Group → Prop) [DecidablePred Q] :
    (((analyzeAttestationIndependence P l).groups.filter fun g => g.knownLineage).filter
      fun g => Q g).length =
        ((families lineageTokens (knownOf l)).filter fun c => Q (describeAll P c)).card := by
  have hfamilies : ∀ c ∈ (families lineageTokens (knownOf l)).val,
      (describeAll P c).knownLineage = true := by
    intro c hc
    obtain ⟨a, ha, rfl⟩ := mem_families.mp (Finset.mem_val.mp hc)
    exact describeAll_known.mpr ⟨a, mem_family.mpr ⟨ha, .refl⟩, (mem_knownOf.mp ha).2⟩
  have hunknown : ∀ c ∈ (if unknownOf l = 0 then 0 else {unknownOf l} : Multiset _),
      ¬(describeAll P c).knownLineage = true := by
    intro c hc hk
    split at hc
    · simp at hc
    · obtain rfl := Multiset.mem_singleton.mp hc
      obtain ⟨a, ha, hk⟩ := describeAll_known.mp hk
      simp [unknownOf, hk] at ha
  have hcard : ∀ gs : List Group, ((gs.filter fun g => g.knownLineage).filter fun g => Q g).length =
      (((Multiset.ofList gs).filter fun g => g.knownLineage = true).filter Q).card := by
    intro gs
    simp
  have hfilter : ((partsOf l).map (describeAll P)).filter (fun g => g.knownLineage = true) =
      (families lineageTokens (knownOf l)).val.map (describeAll P) := by
    rw [groups_of_merged, Multiset.filter_map, Multiset.filter_add]
    have h₁ := Multiset.filter_eq_self.mpr hfamilies
    have h₂ := Multiset.filter_eq_nil.mpr hunknown
    simp only [Function.comp_def]
    rw [h₁, h₂, add_zero]
  rw [hcard, groups_eq, hfilter, Multiset.filter_map, Multiset.card_map]
  rfl

theorem knownOf_perm (h : l.Perm l') : knownOf l = knownOf l' :=
  Multiset.coe_eq_coe.mpr (h.filter _)

theorem partsOf_perm (h : l.Perm l') : partsOf l = partsOf l' := by
  have hunknown : unknownOf l = unknownOf l' := Multiset.coe_eq_coe.mpr (h.filter _)
  rw [groups_of_merged, groups_of_merged, knownOf_perm h, hunknown]

theorem groups_perm (h : l.Perm l') :
    (analyzeAttestationIndependence P l).groups.Perm
      (analyzeAttestationIndependence P l').groups := by
  rw [← Multiset.coe_eq_coe, groups_eq, groups_eq, partsOf_perm h]

theorem summary_perm {gs gs' : List Group} (h : gs.Perm gs') (n : ℕ) :
    { summary gs n with groups := [] } = { summary gs' n with groups := [] } := by
  have hknown := h.filter fun g => g.knownLineage
  simp only [summary, hknown.length_eq, (hknown.filter _).length_eq, (h.filter _).length_eq]

theorem near_knownOf : Near lineageTokens (knownOf l) =
    fun x y => x ∈ l ∧ y ∈ l ∧ ∃ t, t ∈ lineageTokens x ∧ t ∈ lineageTokens y := by
  funext x y
  refine propext ⟨?_, ?_⟩
  · rintro ⟨hx, hy, hshare⟩
    exact ⟨(mem_knownOf.mp hx).1, (mem_knownOf.mp hy).1, hshare⟩
  · rintro ⟨hx, hy, t, htx, hty⟩
    exact ⟨mem_knownOf.mpr ⟨hx, known_of_token htx⟩, mem_knownOf.mpr ⟨hy, known_of_token hty⟩,
      t, htx, hty⟩

theorem kin_of_grouped (hp : p ∈ membersOf l) (ha : a ∈ p) (hb : b ∈ p) :
    Kin l a b := by
  obtain ⟨c, hc, rfl⟩ := mem_membersOf.mp hp
  obtain ⟨ha, hca⟩ := mem_kinOf.mp ha
  obtain ⟨hb, hcb⟩ := mem_kinOf.mp hb
  obtain ⟨k, hk⟩ := List.mem_iff_getElem?.mp hc
  obtain ⟨i, hi⟩ := List.mem_iff_getElem?.mp ha
  obtain ⟨j, hj⟩ := List.mem_iff_getElem?.mp hb
  exact (together_mergeAll hi hj).mp
    (((together_mergeAll hk hi).mpr hca).symm.trans ((together_mergeAll hk hj).mpr hcb))

/-- The group of an attestation of unknown lineage. -/
theorem unknown_group (hp : p ∈ membersOf l) (ha : a ∈ p) (hka : known a = false) :
    p = l.filter fun b => !known b := by
  obtain ⟨c, hc, rfl⟩ := mem_membersOf.mp hp
  have hkc : known c = false := by
    rcases (mem_kinOf.mp ha).2 with ⟨hk, hlink⟩ | ⟨hk, -⟩
    · have hmem := hlink.mem (mem_knownOf.mpr ⟨hc, hk⟩)
      rw [(mem_knownOf.mp hmem).2] at hka
      cases hka
    · exact hk
  exact kinOf_unknown hkc

/-- INDEPENDENT: attestations of known lineage are in one group just when a chain of attestations
    that share tokens links them; those of unknown lineage are all in one group, which does not
    count; and in whatever order they come, there are the same groups and the same counts. -/
theorem independence_groups (P : Platform) (attestations : List Attestation) :
    let result := analyzeAttestationIndependence P attestations
    let parts := membersOf attestations
    (result.groups.Perm (parts.map (describe P)) ∧ parts.flatten.Perm attestations ∧
      parts.Pairwise List.Disjoint) ∧
    (∀ a ∈ attestations, ∀ b ∈ attestations, known a = true → known b = true →
      ((∃ p ∈ parts, a ∈ p ∧ b ∈ p) ↔ ReflTransGen (fun x y => x ∈ attestations ∧
        y ∈ attestations ∧ ∃ t, t ∈ lineageTokens x ∧ t ∈ lineageTokens y) a b)) ∧
    (∀ p ∈ parts, ∀ a ∈ p, known a = false → p = attestations.filter (fun b => !known b) ∧
      (describe P p).knownLineage = false) ∧
    result.independentKnownGroups = (parts.filter fun p => p.any known).length ∧
    ∀ permuted, attestations.Perm permuted →
      (∀ p ∈ parts, ∃ p' ∈ membersOf permuted, p.Perm p') ∧
      result.groups.Perm (analyzeAttestationIndependence P permuted).groups ∧
      { result with groups := [] } =
        { analyzeAttestationIndependence P permuted with groups := [] } := by
  refine ⟨⟨Collation.sortBy_perm _, flatten_membersOf, disjoint_membersOf⟩, ?_, ?_, ?_, ?_⟩
  · intro a ha b hb hka hkb
    rw [← near_knownOf]
    constructor
    · rintro ⟨p, hp, hap, hbp⟩
      rcases kin_of_grouped hp hap hbp with ⟨-, hlink⟩ | ⟨hk, -⟩
      · exact hlink
      · rw [hka] at hk
        cases hk
    · intro hlink
      exact ⟨kinOf attestations a, mem_membersOf.mpr ⟨a, ha, rfl⟩, mem_kinOf.mpr ⟨ha, kin_refl⟩,
        mem_kinOf.mpr ⟨hb, .inl ⟨hka, hlink⟩⟩⟩
  · intro p hp a hap hka
    have hgroup := unknown_group hp hap hka
    refine ⟨hgroup, ?_⟩
    rw [← Bool.not_eq_true, describe_known, hgroup]
    simp
  · have hsorted : (analyzeAttestationIndependence P attestations).groups.Perm
        ((membersOf attestations).map (describe P)) := Collation.sortBy_perm _
    have hperm := hsorted.filter fun g => g.knownLineage
    have hany : (fun p => (describe P p).knownLineage) = fun p : List Attestation => p.any known := by
      funext p
      rw [Bool.eq_iff_iff, describe_known, List.any_eq_true]
    refine hperm.length_eq.trans ?_
    rw [List.filter_map, List.length_map]
    exact congrArg (fun q => (List.filter q (membersOf attestations)).length) hany
  · intro permuted h
    refine ⟨fun p hp => ?_, groups_perm h, ?_⟩
    · have hmem : Multiset.ofList p ∈ partsOf permuted :=
        partsOf_perm h ▸ List.mem_map_of_mem hp
      obtain ⟨p', hp', heq⟩ := List.mem_map.mp hmem
      exact ⟨p', hp', (Multiset.coe_eq_coe.mp heq).symm⟩
    · rw [analyzeAttestationIndependence, analyzeAttestationIndependence, ← h.length_eq]
      exact summary_perm (groups_perm (P := P) h) attestations.length

end Truyn.Trust
