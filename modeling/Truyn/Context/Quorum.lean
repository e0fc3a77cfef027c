import Truyn.Context.Coordinator

/-! context:quorum | a candidate has a quorum of holders, a partition has one if nobody is asked twice

    Candidates are grouped by holder, so a group with enough members has enough holders, and one of
    them is honest where fewer are not. Responses are not grouped: a holder with two offers for a
    partition may be asked twice and count twice, just when both offers come among the first that
    are read (`distinct_quorums`). -/

namespace Truyn.Context
open Checks

variable {S : Signatures} {c : Coordinator} {m : Manifest} {rootCid queryHash : JsString}
  {respond : Holder → Option Response} {holderTrust : Holder → ℚ}

/-! ### Who is asked -/

/-- The offers that are the best of their failure domain, or have none, of domains not `used`. -/
def firsts : List Holder → List JsString → List Holder
  | [], _ => []
  | h :: ranked, used =>
    if h.domain.any (· ∈ used) then firsts ranked used
    else h :: firsts ranked (used ++ h.domain.toList)

/-- The best of each failure domain, and then the others. -/
def byPriority (ranked : List Holder) : List Holder :=
  firsts ranked [] ++ ranked.filter fun h => !(firsts ranked []).any fun s => s.object = h.object

/-- The offers of a partition, the best first. -/
def rankedOffers (S : Signatures) (holders : List Holder) : List Holder :=
  holders.insertionSort (ranks S.collation)

/-- Of the offers that are read first, no two are of one holder. -/
def ReadsDistinct (S : Signatures) (c : Coordinator) (holders : List Holder) : Prop :=
  (((byPriority (rankedOffers S holders)).take c.replicaReads).map Holder.nodeId).Nodup

variable {ranked selected : List Holder} {reads : ℕ} {offers : List Offer} {coverage : Coverage}
  {replicas : List (List Holder)} {verified : List Verified} {q : QuorumCandidate}

variable {used : List JsString} {holders : List Holder} {h : Holder} {seen : List Verified}
  {groups : List ((ℤ × JsString) × List Verified)} {v : Verified}
  {candidates : List QuorumCandidate}

theorem firsts_sublist :
    (firsts ranked used).Sublist ranked := by
  induction ranked generalizing used with
  | nil => exact List.Sublist.refl _
  | cons h ranked ih =>
    rw [firsts]
    split
    · exact ih.cons h
    · exact ih.cons_cons h

theorem byPriority_rankedOffers_subset (holders : List Holder) :
    byPriority (rankedOffers S holders) ⊆ holders := by
  have hperm : (rankedOffers S holders).Perm holders := List.perm_insertionSort _ holders
  intro h hh
  rcases List.mem_append.mp hh with hh | hh
  · exact hperm.subset (firsts_sublist.subset hh)
  · exact hperm.subset (List.mem_of_mem_filter hh)

theorem take_full {l r : List Holder} {x : Holder} (h : l.length < reads)
    (hfull : reads ≤ l.length + 1) : (l ++ x :: r).take reads = l ++ [x] := by
  have hreads : reads = (l ++ [x]).length := by
    rw [List.length_append, List.length_singleton]
    omega
  rw [List.append_cons l x r, hreads, List.take_left]

theorem pickDiverse_eq (h : selected.length < reads) :
    pickDiverse reads ranked selected used = (selected ++ firsts ranked used).take reads := by
  induction ranked generalizing selected used with
  | nil => rw [pickDiverse, firsts, List.append_nil, List.take_of_length_le h.le]
  | cons x ranked ih =>
    rw [pickDiverse, firsts]
    split
    · exact ih h
    split
    · next hfull => rw [take_full h hfull]
    · next hfull =>
      rw [ih (by rw [List.length_append, List.length_singleton]; omega), List.append_assoc]
      rfl

theorem pickOthers_eq (h : selected.length < reads) (hnodup : (ranked.map Holder.object).Nodup) :
    pickOthers reads ranked selected =
      (selected ++ ranked.filter fun h => !selected.any fun s => s.object = h.object).take reads := by
  induction ranked generalizing selected with
  | nil => rw [pickOthers, List.filter_nil, List.append_nil, List.take_of_length_le h.le]
  | cons x ranked ih =>
    have htail : (ranked.map Holder.object).Nodup := hnodup.of_cons
    have hx : ∀ y ∈ ranked, y.object ≠ x.object := by
      intro y hy heq
      rw [List.map_cons, List.nodup_cons] at hnodup
      exact hnodup.1 (heq ▸ List.mem_map_of_mem hy)
    rw [pickOthers]
    split
    · next hin => rw [ih h htail, List.filter_cons_of_neg (by simpa using hin)]
    next hout =>
    rw [List.filter_cons_of_pos (by simpa using hout)]
    split
    · next hfull => rw [take_full h hfull]
    · next hfull =>
      rw [ih (by rw [List.length_append, List.length_singleton]; omega) htail, List.append_assoc]
      -- None of the offers behind `x` is the object `x`.
      have hfilter : (ranked.filter fun h => !(selected ++ [x]).any fun s => s.object = h.object) =
          ranked.filter fun h => !selected.any fun s => s.object = h.object := by
        refine List.filter_congr fun y hy => ?_
        have hne : ¬x.object = y.object := fun heq => hx y hy heq.symm
        simp [hne]
      rw [hfilter]
      rfl

/-- The replicas are the offers that come first. -/
theorem selectTrustedReplicaSet_ok (hnodup : (holders.map Holder.object).Nodup)
    (h : selectTrustedReplicaSet S c holders = .ok selected) :
    selected = (byPriority (rankedOffers S holders)).take c.replicaReads := by
  have hpos : ([] : List Holder).length < c.replicaReads := c.quorum_pos.trans c.quorum_le
  have hperm : (rankedOffers S holders).Perm holders := List.perm_insertionSort _ holders
  have hranked : ((rankedOffers S holders).map Holder.object).Nodup :=
    (hperm.map Holder.object).nodup_iff.mpr hnodup
  simp only [selectTrustedReplicaSet, throw_ok, pure_ok] at h
  obtain ⟨-, -, rfl⟩ := h
  have hfirst : pickDiverse c.replicaReads (rankedOffers S holders) [] [] =
      (firsts (rankedOffers S holders) []).take c.replicaReads := by
    rw [pickDiverse_eq hpos, List.nil_append]
  rw [← rankedOffers, hfirst]
  split
  · next hfew =>
    have hall : (firsts (rankedOffers S holders) []).take c.replicaReads =
        firsts (rankedOffers S holders) [] := by
      rw [List.length_take] at hfew
      exact List.take_of_length_le (by omega)
    rw [hall] at hfew ⊢
    exact pickOthers_eq hfew hranked
  · next hmany =>
    rw [List.length_take] at hmany
    rw [byPriority, List.take_append_of_le_length (by omega)]

/-! ### Coverage -/

theorem parsePlacementOffer_object {object : ℕ} {o : Offer}
    (hok : parsePlacementOffer S m rootCid object o = .ok (some h)) : h.object = object := by
  unfold parsePlacementOffer at hok
  split at hok
  · simp [pure, Except.pure] at hok
  split at hok
  · split at hok
    · simp [pure, Except.pure] at hok
    obtain ⟨expected, -, hok⟩ := bind_ok.mp hok
    split at hok
    · simp [pure, Except.pure] at hok
    · cases pure_ok.mp hok
      rfl
  · simp [pure, Except.pure] at hok

/-- Parsed offers are objects of their own. -/
theorem parseOffers_objects {offers : List (Offer × ℕ)}
    (hok : parseOffers S m rootCid offers = .ok holders) :
    (holders.map Holder.object).Sublist (offers.map Prod.snd) := by
  induction offers generalizing holders with
  | nil =>
    obtain rfl := pure_ok.mp hok
    exact List.Sublist.refl _
  | cons p offers ih =>
    obtain ⟨o, object⟩ := p
    simp only [parseOffers, bind_ok, pure_ok] at hok
    obtain ⟨holder, hholder, rest, hrest, rfl⟩ := hok
    cases holder with
    | none => exact (ih hrest).cons object
    | some h =>
      rw [Option.toList_some, List.cons_append, List.nil_append, List.map_cons, List.map_cons,
        parsePlacementOffer_object hholder]
      exact (ih hrest).cons_cons object

theorem groupPlacementCoverage_nodup
    (hok : groupPlacementCoverage S m offers rootCid = .ok coverage) :
    (coverage.holders.map Holder.object).Nodup := by
  obtain ⟨holders, hholders, hok⟩ := bind_ok.mp hok
  have hnodup : (holders.map Holder.object).Nodup := by
    refine (parseOffers_objects hholders).nodup ?_
    rw [List.zipIdx_map_snd]
    exact List.nodup_range'
  split at hok
  · simp [throw, throwThe, MonadExceptOf.throw] at hok
  · dsimp only at hok
    split at hok
    · simp [throw, throwThe, MonadExceptOf.throw] at hok
    · obtain rfl := pure_ok.mp hok
      exact hnodup
  · simp [throw, throwThe, MonadExceptOf.throw] at hok

theorem selectAllReplicas_ok {indices : List ℕ}
    (hok : selectAllReplicas S c coverage indices = .ok replicas) :
    List.Forall₂ (fun k l => selectTrustedReplicaSet S c (coverage.at k) = .ok l) indices
      replicas := by
  induction indices generalizing replicas with
  | nil =>
    obtain rfl := pure_ok.mp hok
    exact .nil
  | cons k indices ih =>
    simp only [selectAllReplicas, bind_ok, pure_ok] at hok
    obtain ⟨selected, hselected, rest, hrest, rfl⟩ := hok
    exact .cons hselected (ih hrest)

/-- The replicas of each partition are the offers that are read first. -/
theorem discover_ok (hok : discover S c m offers rootCid = .ok (coverage, replicas)) :
    replicas = (List.range coverage.partitionCount).map fun k =>
      (byPriority (rankedOffers S (coverage.at k))).take c.replicaReads := by
  simp only [discover, bind_ok, pure_ok, Prod.mk.injEq] at hok
  obtain ⟨coverage, hcoverage, replicas, hreplicas, rfl, rfl⟩ := hok
  have hnodup := groupPlacementCoverage_nodup hcoverage
  have hall := selectAllReplicas_ok hreplicas
  clear hreplicas
  generalize List.range coverage.partitionCount = indices at hall
  induction hall with
  | nil => rfl
  | @cons k _ _ _ hselected _ ih =>
    have hat : ((coverage.at k).map Holder.object).Nodup :=
      (List.filter_sublist.map Holder.object).nodup hnodup
    rw [List.map_cons, ← selectTrustedReplicaSet_ok hat hselected, ← ih]

/-! ### Groups of candidates -/

/-- A group has candidates of one partition and CID, each of another holder. -/
def Grouped (seen : List Verified) (groups : List ((ℤ × JsString) × List Verified)) : Prop :=
  ∀ g ∈ groups, (∀ v ∈ g.2, v.key = g.1 ∧ v.candidate.cid.getD [] ≠ [] ∧ v ∈ seen) ∧
    (g.2.map fun v => v.holder.nodeId).Nodup

theorem Grouped.add (h : Grouped seen groups) (hv : v ∈ seen) :
    Grouped seen (addSupport groups v) := by
  unfold addSupport
  split
  · exact h
  next hne =>
  dsimp only
  split
  · exact h
  next hnew =>
  intro g hg
  have hold : ∀ w ∈ (Maps.get groups v.key).getD [],
      w.key = v.key ∧ w.candidate.cid.getD [] ≠ [] ∧ w ∈ seen := by
    cases hget : Maps.get groups v.key with
    | none => simp
    | some l => exact (h _ (Maps.mem_of_get hget)).1
  have hnodup : (((Maps.get groups v.key).getD []).map fun w => w.holder.nodeId).Nodup := by
    cases hget : Maps.get groups v.key with
    | none => simp
    | some l => exact (h _ (Maps.mem_of_get hget)).2
  rcases Maps.mem_set hg with rfl | hg
  · refine ⟨fun w hw => ?_, ?_⟩
    · rcases List.mem_append.mp hw with hw | hw
      · exact hold w hw
      · obtain rfl := List.mem_singleton.mp hw
        exact ⟨rfl, fun heq => hne (.inl heq), hv⟩
    · rw [List.map_append, List.nodup_append]
      refine ⟨hnodup, List.nodup_singleton _, ?_⟩
      rintro x hx y hy rfl
      obtain ⟨w, hw, rfl⟩ := List.mem_map.mp hx
      rw [List.map_singleton, List.mem_singleton] at hy
      exact hnew (List.any_eq_true.mpr ⟨w, hw, decide_eq_true hy⟩)
  · exact h g hg

theorem grouped_foldl {l : List Verified} (hl : l ⊆ seen) (h : Grouped seen groups) :
    Grouped seen (l.foldl addSupport groups) := by
  induction l generalizing groups with
  | nil => exact h
  | cons v l ih =>
    exact ih (fun w hw => hl (List.mem_cons_of_mem v hw)) (h.add (hl List.mem_cons_self))

/-! ### Who backs a candidate -/

theorem verifyAll_sound {cs : List Candidate}
    (hok : verifyAll S holderTrust m rootCid queryHash h cs = .ok verified) :
    ∀ v ∈ verified, v.holder = h ∧ v.candidate ∈ cs ∧
      verifyDistributedCandidate S m rootCid queryHash h.ref v.candidate h.publicKey = .ok none := by
  induction cs generalizing verified with
  | nil =>
    obtain rfl := pure_ok.mp hok
    intro v hv
    cases hv
  | cons x cs ih =>
    simp only [verifyAll, bind_ok, pure_ok] at hok
    obtain ⟨reason, hreason, rest, hrest, rfl⟩ := hok
    intro v hv
    have hcases : v ∈ rest ∨ reason = none ∧ v = ⟨x, h, holderTrust h⟩ := by
      split at hv
      · next hnone => exact (List.mem_cons.mp hv).symm.imp id fun heq => ⟨hnone, heq⟩
      · exact .inl hv
    rcases hcases with hv | ⟨rfl, rfl⟩
    · obtain ⟨hholder, hmem, hverified⟩ := ih hrest v hv
      exact ⟨hholder, List.mem_cons_of_mem x hmem, hverified⟩
    · exact ⟨rfl, List.mem_cons_self, hreason⟩

/-- Who is counted for a candidate was asked, and answered with it under his signature. -/
structure Gave (S : Signatures) (m : Manifest) (rootCid queryHash : JsString)
    (respond : Holder → Option Response) (v : Verified) : Prop where
  candidate : ∃ r, respond v.holder = some r ∧ v.candidate ∈ r.candidates
  verified : verifyDistributedCandidate S m rootCid queryHash v.holder.ref v.candidate
    v.holder.publicKey = .ok none

theorem collectVerified_sound {hs : List Holder}
    (hok : collectVerified S respond holderTrust m rootCid queryHash hs = .ok verified) :
    ∀ v ∈ verified, v.holder ∈ hs ∧ Gave S m rootCid queryHash respond v := by
  induction hs generalizing verified with
  | nil =>
    obtain rfl := pure_ok.mp hok
    intro v hv
    cases hv
  | cons h hs ih =>
    simp only [collectVerified, bind_ok, pure_ok] at hok
    obtain ⟨first, hfirst, rest, hrest, rfl⟩ := hok
    intro v hv
    rcases List.mem_append.mp hv with hv | hv
    · obtain ⟨rfl, hmem, hverified⟩ := verifyAll_sound hfirst v hv
      cases hr : respond v.holder with
      | none =>
        rw [hr] at hmem
        cases hmem
      | some r =>
        rw [hr] at hmem
        exact ⟨List.mem_cons_self, ⟨r, hr, hmem⟩, hverified⟩
    · exact (ih hrest v hv).imp (List.mem_cons_of_mem h) id

/-- The supporters of a candidate are a quorum of holders, for one partition and one CID. -/
structure Backed (S : Signatures) (c : Coordinator) (m : Manifest) (rootCid queryHash : JsString)
    (respond : Holder → Option Response) (replicas : List (List Holder)) (q : QuorumCandidate) :
    Prop where
  primary : q.primary ∈ q.supporters
  distinct : (q.supporters.map fun v => v.holder.nodeId).Nodup
  enough : c.quorum ≤ q.supporters.length
  same : ∀ v ∈ q.supporters, v.holder.partitionIndex = q.primary.holder.partitionIndex ∧
    v.candidate.cid = q.cid
  asked : ∀ v ∈ q.supporters, ∃ l ∈ replicas, v.holder ∈ answered respond rootCid queryHash l
  gave : ∀ v ∈ q.supporters, Gave S m rootCid queryHash respond v

theorem cid_of_getD {w : Verified} (hkey : v.key = w.key) (hv : v.candidate.cid.getD [] ≠ [])
    (hw : w.candidate.cid.getD [] ≠ []) : v.candidate.cid = w.candidate.cid := by
  have hcid : v.candidate.cid.getD [] = w.candidate.cid.getD [] := congrArg Prod.snd hkey
  cases hvc : v.candidate.cid with
  | none => simp [hvc] at hv
  | some a =>
    cases hwc : w.candidate.cid with
    | none => simp [hwc] at hw
    | some b => simpa [hvc, hwc] using hcid

theorem quorumCandidate_backed
    (hasked : ∀ v ∈ verified, (∃ l ∈ replicas, v.holder ∈ answered respond rootCid queryHash l) ∧
      Gave S m rootCid queryHash respond v) (hq : q ∈ buildCandidateQuorum S c verified) :
    Backed S c m rootCid queryHash respond replicas q := by
  obtain ⟨⟨key, byHolder⟩, hg, hq⟩ := List.mem_filterMap.mp hq
  have hgrouped : Grouped verified (verified.foldl addSupport []) :=
    grouped_foldl (List.Subset.refl _) fun g hg => by cases hg
  obtain ⟨hall, hnodup⟩ := hgrouped _ hg
  unfold quorumCandidate at hq
  split at hq
  · cases hq
  next henough =>
  have hperm := List.perm_insertionSort (supportRanks S.collation) byHolder
  split at hq
  · cases hq
  next primary rest hsorted =>
  cases hq
  rw [hsorted] at hperm
  have hmem : ∀ v ∈ primary :: rest, v ∈ byHolder := fun v hv => hperm.subset hv
  refine ⟨List.mem_cons_self, (hperm.map _).nodup_iff.mpr hnodup, ?_, fun v hv => ?_, fun v hv => ?_,
    fun v hv => ?_⟩
  · rw [hperm.length_eq]
    exact not_lt.mp henough
  · have hp := hall primary (hmem primary List.mem_cons_self)
    have hw := hall v (hmem v hv)
    have hkey : v.key = primary.key := hw.1.trans hp.1.symm
    exact ⟨congrArg Prod.fst hkey, cid_of_getD hkey hw.2.1 hp.2.1⟩
  · exact (hasked v (hall v (hmem v hv)).2.2).1
  · exact (hasked v (hall v (hmem v hv)).2.2).2

/-- Fewer others than the quorum leave one of the supporters out. -/
theorem Backed.honest (h : Backed S c m rootCid queryHash respond replicas q)
    {byzantine : List NodeId} (hfew : byzantine.length < c.quorum) :
    ∃ v ∈ q.supporters, v.holder.nodeId ∉ byzantine := by
  by_contra hnone
  have hsub : (q.supporters.map fun v => v.holder.nodeId) ⊆ byzantine := by
    intro id hid
    obtain ⟨v, hv, rfl⟩ := List.mem_map.mp hid
    by_contra hout
    exact hnone ⟨v, hv, hout⟩
  have hle := (List.subperm_of_subset h.distinct hsub).length_le
  rw [List.length_map] at hle
  have := h.enough
  omega

/-! ### Retrieval -/

theorem pick_mem {p : Pick} (h : pick candidates p = some q) :
    q ∈ candidates := by
  obtain ⟨cid, -, h⟩ := Option.bind_eq_some_iff.mp h
  exact List.mem_reverse.mp (List.mem_of_find?_eq_some h)

theorem mapM_pick_mem {picks : List Pick} {selected : List QuorumCandidate}
    (h : picks.mapM (pick candidates) = some selected) :
    ∀ q ∈ selected, q ∈ candidates := by
  induction picks generalizing selected with
  | nil =>
    obtain rfl : [] = selected := by simpa using h
    intro q hq
    cases hq
  | cons p picks ih =>
    rw [List.mapM_cons] at h
    obtain ⟨q, hq, h⟩ := Option.bind_eq_some_iff.mp h
    obtain ⟨rest, hrest, h⟩ := Option.bind_eq_some_iff.mp h
    cases h
    exact List.forall_mem_cons.mpr ⟨pick_mem hq, ih hrest⟩

theorem retrieve_ok {selector : List QuorumCandidate → Option (List Pick)} {topK : ℕ}
    {r : Retrieval}
    (h : retrieve S respond holderTrust c m rootCid queryHash offers selector topK = .ok r) :
    ∃ coverage verified, groupPlacementCoverage S m offers rootCid = .ok coverage ∧
      r.replicas = (List.range coverage.partitionCount).map (fun k =>
        (byPriority (rankedOffers S (coverage.at k))).take c.replicaReads) ∧
      collectVerified S respond holderTrust m rootCid queryHash
        (r.replicas.map (answered respond rootCid queryHash)).flatten = .ok verified ∧
      (∀ l ∈ r.replicas, c.quorum ≤ (answered respond rootCid queryHash l).length) ∧
      ∀ q ∈ r.selected, q ∈ buildCandidateQuorum S c verified := by
  simp only [retrieve, bind_ok, guard_ok] at h
  obtain ⟨-, u, -, ⟨coverage, replicas⟩, hdiscover, verified, hverified, hanswers, -, h⟩ := h
  have hcoverage : groupPlacementCoverage S m offers rootCid = .ok coverage := by
    simp only [discover, bind_ok, pure_ok, Prod.mk.injEq] at hdiscover
    obtain ⟨coverage, hcoverage, replicas, -, rfl, rfl⟩ := hdiscover
    exact hcoverage
  split at h
  · simp [throw, throwThe, MonadExceptOf.throw] at h
  split at h
  · simp [throw, throwThe, MonadExceptOf.throw] at h
  split at h
  · simp [throw, throwThe, MonadExceptOf.throw] at h
  next selected hselected =>
  obtain rfl := pure_ok.mp h
  exact ⟨coverage, verified, hcoverage, discover_ok hdiscover, hverified, by simpa using hanswers,
    mapM_pick_mem hselected⟩

/-- A retrieval asks nobody twice about a partition, has the answers of a quorum of holders for each
    partition, and a quorum of holders behind each candidate, not all of them among any few. -/
structure DistinctQuorums (S : Signatures) (c : Coordinator) (m : Manifest)
    (rootCid queryHash : JsString) (respond : Holder → Option Response) (r : Retrieval) : Prop where
  once : ∀ l ∈ r.replicas, (l.map Holder.nodeId).Nodup
  answers : ∀ l ∈ r.replicas,
    c.quorum ≤ ((answered respond rootCid queryHash l).map Holder.nodeId).toFinset.card
  backed : ∀ q ∈ r.selected, Backed S c m rootCid queryHash respond r.replicas q
  honest : ∀ q ∈ r.selected, ∀ byzantine : List NodeId, byzantine.length < c.quorum →
    ∃ v ∈ q.supporters, v.holder.nodeId ∉ byzantine

/-- Quorums count distinct holders: the candidates of a retrieval always have a quorum of distinct
    holders behind them, and its partitions just when no two of the offers that are read first are
    of one holder. -/
theorem distinct_quorums {offers : List Offer}
    {selector : List QuorumCandidate → Option (List Pick)} {topK : ℕ} {r : Retrieval}
    (h : retrieve S respond holderTrust c m rootCid queryHash offers selector topK = .ok r) :
    ∃ coverage, groupPlacementCoverage S m offers rootCid = .ok coverage ∧
      List.Forall₂ (fun k l => l ⊆ coverage.at k) (List.range coverage.partitionCount) r.replicas ∧
      (∀ q ∈ r.selected, Backed S c m rootCid queryHash respond r.replicas q) ∧
      (DistinctQuorums S c m rootCid queryHash respond r ↔
        ∀ k < coverage.partitionCount, ReadsDistinct S c (coverage.at k)) := by
  obtain ⟨coverage, verified, hcoverage, hreplicas, hverified, hanswers, hselected⟩ := retrieve_ok h
  have hbacked : ∀ q ∈ r.selected, Backed S c m rootCid queryHash respond r.replicas q := by
    intro q hq
    refine quorumCandidate_backed (fun v hv => ?_) (hselected q hq)
    obtain ⟨hmem, hgave⟩ := collectVerified_sound hverified v hv
    obtain ⟨asked, hasked, hv⟩ := List.mem_flatten.mp hmem
    obtain ⟨l, hl, rfl⟩ := List.mem_map.mp hasked
    exact ⟨⟨l, hl, hv⟩, hgave⟩
  refine ⟨coverage, hcoverage, ?_, hbacked, fun hd k hk => ?_, fun hreads => ?_⟩
  · rw [hreplicas, List.forall₂_map_right_iff]
    refine List.forall₂_same.mpr fun k _ => ?_
    exact List.Subset.trans (List.take_subset _ _) (byPriority_rankedOffers_subset (coverage.at k))
  · refine hd.once _ ?_
    rw [hreplicas]
    exact List.mem_map_of_mem (List.mem_range.mpr hk)
  · have honce : ∀ l ∈ r.replicas, (l.map Holder.nodeId).Nodup := by
      intro l hl
      rw [hreplicas] at hl
      obtain ⟨k, hk, rfl⟩ := List.mem_map.mp hl
      exact hreads k (List.mem_range.mp hk)
    refine ⟨honce, fun l hl => ?_, hbacked, fun q hq byzantine hfew => (hbacked q hq).honest hfew⟩
    have hnodup : ((answered respond rootCid queryHash l).map Holder.nodeId).Nodup :=
      (List.filter_sublist.map Holder.nodeId).nodup (honce l hl)
    rw [List.toFinset_card_of_nodup hnodup, List.length_map]
    exact hanswers l hl

/-! ### A holder that two directories announce -/

def rootX : JsString := js "truyn:ctx:" ++ someDigests.sha256 (manifestText [refX])

/-- An offer for a partition, of which there are `count`. -/
def offerOf (nodeId : NodeId) (score : ℚ) (index count blockCount : ℤ) : Offer :=
  ⟨nodeId, nodeId, some ⟨some rootX, some nodeId, some count, some index, some blockCount, none⟩,
    score⟩

/-- The block with the holder's receipt. -/
def candidateX (h : Holder) : Option Candidate :=
  (createDistributedHolderReceipt someDigests ⟨h.nodeId, h.publicKey⟩ rootX (js "q") refX.id refX.cid
    (js "x") none h.partitionIndex h.partitionCount (some .null)).toOption.map
      (candidateOf refX.id refX.cid (js "x") none (some .null))

/-- An answer to the question `q`, with the block if the partition has it. -/
def respondX (h : Holder) : Option Response :=
  some ⟨none, some rootX, some (js "q"), some h.nodeId, some h.partitionIndex,
    some h.partitionCount, if h.partitionIndex + 1 = h.partitionCount then (candidateX h).toList else []⟩

def threeReads : Coordinator := ⟨3, 2, by decide, by decide, by decide⟩

/-- The first candidate. -/
def firstCid (candidates : List QuorumCandidate) : Option (List Pick) :=
  some (candidates.take 1 |>.map fun q => .item q.cid)

def askX (offers : List Offer) : Except JsString Retrieval :=
  retrieve someDigests respondX (fun _ => 1) threeReads (manifestOf [refX]) rootX (js "q") offers
    firstCid 1

/-- Two holders of the only partition. -/
def twoOffers : List Offer := [offerOf (js "h") 2 0 1 1, offerOf (js "g") 1 0 1 1]

/-- Two holders of the second partition; the first has one holder, in two offers. -/
def twiceOffers : List Offer :=
  [offerOf (js "h") 2 0 2 0, offerOf (js "h") 1 0 2 0, offerOf (js "h") 2 1 2 1,
    offerOf (js "g") 1 1 2 1]

theorem respondX_eq : respondX = fun h => some ⟨none, some rootX, some (js "q"), some h.nodeId,
    some h.partitionIndex, some h.partitionCount,
    if h.partitionIndex + 1 = h.partitionCount then
      ((createDistributedHolderReceipt someDigests ⟨h.nodeId, h.publicKey⟩ rootX (js "q") refX.id
        refX.cid (js "x") none h.partitionIndex h.partitionCount (some .null)).toOption.map
          (candidateOf refX.id refX.cid (js "x") none (some .null))).toList
    else []⟩ :=
  funext fun h => by rw [respondX, candidateX]

theorem distinct_quorums_two : ∃ r, askX twoOffers = .ok r ∧
    ∃ coverage, groupPlacementCoverage someDigests (manifestOf [refX]) twoOffers rootX = .ok coverage ∧
      (DistinctQuorums someDigests threeReads (manifestOf [refX]) rootX (js "q") respondX r ↔
        ∀ k < coverage.partitionCount, ReadsDistinct someDigests threeReads (coverage.at k)) := by
  have hok : (askX twoOffers).isOk = true := by
    rw [askX, respondX_eq, twoOffers, offerOf, offerOf, rootX, manifestOf]
    decide +kernel
  cases h : askX twoOffers with
  | error reason =>
    rw [h] at hok
    cases hok
  | ok r =>
    unfold askX at h
    obtain ⟨coverage, hcoverage, -, -, hiff⟩ := distinct_quorums h
    exact ⟨r, rfl, coverage, hcoverage, hiff⟩

/-- A partition of which one holder was asked twice, and answered without a quorum. -/
def askedTwice (l : List Holder) : Bool :=
  !decide (l.map Holder.nodeId).Nodup && decide (((answered respondX rootX (js "q") l).map
    Holder.nodeId).toFinset.card < threeReads.quorum)

/-- A retrieval succeeds, though a partition was answered by one holder that was asked twice. -/
theorem one_holder_twice : ∃ r, askX twiceOffers = .ok r ∧ ∃ l ∈ r.replicas,
    ¬(l.map Holder.nodeId).Nodup ∧
    ((answered respondX rootX (js "q") l).map Holder.nodeId).toFinset.card < threeReads.quorum := by
  have hasked : askedTwice = _ := funext askedTwice.eq_1
  have hok : (askX twiceOffers).toOption.any (fun r => r.replicas.any askedTwice) = true := by
    rw [askX, hasked, respondX_eq, twiceOffers, offerOf, offerOf, offerOf, offerOf, rootX,
      manifestOf]
    decide +kernel
  cases h : askX twiceOffers with
  | error reason =>
    rw [h] at hok
    cases hok
  | ok r =>
    rw [h, Except.toOption, Option.any_some, List.any_eq_true] at hok
    obtain ⟨l, hl, hbad⟩ := hok
    rw [askedTwice, Bool.and_eq_true, Bool.not_eq_true', decide_eq_false_iff_not,
      decide_eq_true_iff] at hbad
    exact ⟨r, rfl, l, hl, hbad⟩

end Truyn.Context
