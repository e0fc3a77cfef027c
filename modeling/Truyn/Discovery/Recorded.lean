import Truyn.Discovery.PeerRecords

/-! discovery:recorded | the records of routing members stay, and those of others are few

    Every member of the routing table has its record, also where records are evicted or a call throws.
    `Sized` bounds the records after each call; `restore` trims only at its end, so that it
    holds where no comparison throws (`Comparable`). -/

namespace Truyn.Discovery
open Dht (Platform plain)
open Trust (Value)

variable {P : Platform} {c : Config} {s : Peers}

/-- `records.size <= routing.size() + maxCachedRecords + 32` -/
def Sized (c : Config) (s : Peers) : Prop :=
  s.records.length ≤ s.routing.members.length + c.maxCachedRecords + recordTrimSlack

/-- A record that verifies has a sequence that compares with that of the record that is held. -/
def Comparable (P : Platform) (s : Peers) : Turn → Prop
  | .restored g now allowExpired =>
    (verifyPeerRecord P s.signatures g.record now allowExpired).isOk →
      older P (Maps.get s.records (nodeIdOf g.record)) g.record ≠ none
  | _ => True

/-! ### The routing table -/

section Table

variable {H : Dht.Host} {d : Dht.Config} {t : Dht.Table}

theorem nodup_addMember {members : List JsString} (h : members.Nodup) (nodeId : JsString) :
    (Dht.addMember members nodeId).Nodup := by
  unfold Dht.addMember
  split
  · exact h
  · next hnot =>
    refine List.nodup_append.mpr ⟨h, List.nodup_singleton _, ?_⟩
    rintro x hx y hy rfl
    exact hnot (List.mem_singleton.mp hy ▸ hx)

/-- An upsert adds at most its own peer. -/
theorem members_upsert (hnodup : t.members.Nodup) (peer : Dht.Peer) (now : JsString) :
    (t.upsert H d peer now).1.members.Nodup ∧
      ∀ id ∈ (t.upsert H d peer now).1.members, id = peer.nodeId ∨ id ∈ t.members := by
  rcases Dht.upsert_cases (H := H) (c := d) t peer now with ⟨heq, -⟩ | ⟨index, -, -, hups⟩
  · rw [heq]
    exact ⟨hnodup, fun id hid => .inr hid⟩
  · have hadded := nodup_addMember hnodup peer.nodeId
    generalize (t.upsert H d peer now).1 = after at hups ⊢
    cases hups with
    | fits hle => exact ⟨hadded, fun id hid => Dht.mem_addMember.mp hid⟩
    | full hb hlt =>
      exact ⟨hadded.filter _, fun id hid => Dht.mem_addMember.mp (List.mem_of_mem_filter hid)⟩

/-- A removal takes at most its own id. -/
theorem members_remove (hnodup : t.members.Nodup) (nodeId : JsString) :
    (t.remove H d nodeId).1.members.Sublist t.members ∧
      t.members.length ≤ (t.remove H d nodeId).1.members.length + 1 := by
  unfold Dht.Table.remove
  split
  · exact ⟨List.Sublist.refl _, Nat.le_succ _⟩
  · dsimp only
    split
    · refine ⟨List.filter_sublist, ?_⟩
      have herase : t.members.filter (fun id => id ≠ nodeId) = t.members.erase nodeId := by
        rw [hnodup.erase_eq_filter]
        refine List.filter_congr fun id _ => ?_
        by_cases hid : id = nodeId <;> simp [hid]
      rw [herase, List.length_erase]
      split <;> omega
    · exact ⟨List.Sublist.refl _, Nat.le_succ _⟩

theorem notMem_remove {age : JsString → ℕ} (h : Dht.Placed H d age t) (nodeId : JsString) :
    nodeId ∉ (t.remove H d nodeId).1.members := by
  intro hmem
  obtain ⟨index, item, hitem, rfl⟩ := ((h.remove nodeId).members nodeId).mp hmem
  have hplace := (h.remove item.nodeId).place index item hitem
  simp [Dht.Table.remove, hplace] at hitem

/-- The removals of `sweep`, one after the other. -/
theorem removals (gone : List (JsString × Value)) (hplaced : ∃ age, Dht.Placed H d age t)
    (hnodup : t.members.Nodup) {after : Dht.Table}
    (hafter : gone.foldl (fun t r => (t.remove H d r.1).1) t = after) :
    (∃ age, Dht.Placed H d age after) ∧ after.members.Sublist t.members ∧
      (∀ r ∈ gone, r.1 ∉ after.members) ∧
      t.members.length ≤ after.members.length + gone.length := by
  induction gone generalizing t with
  | nil =>
    subst hafter
    exact ⟨hplaced, List.Sublist.refl _, fun r hr => (by cases hr), Nat.le_refl _⟩
  | cons r gone ih =>
    obtain ⟨age, hplaced⟩ := hplaced
    obtain ⟨hsub, hlength⟩ := members_remove (H := H) (d := d) hnodup r.1
    obtain ⟨hplaced', hsub', hgone, hlength'⟩ :=
      ih ⟨_, hplaced.remove r.1⟩ (hnodup.sublist hsub) hafter
    refine ⟨hplaced', hsub'.trans hsub, fun q hq => ?_, ?_⟩
    · rcases List.mem_cons.mp hq with rfl | hq
      · exact fun hmem => notMem_remove hplaced _ (hsub'.subset hmem)
      · exact hgone q hq
    · rw [List.length_cons]
      omega

end Table

/-! ### The eviction -/

theorem evict_keeps {has : JsString → Bool} {r : JsString × Value} (hr : has r.1 = true)
    (excess : ℕ) (records : List (JsString × Value)) (hmem : r ∈ records) :
    r ∈ evict has excess records := by
  induction records generalizing excess with
  | nil => cases hmem
  | cons q records ih =>
    cases excess with
    | zero => simpa [evict] using hmem
    | succ excess =>
      rw [evict]
      rcases List.mem_cons.mp hmem with rfl | hmem
      · rw [if_pos hr]
        exact List.mem_cons_self
      · split
        · exact List.mem_cons_of_mem _ (ih _ hmem)
        · exact ih _ hmem

/-- As many go as are too many, if there are so many that may go. -/
theorem length_evict (has : JsString → Bool) (excess : ℕ) (records : List (JsString × Value)) :
    (evict has excess records).length + min excess (records.countP fun r => !has r.1) =
      records.length := by
  induction records generalizing excess with
  | nil => cases excess <;> rfl
  | cons r records ih =>
    cases excess with
    | zero => simp [evict]
    | succ excess =>
      rw [evict]
      by_cases hr : has r.1 = true
      · have hrest := ih (excess + 1)
        simp only [hr, if_true, List.length_cons, List.countP_cons, Bool.not_true,
          Bool.false_eq_true, if_false, Nat.add_zero]
        omega
      · have hrest := ih excess
        simp only [hr, if_false, List.length_cons, List.countP_cons, Bool.not_false,
          if_true, Bool.false_eq_true]
        omega

@[simp] theorem trim_routing : (s.trim c).routing = s.routing := by
  unfold Peers.trim
  dsimp only
  split <;> rfl

/-- Trimming leaves the record of a routing member where it is. -/
theorem get_trim (hnodup : (s.records.map Prod.fst).Nodup) {id : JsString}
    (hid : s.routing.has id = true) : Maps.get (s.trim c).records id = Maps.get s.records id := by
  unfold Peers.trim
  dsimp only
  split
  · rfl
  · cases hget : Maps.get s.records id with
    | some r =>
      have hkept := evict_keeps hid (s.records.length -
        (s.routing.members.length + c.maxCachedRecords)) _ (Maps.mem_of_get hget)
      exact Maps.get_of_mem (hnodup.sublist ((evict_sublist _ _ _).map _)) hkept
    | none =>
      by_contra hsome
      obtain ⟨r, hr⟩ := Option.ne_none_iff_exists'.mp hsome
      rw [get_of_sublist hnodup (evict_sublist _ _ _) hr] at hget
      cases hget

/-- There are no more records of members than members. -/
theorem countP_has (hnodup : (s.records.map Prod.fst).Nodup) :
    s.records.countP (fun r => s.routing.has r.1) ≤ s.routing.members.length := by
  have hsub : ((s.records.filter fun r => s.routing.has r.1).map Prod.fst).Subperm
      s.routing.members := by
    refine List.subperm_of_subset (Maps.nodup_filter hnodup) fun id hid => ?_
    obtain ⟨r, hr, rfl⟩ := List.mem_map.mp hid
    simpa [Dht.Table.has] using (List.mem_filter.mp hr).2
  have hle := hsub.length_le
  rwa [List.length_map, ← List.countP_eq_length_filter] at hle

theorem sized_trim (hnodup : (s.records.map Prod.fst).Nodup) : Sized c (s.trim c) := by
  rw [Sized, trim_routing]
  unfold Peers.trim
  dsimp only
  split
  · next hle => exact hle
  · next hmany =>
    have hmembers := countP_has (s := s) hnodup
    have hsplit := s.records.length_eq_countP_add_countP fun r => s.routing.has r.1
    have hlength := length_evict s.routing.has (s.records.length -
      (s.routing.members.length + c.maxCachedRecords)) s.records
    simp only [Bool.not_eq_true] at hsplit
    have hothers : (s.records.countP fun r => !s.routing.has r.1) =
        s.records.countP fun r => decide (s.routing.has r.1 = false) := by
      refine List.countP_congr fun r _ => ?_
      simp
    show (evict s.routing.has _ s.records).length ≤ _
    omega

/-! ### Turns -/

/-- No record is there twice, the routing table is as it should be, and each of its members has its
    record. -/
structure Recorded (P : Platform) (c : Config) (s : Peers) : Prop where
  held : Held s
  placed : ∃ age, Dht.Placed P.toHost c.toConfig age s.routing
  nodup : s.routing.members.Nodup
  recorded : ∀ id ∈ s.routing.members, id ∈ s.records.map Prod.fst

theorem Recorded.new : Recorded P c .new where
  held := ⟨.nil, fun r hr => by cases hr⟩
  placed := ⟨fun _ => 0, Dht.placed_new⟩
  nodup := .nil
  recorded := fun id hid => by cases hid

theorem Recorded.congr {t : Peers} (h : Recorded P c s) (hrecords : t.records = s.records)
    (hrouting : t.routing = s.routing) : Recorded P c t where
  held := h.held.sublist (by rw [hrecords])
  placed := hrouting ▸ h.placed
  nodup := hrouting ▸ h.nodup
  recorded := by
    rw [hrouting, hrecords]
    exact h.recorded

theorem Recorded.trim (h : Recorded P c s) : Recorded P c (s.trim c) where
  held := h.held.sublist trim_sublist
  placed := trim_routing (s := s) ▸ h.placed
  nodup := trim_routing (s := s) ▸ h.nodup
  recorded := by
    rw [trim_routing]
    intro id hid
    obtain ⟨r, hr, rfl⟩ := List.mem_map.mp (h.recorded id hid)
    have hget := Maps.get_of_mem h.held.1 hr
    rw [← get_trim (c := c) h.held.1 (by simpa [Dht.Table.has] using hid)] at hget
    exact List.mem_map.mpr ⟨_, Maps.mem_of_get hget, rfl⟩

/-- A record is written, and its node upserted. -/
theorem Recorded.write {t : Peers} {peer : Dht.Peer} {now : JsString} (h : Recorded P c s)
    (hheld : Held t) (hkeys : ∀ id, id = peer.nodeId ∨ id ∈ s.records.map Prod.fst →
      id ∈ t.records.map Prod.fst)
    (hrouting : t.routing = (s.routing.upsert P.toHost c.toConfig peer now).1) : Recorded P c t where
  held := hheld
  placed := by
    obtain ⟨age, hplaced⟩ := h.placed
    exact ⟨_, hrouting ▸ hplaced.upsert peer now⟩
  nodup := hrouting ▸ (members_upsert h.nodup peer now).1
  recorded := by
    rw [hrouting]
    intro id hid
    exact hkeys id (((members_upsert h.nodup peer now).2 id hid).imp_right (h.recorded id))

/-- What `ingest` does: nothing, or a record is moved to the end, its node upserted, and the cache
    trimmed. -/
theorem ingest_cases (record : Value) (now : ℤ) (allowExpired : Bool) (seenAt : JsString) :
    (∃ signatures, (s.ingest P c record now allowExpired seenAt).1 =
        { s with signatures := signatures } ∧
      ((s.ingest P c record now allowExpired seenAt).2 = .threw →
        (verifyPeerRecord P s.signatures record now allowExpired).isOk ∧
          older P (Maps.get s.records (nodeIdOf record)) record = none)) ∨
    ∃ (t : Peers) (kept : Value), (s.ingest P c record now allowExpired seenAt).1 = t.trim c ∧
      (s.ingest P c record now allowExpired seenAt).2 ≠ .threw ∧
      (kept = record ∨ Maps.get s.records (nodeIdOf record) = some kept) ∧
      t.records = Maps.delete (nodeIdOf record) s.records ++ [(nodeIdOf record, kept)] ∧
      t.routing = (s.routing.upsert P.toHost c.toConfig (contact record seenAt) seenAt).1 := by
  unfold Peers.ingest
  cases hv : verifyPeerRecord P s.signatures record now allowExpired with
  | error reason => exact .inl ⟨s.signatures, rfl, fun h => by cases h⟩
  | ok signatures =>
    dsimp only
    generalize hexisting : Maps.get s.records (nodeIdOf record) = existing
    cases holder : older P existing record with
    | none => exact .inl ⟨signatures, rfl, fun _ => ⟨rfl, rfl⟩⟩
    | some before =>
      cases before with
      | true => exact .inl ⟨signatures, rfl, fun h => by cases h⟩
      | false =>
        dsimp only
        split
        · exact .inl ⟨signatures, rfl, fun h => by cases h⟩
        · refine .inr ⟨_, _, rfl, fun h => (by cases h), ?_, rfl, rfl⟩
          cases existing with
          | none => exact .inl (by simp)
          | some held =>
            split
            · exact .inl rfl
            · exact .inr rfl

theorem keys_moved {nodeId id : JsString} {kept : Value}
    (h : id = nodeId ∨ id ∈ s.records.map Prod.fst) :
    id ∈ (Maps.delete nodeId s.records ++ [(nodeId, kept)]).map Prod.fst := by
  rw [List.map_append, List.mem_append]
  by_cases hid : id = nodeId
  · exact .inr (by simp [hid])
  · obtain ⟨r, hr, rfl⟩ := List.mem_map.mp (h.resolve_left hid)
    exact .inl (List.mem_map_of_mem (List.mem_filter.mpr ⟨hr, by simpa using hid⟩))

theorem Recorded.ingest (h : Recorded P c s) (record : Value) (now : ℤ) (allowExpired : Bool)
    (seenAt : JsString) : Recorded P c (s.ingest P c record now allowExpired seenAt).1 := by
  rcases ingest_cases (P := P) (c := c) (s := s) record now allowExpired seenAt with
    ⟨signatures, heq, -⟩ | ⟨t, kept, heq, -, hkept, hrecords, hrouting⟩
  · rw [heq]
    exact h.congr rfl rfl
  · rw [heq]
    have hid : nodeIdOf kept = nodeIdOf record :=
      hkept.elim (fun e => by rw [e]) (nodeId_of_get h.held)
    have hheld : Held t := by
      rw [Held, hrecords]
      exact h.held.moved hid
    refine (h.write hheld (fun id hid => ?_) hrouting).trim
    rw [hrecords]
    exact keys_moved hid

theorem Recorded.hint (h : Recorded P c s) (record : Value) (seenAt : JsString) :
    Recorded P c (s.hint P c record seenAt) := by
  refine h.write ⟨Maps.nodup_set h.held.1, fun r hr => ?_⟩ (fun id hid => ?_) rfl
  · rcases Maps.mem_set hr with rfl | hr
    · rfl
    · exact h.held.2 r hr
  · show id ∈ (Maps.set (nodeIdOf record) record s.records).map Prod.fst
    have hnode : id = nodeIdOf record ∨ id ∈ s.records.map Prod.fst := hid
    rw [Maps.keys_set]
    split
    · next hin =>
      rcases hnode with rfl | hid
      · exact hin
      · exact hid
    · rw [List.mem_append, List.mem_singleton]
      exact hnode.symm

theorem Recorded.restoreOne (h : Recorded P c s) (g : Given) (now : ℤ) (allowExpired : Bool) :
    Recorded P c (s.restoreOne P c g now allowExpired).1 := by
  have hone := h.ingest g.record now allowExpired g.seenAt
  unfold Peers.restoreOne
  generalize s.ingest P c g.record now allowExpired g.seenAt = result at hone ⊢
  obtain ⟨t, outcome⟩ := result
  cases outcome with
  | refused reason =>
    dsimp only
    cases staleHint P t.signatures g with
    | none => exact hone
    | some signatures =>
      have hkept : Recorded P c { t with signatures := signatures } := hone.congr rfl rfl
      exact hkept.hint g.record g.seenAt
  | accepted updated unchanged novel => exact hone
  | threw => exact hone

/-- The expired records go, and their nodes with them. -/
theorem Recorded.sweep (h : Recorded P c s) (now : ℤ) :
    Recorded P c (s.sweep P c now).1 ∧ (Sized c s → Sized c (s.sweep P c now).1) := by
  obtain ⟨hplaced, hsub, hgone, hlength⟩ := removals (H := P.toHost) (d := c.toConfig)
    (s.records.filter fun r => !leaseLive P r.2 now) h.placed h.nodup rfl
  refine ⟨⟨h.held.sublist List.filter_sublist, hplaced, h.nodup.sublist hsub, fun id hid => ?_⟩,
    fun hsized => ?_⟩
  · obtain ⟨r, hr, rfl⟩ := List.mem_map.mp (h.recorded id (hsub.subset hid))
    refine List.mem_map_of_mem (List.mem_filter.mpr ⟨hr, ?_⟩)
    by_contra hdead
    exact hgone r (List.mem_filter.mpr ⟨hr, by simpa using hdead⟩) hid
  · have hsplit := List.length_eq_length_filter_add (l := s.records) fun r => leaseLive P r.2 now
    rw [Sized] at hsized ⊢
    show (s.records.filter fun r => leaseLive P r.2 now).length ≤ _
    simp only [Peers.sweep]
    omega

theorem Recorded.turn (h : Recorded P c s) (t : Turn) : Recorded P c (s.turn P c t) := by
  cases t with
  | single one =>
    cases one with
    | ingest record now allowExpired seenAt => exact h.ingest record now allowExpired seenAt
    | sweep now => exact (h.sweep now).1
    | verify record now allowExpired =>
      rw [Peers.turn, Peers.single, Peers.verified]
      split
      · exact h.congr rfl rfl
      · exact h
  | restored g now allowExpired => exact h.restoreOne g now allowExpired
  | trim => exact h.trim

/-! ### Calls -/

theorem Recorded.turns (h : Recorded P c s) (turns : List Turn) :
    Recorded P c (turns.foldl (Peers.turn P c) s) := by
  induction turns generalizing s with
  | nil => exact h
  | cons t turns ih => exact ih (h.turn t)

theorem Recorded.apply (h : Recorded P c s) (one : Call) : Recorded P c (s.apply P c one) := by
  cases one with
  | single one => exact h.turn (.single one)
  | restore given now allowExpired =>
    have hturns := h.turns (restoreTurns P c now allowExpired s given)
    rwa [restore_turns given now allowExpired 0] at hturns

theorem Recorded.sized_ingest (h : Recorded P c s) (hsized : Sized c s) (record : Value) (now : ℤ)
    (allowExpired : Bool) (seenAt : JsString) :
    Sized c (s.ingest P c record now allowExpired seenAt).1 := by
  rcases ingest_cases (P := P) (c := c) (s := s) record now allowExpired seenAt with
    ⟨signatures, heq, -⟩ | ⟨t, kept, heq, -, hkept, hrecords, hrouting⟩
  · rw [heq]
    exact hsized
  · rw [heq]
    have hid : nodeIdOf kept = nodeIdOf record :=
      hkept.elim (fun e => by rw [e]) (nodeId_of_get h.held)
    refine sized_trim ?_
    rw [hrecords]
    exact (h.held.moved hid).1

theorem threw_of_restoreOne {t : Peers} {g : Given} {now : ℤ} {allowExpired : Bool}
    (h : s.restoreOne P c g now allowExpired = (t, .threw)) :
    (verifyPeerRecord P s.signatures g.record now allowExpired).isOk ∧
      older P (Maps.get s.records (nodeIdOf g.record)) g.record = none := by
  have hcases := ingest_cases (P := P) (c := c) (s := s) g.record now allowExpired g.seenAt
  unfold Peers.restoreOne at h
  generalize s.ingest P c g.record now allowExpired g.seenAt = result at h hcases
  obtain ⟨u, outcome⟩ := result
  cases outcome with
  | refused reason =>
    dsimp only at h
    cases hstale : staleHint P u.signatures g with
    | none => simp [hstale] at h
    | some signatures => simp [hstale] at h
  | accepted updated unchanged novel => simp at h
  | threw =>
    rcases hcases with ⟨-, -, hwhy⟩ | ⟨-, -, -, hnot, -⟩
    · exact hwhy rfl
    · exact absurd rfl hnot

/-- By induction on the records: where none throws, `restore` comes to its end, and trims. -/
theorem Recorded.sized_restore (h : Recorded P c s) (given : List Given) (now : ℤ)
    (allowExpired : Bool) (accepted : ℕ)
    (hcomparable : Runs.Along (Peers.turn P c) (Comparable P) s
      (restoreTurns P c now allowExpired s given)) :
    Sized c (s.restore P c now allowExpired accepted given).1 := by
  induction given generalizing s accepted with
  | nil => exact sized_trim h.held.1
  | cons g given ih =>
    have hone := h.restoreOne g now allowExpired
    rw [Peers.restore]
    rw [restoreTurns] at hcomparable
    generalize hresult : s.restoreOne P c g now allowExpired = result at hone hcomparable ⊢
    obtain ⟨t, outcome⟩ := result
    have hturn : s.turn P c (.restored g now allowExpired) = t := by rw [Peers.turn, hresult]
    cases outcome with
    | threw =>
      obtain ⟨hverified, hthrows⟩ := threw_of_restoreOne hresult
      exact absurd hthrows (hcomparable.1 hverified)
    | refused reason => exact ih hone _ (hturn ▸ hcomparable.2)
    | accepted updated unchanged novel => exact ih hone _ (hturn ▸ hcomparable.2)

theorem Recorded.sized (h : Recorded P c s) (hsized : Sized c s) (one : Call)
    (hcomparable : Runs.Along (Peers.turn P c) (Comparable P) s (one.turns P c s)) :
    Sized c (s.apply P c one) := by
  cases one with
  | restore given now allowExpired => exact h.sized_restore given now allowExpired 0 hcomparable
  | single one =>
    cases one with
    | ingest record now allowExpired seenAt =>
      exact h.sized_ingest hsized record now allowExpired seenAt
    | sweep now => exact (h.sweep now).2 hsized
    | verify record now allowExpired =>
      show Sized c (s.verified P record now allowExpired)
      rw [Peers.verified]
      split
      · exact hsized
      · exact hsized

theorem sized_run (calls : List Call) (h : Recorded P c s) (hsized : Sized c s)
    (hcomparable : Runs.Along (Peers.turn P c) (Comparable P) s (turnsOf P c s calls)) :
    Sized c (calls.foldl (Peers.apply P c) s) := by
  induction calls generalizing s with
  | nil => exact hsized
  | cons one calls ih =>
    rw [turnsOf, Runs.Along.append] at hcomparable
    obtain ⟨hone, hrest⟩ := hcomparable
    have happly : (one.turns P c s).foldl (Peers.turn P c) s = s.apply P c one := by
      cases one with
      | single one => rfl
      | restore given now allowExpired => exact restore_turns given now allowExpired 0
    rw [happly] at hrest
    exact ih (h.apply one) (h.sized hsized one hone) hrest

theorem turnsOf_append (first rest : List Call) : turnsOf P c s (first ++ rest) =
    turnsOf P c s first ++ turnsOf P c (first.foldl (Peers.apply P c) s) rest := by
  induction first generalizing s with
  | nil => rfl
  | cons one first ih => simp [turnsOf, ih]

/-- After every turn each routing member has its record, and trimming leaves it where it is; and after
    calls that compare what compares, the records are as few as they should be. -/
theorem members_recorded (calls : List Call)
    (hcomparable : Runs.Along (Peers.turn P c) (Comparable P) .new (turnsOf P c .new calls)) :
    (∀ past, past <+: turnsOf P c .new calls →
      ∀ id, ((past.foldl (Peers.turn P c) .new).routing.has id = true →
        (Maps.get (past.foldl (Peers.turn P c) .new).records id).isSome ∧
        Maps.get ((past.foldl (Peers.turn P c) .new).trim c).records id =
          Maps.get (past.foldl (Peers.turn P c) .new).records id)) ∧
    ∀ first, first <+: calls → Sized c (first.foldl (Peers.apply P c) .new) := by
  constructor
  · intro past hpast id hid
    have hrecorded : Recorded P c (past.foldl (Peers.turn P c) .new) := Recorded.new.turns past
    refine ⟨?_, get_trim hrecorded.held.1 hid⟩
    obtain ⟨r, hr, rfl⟩ := List.mem_map.mp (hrecorded.recorded id (by simpa [Dht.Table.has] using hid))
    rw [Maps.get_of_mem hrecorded.held.1 hr]
    rfl
  · rintro first ⟨rest, rfl⟩
    rw [turnsOf_append, Runs.Along.append] at hcomparable
    have hnew : Sized c .new := Nat.zero_le _
    exact sized_run first Recorded.new hnew hcomparable.1

/-! ### A comparison that throws -/

/-- A signed record of the node whose id is this code unit. -/
def signedBy (unit : UInt16) (sequence : Value) (id expiresAt : JsString) : Value :=
  .object [(js "recordId", .string (js "truyn:peer:" ++ id)),
    (js "protocol", .string (js "truyn-peer-record-v1")), (js "nodeId", .string [unit]),
    (js "dhtId", .string [unit]), (js "endpoints", .array [.string (js "quic://a:1")]),
    (js "sequence", sequence), (js "expiresAt", .string expiresAt),
    (js "publicKey", .string [unit]), (js "signature", .string (js "s"))]

theorem smallNode_named : js "B" ≠ [] := by decide

/-- No record is cached but those of routing contacts, one for each bucket. -/
def smallNode : Config := ⟨⟨js "B", 1, smallNode_named, Nat.one_pos⟩, 0⟩

def noNumber : Value := .object [(js "toString", .null)]

/-- A's sequence is no number; 34 expired records are kept as hints; then A's next record throws. -/
def thrown : List Call :=
  [.restore (⟨signedBy 65 noNumber [] (js "90"), 10, js "t"⟩ ::
      ((List.range 34).map fun i =>
        ⟨signedBy (UInt16.ofNat (128 + i)) (.number 1) (js "1/5") (js "5"), 10, js "t"⟩) ++
      [⟨signedBy 65 (.number 2) (js "2/90") (js "90"), 10, js "t"⟩]) 10 false,
    .single (.ingest .null 10 false (js "t"))]

/-- 35 records, of which two are of routing contacts, also after the next `ingest`. -/
theorem not_sized_thrown :
    ((thrown.foldl (Peers.apply plain smallNode) .new).records.length,
      (thrown.foldl (Peers.apply plain smallNode) .new).routing.members.length) = (35, 2) ∧
    ¬Sized smallNode (thrown.foldl (Peers.apply plain smallNode) .new) := by
  have hcounts : ((thrown.foldl (Peers.apply plain smallNode) .new).records.length,
      (thrown.foldl (Peers.apply plain smallNode) .new).routing.members.length) = (35, 2) := by
    decide +kernel
  obtain ⟨hrecords, hmembers⟩ := Prod.mk.inj hcounts
  refine ⟨hcounts, ?_⟩
  rw [Sized, hrecords, hmembers]
  decide

/-- Two expired records of A, which compare, and then a live one. -/
theorem members_recorded_first :
    Sized nodeB (restoredFirst.foldl (Peers.apply plain nodeB) .new) := by
  refine (members_recorded restoredFirst ?_).2 restoredFirst (List.prefix_refl _)
  have hturns : turnsOf plain nodeB .new restoredFirst =
      [.restored ⟨signedByA 1 5, 10, js "t"⟩ 10 false, .restored ⟨signedByA 2 7, 10, js "t"⟩ 10 false,
        .trim, .single (.ingest (signedByA 3 90) 11 false (js "t")), .single (.sweep 20)] := rfl
  rw [hturns]
  refine ⟨fun _ hnone => ?_, fun _ hnone => ?_, trivial, trivial, trivial, trivial⟩
  · have hnew : older plain (Maps.get Peers.new.records (js "A")) (signedByA 1 5) = some false := rfl
    cases hnew.symm.trans hnone
  · have hless : older plain (some (signedByA 1 5)) (signedByA 2 7) = some false := rfl
    cases hless.symm.trans hnone

end Truyn.Discovery
