import Truyn.Context.ShardedStore

/-! context:shardedruns | sharded-semantic-index-store.js, every run of saves and loads

    What one step keeps (`step_sound`), what it does to the files (`step_extends`) and to a load
    (`step_answers`); a run is many of these. -/

namespace Truyn.ShardedStore

open Pools Checks

variable {O : Options} {s s' : State} {o : ℕ}

/-! ### The store as its calls leave it -/

structure Sound (O : Options) (s : State) : Prop where
  aligned : Aligned s (s.saves.tasks.map Task.work)
  saves : s.saves.Sound
  loads : s.loads.Sound
  own (c : ℕ) (l : List (ShardId × List Entry)) : s.saves.works c = some l →
    ∀ g ∈ l, ∀ e ∈ g.2, O.shardId e.cid = g.1
  asked (d : ℕ) (l : List (ShardId × List JsString)) : s.loads.works d = some l →
    ∀ g ∈ l, ∀ cid ∈ g.2, O.shardId cid = g.1
  outcomes (o : ℕ) (ok : Bool) : (s.saves.tasks.map Task.outcome)[o]? = some (some ok) →
    s.operations[o]? = some (.done ok)
  results : ∀ d ≥ s.loads.pools.length, s.results d = []

theorem sound_initial (files : ShardId → File) : Sound O { files := files } where
  aligned := ⟨Lanes.Queue.ordered_empty, rfl, rfl, fun _ _ _ _ h => by cases h⟩
  saves := Calls.sound_empty
  loads := Calls.sound_empty
  own _ _ h := by cases h
  asked _ _ h := by cases h
  outcomes _ _ h := by cases h
  results _ _ := rfl

/-- Writes begin, of a call or of a worker that goes on. -/
theorem Sound.begin (h : Sound O s) {saves : Calls (ShardId × List Entry)}
    {begun : List (ShardId × List Entry)} (hsaves : saves.Sound)
    (hwork : saves.tasks.map Task.work = s.saves.tasks.map Task.work ++ begun)
    (houtcome : saves.tasks.map Task.outcome =
      s.saves.tasks.map Task.outcome ++ begun.map fun _ => none)
    (hown : ∀ c l, saves.works c = some l → ∀ g ∈ l, ∀ e ∈ g.2, O.shardId e.cid = g.1) :
    Sound O (enqueueAll { s with saves := saves } begun) := by
  obtain ⟨hfiles, hs, hloads, hresults, hops⟩ := enqueueAll_frame { s with saves := saves } begun
  have haligned : Aligned { s with saves := saves } (s.saves.tasks.map Task.work) :=
    h.aligned.congr rfl rfl rfl
  refine ⟨?_, hs ▸ hsaves, ?_, hs ▸ hown, ?_, fun o ok ho => ?_, ?_⟩
  · rw [hs, hwork]
    exact haligned.enqueueAll begun
  · rw [hloads]
    exact h.loads
  · rw [hloads]
    exact h.asked
  · rw [hs, houtcome] at ho
    refine hops o _ (h.outcomes o ok ?_)
    by_cases hlt : o < (s.saves.tasks.map Task.outcome).length
    · rwa [List.getElem?_append_left hlt] at ho
    · rw [List.getElem?_append_right (Nat.le_of_not_lt hlt), List.getElem?_map] at ho
      obtain ⟨_, -, hnone⟩ := Option.map_eq_some_iff.mp ho
      cases hnone
  · rw [hloads, hresults]
    exact h.results

variable {entries blockCids raw : Json} {cids : List JsString}

theorem saveVectors_cases (h : step O s (.saveVectors entries) = some s') : s' = s ∨
    ∃ normalized, normalizeVectorEntries entries = .ok normalized ∧ s' = enqueueAll
      { s with saves := s.saves.call O.ioConcurrency (groupEntries O normalized) }
      ((groupEntries O normalized).take O.ioConcurrency) := by
  simp only [step, saveVectors, Option.some.injEq] at h
  cases hnormalized : normalizeVectorEntries entries with
  | error reason =>
    rw [hnormalized] at h
    exact .inl h.symm
  | ok normalized =>
    rw [hnormalized] at h
    exact .inr ⟨normalized, rfl, h.symm⟩

theorem loadVectors_cases (h : step O s (.loadVectors blockCids) = some s') : s' = s ∨
    ∃ cids, normalizeBlockCids blockCids = .ok cids ∧
      s' = { s with loads := s.loads.call O.ioConcurrency (groupCids O cids) } := by
  simp only [step, loadVectors, Option.some.injEq] at h
  cases hcids : normalizeBlockCids blockCids with
  | error reason =>
    rw [hcids] at h
    exact .inl h.symm
  | ok cids =>
    rw [hcids] at h
    exact .inr ⟨cids, rfl, h.symm⟩

theorem groupEntries_own {entries : List Entry} :
    ∀ g ∈ groupEntries O entries, ∀ e ∈ g.2, O.shardId e.cid = g.1 := by
  intro g hg e he
  obtain ⟨e', -, heq⟩ := List.mem_map.mp (mem_collected hg he)
  obtain ⟨hid, rfl⟩ := Prod.mk.inj heq
  exact hid

theorem groupCids_own :
    ∀ g ∈ groupCids O cids, ∀ cid ∈ g.2, O.shardId cid = g.1 := by
  intro g hg cid hcid
  obtain ⟨cid', -, heq⟩ := List.mem_map.mp (mem_collected hg hcid)
  obtain ⟨hid, rfl⟩ := Prod.mk.inj heq
  exact hid

theorem Sound.saveVectors (h : Sound O s) (hstep : step O s (.saveVectors entries) = some s') :
    Sound O s' := by
  rcases saveVectors_cases hstep with rfl | ⟨normalized, -, rfl⟩
  · exact h
  · refine h.begin (h.saves.call _ _) (Calls.call_work ..) (Calls.call_outcome ..) fun c l hl => ?_
    rw [Calls.works_call] at hl
    split at hl
    · cases hl
      exact groupEntries_own
    · exact h.own c l hl

theorem Sound.loadVectors (h : Sound O s) (hstep : step O s (.loadVectors blockCids) = some s') :
    Sound O s' := by
  rcases loadVectors_cases hstep with rfl | ⟨cids, -, rfl⟩
  · exact h
  · refine ⟨h.aligned.congr rfl rfl rfl, h.saves, h.loads.call _ _, h.own, fun d l hl => ?_,
      h.outcomes, fun d hd => h.results d ?_⟩
    · rw [Calls.works_call] at hl
      split at hl
      · cases hl
        exact groupCids_own
      · exact h.asked d l hl
    · simp only [Calls.call, List.length_append, List.length_singleton] at hd
      omega

/-- A write goes on, and what has been done stays done. -/
theorem Sound.of_write (h : Sound O s) (haligned : Aligned s' (s.saves.tasks.map Task.work))
    (hsaves : s'.saves = s.saves) (hloads : s'.loads = s.loads) (hresults : s'.results = s.results)
    (hops : ∀ (o : ℕ) (ok : Bool), s.operations[o]? = some (Operation.done ok) →
      s'.operations[o]? = some (Operation.done ok)) : Sound O s' where
  aligned := hsaves ▸ haligned
  saves := hsaves ▸ h.saves
  loads := hloads ▸ h.loads
  own := hsaves ▸ h.own
  asked := hloads ▸ h.asked
  outcomes o ok ho := hops o ok (h.outcomes o ok (hsaves ▸ ho))
  results := by
    rw [hloads, hresults]
    exact h.results

variable {r c : ℕ} {ok : Bool} {ev : Event} {evs : List Event} {e : Lanes.Entry ShardId}

theorem done_set {op op' : Operation} {i : ℕ} (hop : s.operations[o]? = some op)
    (hnot : ∀ ok, op ≠ .done ok) (hi : s.operations[i]? = some (.done ok)) :
    (s.operations.set o op')[i]? = some (.done ok) := by
  have hne : o ≠ i := by
    rintro rfl
    rw [hop] at hi
    exact hnot ok (Option.some.inj hi)
  rw [List.getElem?_set_ne hne, hi]

theorem Sound.readShard (h : Sound O s) (hstep : readShard s o ok = some s') :
    Sound O s' := by
  have haligned := h.aligned.readShard hstep
  obtain ⟨e, t, -, -, hop, -, hcase⟩ := readShard_cases hstep
  have hpending : ∀ ok, Operation.pending ≠ .done ok := fun _ hne => by cases hne
  have hfinished : ∀ ok', finish s o ok' = some s' → Sound O s' := fun ok' hfinish => by
    obtain ⟨q, -, rfl⟩ := Option.map_eq_some_iff.mp hfinish
    exact h.of_write haligned rfl rfl rfl fun _ _ => done_set hop hpending
  rcases hcase with hfinish | ⟨_, _, _, -, -, ⟨-, hfinish⟩ | ⟨-, rfl⟩⟩
  · exact hfinished _ hfinish
  · exact hfinished _ hfinish
  · exact h.of_write haligned rfl rfl rfl fun _ _ => done_set hop hpending

theorem Sound.writeShard (h : Sound O s) (hstep : writeShard s o ok = some s') :
    Sound O s' := by
  have haligned := h.aligned.writeShard hstep
  obtain ⟨e, shard, -, -, hop, q, -, rfl⟩ := writeShard_cases hstep
  exact h.of_write haligned rfl rfl rfl fun _ _ =>
    done_set hop fun _ hne => by cases hne

theorem release_cases (h : release s o = some s') : ∃ e ok t, s.shardFlights.entries[o]? = some e ∧
    e.phase = .settled ∧ s.operations[o]? = some (.done ok) ∧ s.saves.tasks[o]? = some t ∧
    t.outcome = none ∧
    s' = { s with shardFlights := s.shardFlights.forget o, saves := s.saves.settle o ok } := by
  unfold release at h
  split at h
  · next he hop ht =>
    cases h
    exact ⟨_, _, _, he, rfl, hop, ht, rfl, rfl⟩
  · cases h

theorem Sound.release (h : Sound O s) (hstep : release s o = some s') : Sound O s' := by
  obtain ⟨e, ok, t, he, hsettled, hop, ht, hopen, rfl⟩ := release_cases hstep
  have hsame : (s.saves.settle o ok).tasks.map Task.work = s.saves.tasks.map Task.work :=
    Calls.map_modify (g := fun x => { x with outcome := some ok }) fun _ => rfl
  have hqueue := h.aligned.queue.forget he (by rw [hsettled]; rfl)
  refine ⟨?_, h.saves.settle ht hopen, h.loads, h.own, h.asked, fun i ok' hi => ?_, h.results⟩
  · rw [hsame]
    refine ⟨hqueue, ?_, h.aligned.operations, ?_⟩
    · rw [Lanes.Queue.forget_entries]
      exact h.aligned.flights
    · rw [Lanes.Queue.forget_entries]
      exact h.aligned.good
  · rw [List.getElem?_map, Calls.settle, List.getElem?_modify] at hi
    by_cases hoi : o = i
    · subst hoi
      rw [ht] at hi
      simp only [if_pos, Option.map_eq_map, Option.map_some, Option.some.injEq] at hi
      rw [← hi]
      exact hop
    · simp only [if_neg hoi, Option.map_eq_map, Option.map_id'] at hi
      exact h.outcomes i ok' (by rw [List.getElem?_map, hi])

theorem saveGoesOn_cases (h : saveGoesOn s o = some s') : ∃ saves begun,
    s.saves.resume o = some (saves, begun) ∧
    s' = enqueueAll { s with saves := saves } begun.toList := by
  obtain ⟨⟨saves, begun⟩, hresume, rfl⟩ := Option.map_eq_some_iff.mp h
  exact ⟨saves, begun, hresume, rfl⟩

theorem Sound.saveGoesOn (h : Sound O s) (hstep : saveGoesOn s o = some s') : Sound O s' := by
  obtain ⟨saves, begun, hresume, rfl⟩ := saveGoesOn_cases hstep
  refine h.begin (h.saves.resume hresume) (Calls.resume_work hresume) (Calls.resume_outcome hresume) ?_
  intro c l hl
  rw [Calls.works_resume hresume] at hl
  exact h.own c l hl

theorem readVectors_cases (h : readVectors s r ok = some s') :
    ∃ t, s.loads.tasks[r]? = some t ∧ t.outcome = none ∧
      (s' = { s with loads := s.loads.settle r false } ∨
        ∃ shard result, loadShard (s.files t.work.1) t.work.1 true = some shard ∧
          collectVectors shard t.work.2 (s.results t.owner) = .ok result ∧ s' =
            { s with
              results := Function.update s.results t.owner result
              loads := s.loads.settle r true }) := by
  unfold readVectors at h
  split at h
  · next owner id cids returned ht =>
    refine ⟨_, ht, rfl, ?_⟩
    split at h
    · next result hload =>
      obtain ⟨shard, hshard, hresult⟩ := Option.bind_eq_some_iff.mp hload
      cases h
      exact .inr ⟨shard, result, loadShard_true hshard, toOption_eq_some.mp hresult, rfl⟩
    · cases h
      exact .inl rfl
  · cases h

theorem Sound.readVectors (h : Sound O s) (hstep : readVectors s r ok = some s') : Sound O s' := by
  obtain ⟨t, ht, hopen, rfl | ⟨shard, result, -, -, rfl⟩⟩ := readVectors_cases hstep
  · exact { h with aligned := h.aligned.congr rfl rfl rfl, loads := h.loads.settle ht hopen }
  · refine { h with aligned := h.aligned.congr rfl rfl rfl, loads := h.loads.settle ht hopen, results := fun d hd => ?_ }
    have hlt : t.owner < s.loads.pools.length := h.loads.owned t (List.mem_of_getElem? ht)
    have hne : d ≠ t.owner := fun heq => absurd (heq ▸ hd : t.owner ≥ s.loads.pools.length) (by omega)
    exact (Function.update_of_ne hne ..).trans (h.results d hd)

theorem loadGoesOn_cases (h : loadGoesOn s r = some s') : ∃ loads begun,
    s.loads.resume r = some (loads, begun) ∧ s' = { s with loads := loads } := by
  obtain ⟨⟨loads, begun⟩, hresume, rfl⟩ := Option.map_eq_some_iff.mp h
  exact ⟨loads, begun, hresume, rfl⟩

theorem Sound.loadGoesOn (h : Sound O s) (hstep : loadGoesOn s r = some s') : Sound O s' := by
  obtain ⟨loads, begun, hresume, rfl⟩ := loadGoesOn_cases hstep
  refine ⟨h.aligned.congr rfl rfl rfl, h.saves, h.loads.resume hresume, h.own, fun d l hl => ?_,
    h.outcomes, fun d hd => h.results d ?_⟩
  · rw [Calls.works_resume hresume] at hl
    exact h.asked d l hl
  · rwa [Calls.length_resume hresume] at hd

theorem step_sound (h : Sound O s) (hstep : step O s ev = some s') : Sound O s' := by
  cases ev with
  | saveVectors entries => exact h.saveVectors hstep
  | loadVectors blockCids => exact h.loadVectors hstep
  | flight o =>
    have haligned := h.aligned.flight hstep
    obtain ⟨e, q, -, -, -, rfl⟩ := flight_cases hstep
    exact h.of_write haligned rfl rfl rfl fun _ _ hdone => hdone
  | readShard o ok => exact h.readShard hstep
  | writeShard o ok => exact h.writeShard hstep
  | release o => exact h.release hstep
  | saveGoesOn o => exact h.saveGoesOn hstep
  | readVectors r ok => exact h.readVectors hstep
  | loadGoesOn r => exact h.loadGoesOn hstep

theorem run_sound (h : Sound O s) (hrun : run O s evs = some s') : Sound O s' := by
  induction evs generalizing s with
  | nil =>
    cases hrun
    exact h
  | cons ev evs ih =>
    obtain ⟨t, hstep, hrest⟩ := Option.bind_eq_some_iff.mp hrun
    exact ih (step_sound h hstep) hrest

/-! ### What is stored -/

/-- An entry of the save. -/
def Belongs (s : State) (c : ℕ) (e : Entry) : Prop :=
  ∃ l, s.saves.works c = some l ∧ ∃ g ∈ l, e ∈ g.2

/-- A block of the load. -/
def Asks (s : State) (d : ℕ) (cid : JsString) : Prop :=
  ∃ l, s.loads.works d = some l ∧ ∃ g ∈ l, cid ∈ g.2

theorem finish_files (h : finish s o ok = some s') :
    s'.files = s.files ∧ s'.saves = s.saves ∧ s'.loads = s.loads ∧ s'.results = s.results := by
  obtain ⟨q, -, rfl⟩ := Option.map_eq_some_iff.mp h
  exact ⟨rfl, rfl, rfl, rfl⟩

theorem readShard_files (h : readShard s o ok = some s') :
    s'.files = s.files ∧ s'.saves = s.saves ∧ s'.loads = s.loads ∧ s'.results = s.results := by
  obtain ⟨e, t, -, -, -, -, hfinish | ⟨_, _, _, -, -, ⟨-, hfinish⟩ | ⟨-, rfl⟩⟩⟩ := readShard_cases h
  · exact finish_files hfinish
  · exact finish_files hfinish
  · exact ⟨rfl, rfl, rfl, rfl⟩

/-- A file changes only by a write of a save, which adds entries to it. -/
theorem step_files (h : Sound O s) (hstep : step O s ev = some s') : s'.files = s.files ∨
    ∃ c l g base shard, s.saves.works c = some l ∧ g ∈ l ∧
      loadShard (s.files g.1) g.1 true = some base ∧ Adds base shard g.2 ∧
      s'.files = Function.update s.files g.1 (written shard) := by
  cases ev with
  | saveVectors entries =>
    rcases saveVectors_cases hstep with rfl | ⟨normalized, -, rfl⟩
    · exact .inl rfl
    · exact .inl (enqueueAll_frame _ _).1
  | loadVectors blockCids =>
    rcases loadVectors_cases hstep with rfl | ⟨cids, -, rfl⟩
    · exact .inl rfl
    · exact .inl rfl
  | flight o =>
    obtain ⟨e, q, -, -, -, rfl⟩ := flight_cases hstep
    exact .inl rfl
  | readShard o ok => exact .inl (readShard_files hstep).1
  | writeShard o ok =>
    obtain ⟨e, shard, he, -, hop, q, -, rfl⟩ := writeShard_cases hstep
    obtain ⟨g, base, hg, hkey, hbase, hadds⟩ := h.aligned.writing he hop
    cases ok with
    | false => exact .inl rfl
    | true =>
      rw [List.getElem?_map] at hg
      obtain ⟨t, ht, rfl⟩ := Option.map_eq_some_iff.mp hg
      obtain ⟨l, hl, hmem⟩ := h.saves.mem_works (List.mem_of_getElem? ht)
      exact .inr ⟨t.owner, l, t.work, base, shard, hl, hmem, hbase, hadds, by rw [if_pos rfl, hkey]⟩
  | release o =>
    obtain ⟨e, ok, t, -, -, -, -, -, rfl⟩ := release_cases hstep
    exact .inl rfl
  | saveGoesOn o =>
    obtain ⟨saves, begun, -, rfl⟩ := saveGoesOn_cases hstep
    exact .inl (enqueueAll_frame _ _).1
  | readVectors r ok =>
    obtain ⟨t, -, -, rfl | ⟨shard, result, -, -, rfl⟩⟩ := readVectors_cases hstep
    · exact .inl rfl
    · exact .inl rfl
  | loadGoesOn r =>
    obtain ⟨loads, begun, -, rfl⟩ := loadGoesOn_cases hstep
    exact .inl rfl

theorem lt_of_works {ω : Type*} {calls : Calls ω} {l : List ω} (h : calls.works c = some l) :
    c < calls.pools.length := by
  obtain ⟨p, hp, -⟩ := Option.map_eq_some_iff.mp h
  exact (List.getElem_of_getElem? hp).1

/-- The tasks of a save stay. -/
theorem step_works (hstep : step O s ev = some s') {l : List (ShardId × List Entry)}
    (hl : s.saves.works c = some l) : s'.saves.works c = some l := by
  cases ev with
  | saveVectors entries =>
    rcases saveVectors_cases hstep with rfl | ⟨normalized, -, rfl⟩
    · exact hl
    · rw [(enqueueAll_frame _ _).2.1, Calls.works_call, if_neg (lt_of_works hl).ne]
      exact hl
  | loadVectors blockCids =>
    rcases loadVectors_cases hstep with rfl | ⟨cids, -, rfl⟩
    · exact hl
    · exact hl
  | flight o =>
    obtain ⟨e, q, -, -, -, rfl⟩ := flight_cases hstep
    exact hl
  | readShard o ok =>
    rw [(readShard_files hstep).2.1]
    exact hl
  | writeShard o ok =>
    obtain ⟨e, shard, -, -, -, q, -, rfl⟩ := writeShard_cases hstep
    exact hl
  | release o =>
    obtain ⟨e, ok, t, -, -, -, -, -, rfl⟩ := release_cases hstep
    exact hl
  | saveGoesOn o =>
    obtain ⟨saves, begun, hresume, rfl⟩ := saveGoesOn_cases hstep
    rw [(enqueueAll_frame _ _).2.1, Calls.works_resume hresume]
    exact hl
  | readVectors r ok =>
    obtain ⟨t, -, -, rfl | ⟨shard, result, -, -, rfl⟩⟩ := readVectors_cases hstep
    · exact hl
    · exact hl
  | loadGoesOn r =>
    obtain ⟨loads, begun, -, rfl⟩ := loadGoesOn_cases hstep
    exact hl

/-- What is stored stays; what is new, an entry of a save brings; who can be read stays readable. -/
structure Extends (O : Options) (s s' : State) : Prop where
  keeps (cid : JsString) (v : Json) : s.stored O cid = some v → s'.stored O cid = some v
  origin (cid : JsString) (v : Json) : s'.stored O cid = some v → s.stored O cid = some v ∨
    ∃ c e, Belongs s' c e ∧ e.cid = cid ∧ vectorJson e.vector = v
  belongs (c : ℕ) (e : Entry) : Belongs s c e → Belongs s' c e
  readable (id : ShardId) : (loadShard (s.files id) id true).isSome = true →
    (loadShard (s'.files id) id true).isSome = true

theorem Extends.refl (s : State) : Extends O s s :=
  ⟨fun _ _ h => h, fun _ _ h => .inl h, fun _ _ h => h, fun _ h => h⟩

theorem Extends.trans {t : State} (h : Extends O s t) (h' : Extends O t s') : Extends O s s' where
  keeps cid v hv := h'.keeps cid v (h.keeps cid v hv)
  origin cid v hv := by
    rcases h'.origin cid v hv with hv | hnew
    · rcases h.origin cid v hv with hv | ⟨c, e, he, hcid⟩
      · exact .inl hv
      · exact .inr ⟨c, e, h'.belongs c e he, hcid⟩
    · exact .inr hnew
  belongs c e he := h'.belongs c e (h.belongs c e he)
  readable id hid := h'.readable id (h.readable id hid)

theorem step_extends (h : Sound O s) (hstep : step O s ev = some s') :
    Extends O s s' := by
  have hbelongs : ∀ c e, Belongs s c e → Belongs s' c e := fun c e ⟨l, hl, hmem⟩ =>
    ⟨l, step_works hstep hl, hmem⟩
  rcases step_files h hstep with hfiles | ⟨c, l, g, base, shard, hl, hg, hbase, hadds, hfiles⟩
  · refine ⟨fun cid v hv => ?_, fun cid v hv => .inl ?_, hbelongs, fun id hid => ?_⟩
    · rwa [State.stored, hfiles]
    · rwa [State.stored, hfiles] at hv
    · rwa [hfiles]
  · refine ⟨fun cid v hv => ?_, fun cid v hv => ?_, hbelongs, fun id hid => ?_⟩
    · rw [State.stored, hfiles]
      exact update_keeps hbase hadds hv
    · rw [State.stored, hfiles] at hv
      by_cases hid : O.shardId cid = g.1
      · rw [hid, Function.update_self, vector_written] at hv
        rcases hadds.origin cid v hv with hv | ⟨e, he, hcid⟩
        · left
          rw [State.stored, hid, (loadShard_ok hbase).2, hv]
        · exact .inr ⟨c, e, hbelongs c e ⟨l, hl, g, hg, he⟩, hcid⟩
      · rw [Function.update_of_ne hid] at hv
        exact .inl hv
    · rw [hfiles]
      by_cases heq : id = g.1
      · subst heq
        have hload := load_written shard
        rw [hadds.id, (loadShard_ok hbase).1] at hload
        rwa [Function.update_self]
      · rwa [Function.update_of_ne heq]

theorem run_extends (h : Sound O s) (hrun : run O s evs = some s') :
    Extends O s s' := by
  induction evs generalizing s with
  | nil =>
    cases hrun
    exact .refl _
  | cons ev evs ih =>
    obtain ⟨t, hstep, hrest⟩ := Option.bind_eq_some_iff.mp hrun
    exact (step_extends h hstep).trans (ih (step_sound h hstep) hrest)

/-- A save that is resolved has left a vector under each of its blocks. -/
theorem Sound.saved (h : Sound O s) {e : Entry} (he : Belongs s c e)
    (hresolved : s.saves.Resolved c) : ∃ vector, s.stored O e.cid = some (vectorJson vector) := by
  obtain ⟨l, hl, g, hg, heg⟩ := he
  obtain ⟨x, hx, -, rfl, houtcome⟩ := h.saves.resolved hresolved hl hg
  obtain ⟨o, ho⟩ := List.mem_iff_getElem?.mp hx
  have hop := h.outcomes o true (by rw [List.getElem?_map, ho, Option.map_some, houtcome])
  have hwork : (s.saves.tasks.map Task.work)[o]? = some x.work := by
    rw [List.getElem?_map, ho, Option.map_some]
  have hlt : o < s.shardFlights.entries.length := by
    rw [h.aligned.flights]
    exact (List.getElem_of_getElem? hwork).1
  obtain ⟨-, hgood⟩ := h.aligned.good o _ _ _ (List.getElem?_eq_getElem hlt) hop hwork
  generalize s.shardFlights.entries[o].phase = phase at hgood
  cases hgood with
  | done _ hstored =>
    obtain ⟨vector, hvector⟩ := hstored rfl e heg
    exact ⟨vector, by rw [State.stored, h.own c l hl x.work hg e heg, hvector]⟩

/-! ### What is loaded -/

/-- What a load that has not begun, or goes on, has found of a block that is stored. -/
structure Answers (O : Options) (s : State) (d : ℕ) (cid : JsString) (vector : List NumberText) :
    Prop where
  stored : s.stored O cid = some (vectorJson vector)
  found : ∀ x ∈ s.loads.tasks, x.owner = d → x.outcome = some true → cid ∈ x.work.2 →
    Maps.get (s.results d) cid = some vector

variable {d : ℕ} {cid : JsString} {vector : List NumberText}

theorem Answers.of_loads (h : Answers O s d cid vector) (hextends : Extends O s s')
    (hloads : s'.loads = s.loads) (hresults : s'.results = s.results) :
    Answers O s' d cid vector where
  stored := hextends.keeps _ _ h.stored
  found x hx := by
    rw [hresults]
    exact h.found x (hloads ▸ hx)

theorem Answers.readVectors (h : Answers O s d cid vector) (hsound : Sound O s)
    (hextends : Extends O s s') (hstep : readVectors s r ok = some s') :
    Answers O s' d cid vector := by
  refine ⟨hextends.keeps _ _ h.stored, fun x hx howner hdone hcid => ?_⟩
  obtain ⟨t, ht, hopen, rfl | ⟨shard, result, hshard, hresult, rfl⟩⟩ := readVectors_cases hstep
  · rcases Calls.mem_modify hx with ⟨y, -, rfl⟩ | hx
    · cases hdone
    · exact h.found x hx howner hdone hcid
  · obtain ⟨l, hl, hmem⟩ := hsound.loads.mem_works (List.mem_of_getElem? ht)
    have hown : cid ∈ t.work.2 → shard.vector cid = some (vectorJson vector) := fun hc => by
      have hid := hsound.asked _ l hl t.work hmem cid hc
      have hstored := h.stored
      rwa [State.stored, hid, (loadShard_ok hshard).2] at hstored
    by_cases hd : d = t.owner
    · have hresults : Function.update s.results t.owner result d = result := by
        rw [hd, Function.update_self]
      show Maps.get (Function.update s.results t.owner result d) cid = some vector
      rw [hresults]
      rcases collectVectors_get hresult cid with ⟨hother, hsame⟩ | ⟨hc, w, hw, hfound⟩
      · rw [hsame, ← hd]
        rcases Calls.mem_modify hx with ⟨y, hy, rfl⟩ | hx
        · cases ht.symm.trans hy
          have hnone := hother.resolve_left (not_not_intro hcid)
          rw [hown hcid] at hnone
          cases hnone
        · exact h.found x hx howner hdone hcid
      · rw [hown hc] at hw
        rw [hfound, vectorJson_injective (Option.some.inj hw)]
    · refine (congrArg (Maps.get · cid) (Function.update_of_ne hd ..)).trans ?_
      rcases Calls.mem_modify hx with ⟨y, hy, rfl⟩ | hx
      · cases ht.symm.trans hy
        exact absurd howner.symm hd
      · exact h.found x hx howner hdone hcid

theorem step_answers (h : Answers O s d cid vector) (hsound : Sound O s)
    (hstep : step O s ev = some s') : Answers O s' d cid vector := by
  have hextends := step_extends hsound hstep
  cases ev with
  | saveVectors entries =>
    rcases saveVectors_cases hstep with rfl | ⟨normalized, -, rfl⟩
    · exact h
    · obtain ⟨-, -, hloads, hresults, -⟩ := enqueueAll_frame
        { s with saves := s.saves.call O.ioConcurrency (groupEntries O normalized) }
        ((groupEntries O normalized).take O.ioConcurrency)
      exact h.of_loads hextends hloads hresults
  | loadVectors blockCids =>
    rcases loadVectors_cases hstep with rfl | ⟨cids, -, rfl⟩
    · exact h
    · refine ⟨h.stored, fun x hx howner hdone hcid => ?_⟩
      rcases List.mem_append.mp hx with hx | hx
      · exact h.found x hx howner hdone hcid
      · obtain ⟨w, -, rfl⟩ := List.mem_map.mp hx
        cases hdone
  | flight o =>
    obtain ⟨e, q, -, -, -, rfl⟩ := flight_cases hstep
    exact h.of_loads hextends rfl rfl
  | readShard o ok =>
    obtain ⟨-, -, hloads, hresults⟩ := readShard_files hstep
    exact h.of_loads hextends hloads hresults
  | writeShard o ok =>
    obtain ⟨e, shard, -, -, -, q, -, rfl⟩ := writeShard_cases hstep
    exact h.of_loads hextends rfl rfl
  | release o =>
    obtain ⟨e, ok, t, -, -, -, -, -, rfl⟩ := release_cases hstep
    exact h.of_loads hextends rfl rfl
  | saveGoesOn o =>
    obtain ⟨saves, begun, -, rfl⟩ := saveGoesOn_cases hstep
    obtain ⟨-, -, hloads, hresults, -⟩ := enqueueAll_frame { s with saves := saves } begun.toList
    exact h.of_loads hextends hloads hresults
  | readVectors r ok => exact h.readVectors hsound hextends hstep
  | loadGoesOn r =>
    obtain ⟨loads, begun, hresume, rfl⟩ := loadGoesOn_cases hstep
    obtain ⟨x₀, ok, p, hx₀, -, -, -, -, rfl⟩ := Calls.resume_cases hresume
    refine ⟨h.stored, fun x hx howner hdone hcid => ?_⟩
    rcases List.mem_append.mp hx with hx | hx
    · rcases Calls.mem_modify hx with ⟨y, hy, rfl⟩ | hx
      · exact h.found y (List.mem_of_getElem? hy) howner hdone hcid
      · exact h.found x hx howner hdone hcid
    · obtain ⟨w, -, rfl⟩ := List.mem_map.mp hx
      cases hdone

theorem run_answers (h : Answers O s d cid vector) (hsound : Sound O s)
    (hrun : run O s evs = some s') : Answers O s' d cid vector := by
  induction evs generalizing s with
  | nil =>
    cases hrun
    exact h
  | cons ev evs ih =>
    obtain ⟨t, hstep, hrest⟩ := Option.bind_eq_some_iff.mp hrun
    exact ih (step_answers h hsound hstep) (step_sound hsound hstep) hrest

/-! ### Writes get their turn -/

/-- A step in which the file system does nothing for a write. -/
def Event.Failing : Event → Prop
  | .flight _ => True
  | .readShard _ ok | .writeShard _ ok => ok = false
  | _ => False

theorem step_finish (he : s.shardFlights.entries[o]? = some e) (hworking : e.phase = .working) :
    finish s o ok = some
      { s with
        shardFlights := s.shardFlights.setPhase o .finished
        operations := s.operations.set o (.done ok) } := by
  simp [finish, Lanes.Queue.advance, he, Lanes.Queue.next, hworking]

/-- Whatever flight may go on does so, also if every file fails. -/
theorem failing_step (h : Sound O s) {phase : Lanes.Phase}
    (he : s.shardFlights.entries[o]? = some e) (hnext : s.shardFlights.next e = some phase) :
    ∃ ev s', ev.Failing ∧ step O s ev = some s' ∧
      s'.shardFlights = s.shardFlights.setPhase o phase := by
  have hadvance : s.shardFlights.advance o = some (s.shardFlights.setPhase o phase) := by
    simp [Lanes.Queue.advance, he, hnext]
  obtain ⟨key, previous, ephase⟩ := e
  have hflight : ephase = .waiting ∨ ephase = .finished → ∃ ev s', ev.Failing ∧
      step O s ev = some s' ∧ s'.shardFlights = s.shardFlights.setPhase o phase := fun hcase => by
    refine ⟨.flight o, { s with shardFlights := s.shardFlights.setPhase o phase }, trivial, ?_, rfl⟩
    rcases hcase with rfl | rfl
    · simp [step, flight, he, hadvance]
    · simp [step, flight, he, hadvance]
  cases ephase with
  | waiting => exact hflight (.inl rfl)
  | finished => exact hflight (.inr rfl)
  | settled => cases hnext
  | working =>
    cases hnext
    have hlt : o < s.saves.tasks.length := by
      have hlength := h.aligned.flights
      rw [List.length_map] at hlength
      rw [← hlength]
      exact Lanes.Queue.lt_of_getElem? he
    have hops : o < s.operations.length := by
      rw [h.aligned.operations, List.length_map]
      exact hlt
    have ht := List.getElem?_eq_getElem hlt
    have hop := List.getElem?_eq_getElem hops
    obtain ⟨-, hgood⟩ := h.aligned.good o _ _ _ he hop (by rw [List.getElem?_map, ht, Option.map_some])
    have hfinish := @step_finish _ _ false _ he rfl
    generalize s.operations[o] = op at hop hgood
    cases hgood with
    | reading =>
      refine ⟨.readShard o false, _, rfl, Eq.trans ?_ hfinish, rfl⟩
      simp [step, readShard, he, hop, ht, loadShard]
    | writing hbase hadds =>
      refine ⟨.writeShard o false, _, rfl, Eq.trans ?_ hfinish, rfl⟩
      simp [step, writeShard, he, hop]
    | done hfalse => cases hfalse

/-- By induction on how much is left to do in the lanes. -/
theorem Sound.turn (h : Sound O s) (he : s.shardFlights.entries[o]? = some e)
    (hwaits : e.phase = .waiting) :
    ∃ evs s', (∀ ev ∈ evs, ev.Failing) ∧ run O s evs = some s' ∧
      ∃ e', s'.shardFlights.entries[o]? = some e' ∧ e'.phase = .working := by
  generalize hn : s.shardFlights.left = n
  induction n using Nat.strongRecOn generalizing s e with
  | ind n ih =>
    subst hn
    obtain ⟨m, hm, f, hf, -, hgoes⟩ := h.aligned.queue.next_step he (by simp [hwaits])
    obtain ⟨phase, hphase⟩ := Option.isSome_iff_exists.mp hgoes
    obtain ⟨ev, s', hfailing, hstep, hflights⟩ := failing_step h hf hphase
    have hadvance : s.shardFlights.advance m = some s'.shardFlights := by
      simp [Lanes.Queue.advance, hf, hphase, hflights]
    rcases hm.lt_or_eq with hlt | rfl
    · have hsame : s'.shardFlights.entries[o]? = some e := by
        rw [hflights, Lanes.Queue.getElem?_setPhase, if_neg (by omega), he]
      obtain ⟨evs, t, hall, hrun, hwork⟩ :=
        ih _ (Lanes.Queue.left_advance hadvance) (step_sound h hstep) hsame hwaits rfl
      refine ⟨ev :: evs, t, List.forall_mem_cons.mpr ⟨hfailing, hall⟩, ?_, hwork⟩
      rw [run, hstep, Option.bind_some, hrun]
    · cases he.symm.trans hf
      have hworking : phase = .working := by
        simp only [Lanes.Queue.next, hwaits, Option.ite_none_right_eq_some] at hphase
        exact (Option.some.inj hphase.2).symm
      refine ⟨[ev], s', by simpa using hfailing, by rw [run, hstep]; rfl, ?_⟩
      exact ⟨_, by rw [hflights, Lanes.Queue.getElem?_setPhase, if_pos rfl, he]; rfl, hworking⟩

/-! ### Saves and loads -/

/-- What holds of the store whenever calls are made. -/
structure Lossless (O : Options) (s : State) : Prop where
  saves (raw : Json) (entries : List Entry) : normalizeVectorEntries raw = .ok entries →
    ∃ s', step O s (.saveVectors raw) = some s' ∧
      ∀ e, Belongs s' s.saves.pools.length e ↔ e ∈ entries
  loads (raw : Json) (cids : List JsString) : normalizeBlockCids raw = .ok cids →
    ∃ s', step O s (.loadVectors raw) = some s' ∧
      ∀ cid, Asks s' s.loads.pools.length cid ↔ cid ∈ cids
  found (c : ℕ) (e : Entry) : Belongs s c e → s.saves.Resolved c →
    ∃ vector, s.stored O e.cid = some (vectorJson vector) ∧
      ∀ evs s', run O s evs = some s' → ∀ d ≥ s.loads.pools.length, Asks s' d e.cid →
        s'.loads.Resolved d → Maps.get (s'.results d) e.cid = some vector
  later (evs : List Event) (s' : State) : run O s evs = some s' → Extends O s s'
  turn (o : ℕ) (e : Lanes.Entry ShardId) : s.shardFlights.entries[o]? = some e →
    e.phase = .waiting → ∃ evs s', (∀ ev ∈ evs, ev.Failing) ∧ run O s evs = some s' ∧
      ∃ e', s'.shardFlights.entries[o]? = some e' ∧ e'.phase = .working

theorem saveVectors_belongs {entries : List Entry} (h : normalizeVectorEntries raw = .ok entries) :
    ∃ s', step O s (.saveVectors raw) = some s' ∧
      ∀ e, Belongs s' s.saves.pools.length e ↔ e ∈ entries := by
  refine ⟨_, by rw [step, saveVectors, h], fun e => ?_⟩
  have hworks : (enqueueAll
      { s with saves := s.saves.call O.ioConcurrency (groupEntries O entries) }
      ((groupEntries O entries).take O.ioConcurrency)).saves.works s.saves.pools.length =
        some (groupEntries O entries) := by
    rw [(enqueueAll_frame _ _).2.1, Calls.works_call, if_pos rfl]
  constructor
  · rintro ⟨l, hl, g, hg, he⟩
    cases hworks.symm.trans hl
    obtain ⟨e', hmem, heq⟩ := List.mem_map.mp (mem_collected hg he)
    obtain ⟨-, rfl⟩ := Prod.mk.inj heq
    exact hmem
  · intro he
    obtain ⟨g, hg, hmem⟩ := exists_collected
      (List.mem_map_of_mem (f := fun e : Entry => (O.shardId e.cid, e)) he)
    exact ⟨_, hworks, g, hg, hmem⟩

theorem loadVectors_asks (h : normalizeBlockCids raw = .ok cids) :
    ∃ s', step O s (.loadVectors raw) = some s' ∧
      ∀ cid, Asks s' s.loads.pools.length cid ↔ cid ∈ cids := by
  refine ⟨_, by rw [step, loadVectors, h], fun cid => ?_⟩
  have hworks : (s.loads.call O.ioConcurrency (groupCids O cids)).works s.loads.pools.length =
      some (groupCids O cids) := by
    rw [Calls.works_call, if_pos rfl]
  constructor
  · rintro ⟨l, hl, g, hg, hcid⟩
    cases hworks.symm.trans hl
    obtain ⟨cid', hmem, heq⟩ := List.mem_map.mp (mem_collected hg hcid)
    obtain ⟨-, rfl⟩ := Prod.mk.inj heq
    exact hmem
  · intro hcid
    obtain ⟨g, hg, hmem⟩ := exists_collected
      (List.mem_map_of_mem (f := fun cid : JsString => (O.shardId cid, cid)) hcid)
    exact ⟨_, hworks, g, hg, hmem⟩

theorem Sound.found (h : Sound O s) {e : Entry} (he : Belongs s c e)
    (hresolved : s.saves.Resolved c) : ∃ vector, s.stored O e.cid = some (vectorJson vector) ∧
      ∀ evs s', run O s evs = some s' → ∀ d ≥ s.loads.pools.length, Asks s' d e.cid →
        s'.loads.Resolved d → Maps.get (s'.results d) e.cid = some vector := by
  obtain ⟨vector, hstored⟩ := h.saved he hresolved
  refine ⟨vector, hstored, fun evs s' hrun d hd ⟨l, hl, g, hg, hcid⟩ hload => ?_⟩
  have hnew : Answers O s d e.cid vector := ⟨hstored, fun x hx howner => by
    have hlt := h.loads.owned x hx
    omega⟩
  obtain ⟨x, hx, howner, rfl, hdone⟩ := (run_sound h hrun).loads.resolved hload hl hg
  exact (run_answers hnew h hrun).found x hx howner hdone hcid

/-- LOSSLESS: whatever calls there have been, who saved a vector finds one in every later load, and
    always the one that was written first. -/
theorem sharded_store_lossless (O : Options) {files : ShardId → File} {evs : List Event} {s : State}
    (h : run O { files := files } evs = some s) : Lossless O s := by
  have hsound := run_sound (sound_initial files) h
  exact ⟨fun _ _ => saveVectors_belongs, fun _ _ => loadVectors_asks, fun _ _ => hsound.found,
    fun _ _ => run_extends hsound, fun _ _ => hsound.turn⟩

def sampleCid (digit : UInt16) : JsString := js "truyn:ctxb:" ++ [digit]

/-- The defaults, and the digests of two blocks of one shard. -/
def sampleOptions : Options where
  shardPrefixLength := 2
  ioConcurrency := 16
  keyHash cid :=
    if cid = sampleCid 53 then
      hexText 0x4a9eaa96c4dde7bc25030c86e56e8bfbf53898e4c706197f84e3fbbd42b52341
    else if cid = sampleCid 54 then
      hexText 0x4adfbbf7a08e054be15e9d6b770244ff91b0d1a1898f17c3a6bb9ba2e49e34f5
    else hexText 0
  prefix_bounds := by decide
  concurrency_bounds := by decide

/-- One entry, for a block, with a vector of so many dimensions. -/
def sampleEntries (digit : UInt16) (dimensions : ℕ) : Json :=
  .array [.object [(js "cid", .string (sampleCid digit)),
    (js "vector", .array (List.replicate dimensions (.number (.ofNat 1))))]]

/-- A save from its call to its end, with no other in between. -/
def saveEvents (entries : Json) (write : ℕ) : List Event := [.saveVectors entries, .flight write,
  .readShard write true, .writeShard write true, .flight write, .release write, .saveGoesOn write]

theorem sample_save_lossless : ∃ s, run sampleOptions { files := fun _ => .missing }
    (saveEvents (sampleEntries 53 1) 0) = some s ∧ Lossless sampleOptions s := by
  obtain ⟨s, hs⟩ := Option.isSome_iff_exists.mp (show (run sampleOptions { files := fun _ => .missing }
    (saveEvents (sampleEntries 53 1) 0)).isSome = true by decide)
  exact ⟨s, hs, sharded_store_lossless sampleOptions hs⟩

def firstWork : ShardId × List Entry := (js "4a", [⟨sampleCid 53, [.ofNat 1]⟩])

def secondWork : ShardId × List Entry := (js "4a", [⟨sampleCid 54, [.ofNat 1, .ofNat 1]⟩])

/-- Of one dimension, and of two. -/
def firstShard : Shard :=
  { fresh (js "4a") with vectors := [(sampleCid 53, vectorJson [.ofNat 1])] }

def secondShard : Shard where
  id := js "4a"
  record := Maps.set (js "vectors") (.object firstShard.vectors) firstShard.record
  vectors := [(sampleCid 53, vectorJson [.ofNat 1]), (sampleCid 54, vectorJson [.ofNat 1, .ofNat 1])]
  storeVersion := rfl
  shardVersion := rfl
  shard := rfl

/-- After the first save. -/
def firstState (file : File) : State where
  files := Function.update (fun _ => .missing) (js "4a") file
  saves := ⟨[⟨[firstWork], 1, false⟩], [⟨0, firstWork, some true, true⟩]⟩
  shardFlights := ⟨[⟨js "4a", none, .settled⟩],
    Function.update (Function.update (fun _ => none) (js "4a") (some 0)) (js "4a") none⟩
  operations := [.done true]

theorem first_save : run sampleOptions { files := fun _ => .missing }
    (saveEvents (sampleEntries 53 1) 0) = some (firstState (written firstShard)) := by
  rfl

/-- After the second. -/
def secondState (file file' : File) : State where
  files := Function.update (firstState file).files (js "4a") file'
  saves := ⟨[⟨[firstWork], 1, false⟩, ⟨[secondWork], 1, false⟩],
    [⟨0, firstWork, some true, true⟩, ⟨1, secondWork, some true, true⟩]⟩
  shardFlights := ⟨[⟨js "4a", none, .settled⟩, ⟨js "4a", none, .settled⟩],
    Function.update (Function.update (firstState file).shardFlights.tails (js "4a") (some 1)) (js "4a") none⟩
  operations := [.done true, .done true]

theorem second_save : run sampleOptions (firstState (.holds firstShard.toJson))
    (saveEvents (sampleEntries 54 2) 1) =
      some (secondState (.holds firstShard.toJson) (written secondShard)) := by
  rfl

theorem stored_written {files : ShardId → File} {id : ShardId} {shard : Shard}
    (hfiles : s.files = Function.update files id (written shard)) (hid : O.shardId cid = id) :
    s.stored O cid = shard.vector cid := by
  rw [State.stored, hfiles, hid, Function.update_self, vector_written]

theorem run_append (O : Options) (s : State) (evs evs' : List Event) :
    run O s (evs ++ evs') = (run O s evs).bind fun t => run O t evs' := by
  induction evs generalizing s with
  | nil => rfl
  | cons ev evs ih =>
    rw [List.cons_append, run, run, Option.bind_assoc]
    exact congrArg _ (funext ih)

/-- Two saves leave vectors of one and of two dimensions, which are of no one model, in one shard. -/
theorem shard_mixes_models :
    sampleOptions.shardId (sampleCid 53) = sampleOptions.shardId (sampleCid 54) ∧
    ∃ s, run sampleOptions { files := fun _ => .missing }
      (saveEvents (sampleEntries 53 1) 0 ++ saveEvents (sampleEntries 54 2) 1) = some s ∧
      s.stored sampleOptions (sampleCid 53) = some (vectorJson [.ofNat 1]) ∧
      s.stored sampleOptions (sampleCid 54) = some (vectorJson [.ofNat 1, .ofNat 1]) := by
  have hfirst : sampleOptions.shardId (sampleCid 53) = js "4a" := by decide
  have hsecond : sampleOptions.shardId (sampleCid 54) = js "4a" := by decide
  refine ⟨hfirst.trans hsecond.symm, secondState (.holds firstShard.toJson) (written secondShard), ?_,
    (stored_written (s := secondState _ _) rfl hfirst).trans rfl,
    (stored_written (s := secondState _ _) rfl hsecond).trans rfl⟩
  rw [run_append, first_save, written_eq firstShard]
  exact second_save

end Truyn.ShardedStore
