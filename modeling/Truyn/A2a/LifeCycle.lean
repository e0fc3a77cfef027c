import Truyn.A2a.TaskStore

/-! a2a:life-cycle | what a finished task keeps, and the order of its stream

    `Mutates` is what a mutator does to a store, and `Evolves` what any call but `create` does. A task
    that no mutator was called for is not finished, and no event finds it: so `start` and `reject`,
    which do not look at the state, change only tasks that are not finished. -/

namespace Truyn.A2a
open Trust (Value)

variable {H : Host} {c : Config} {s s' : TaskStore} {w w' : World} {t t' : Task} {taskId : JsString}

/-- The sequence numbers of the artifact updates in a stream. -/
def sequences (l : List StreamEvent) : List ℕ :=
  l.filterMap fun
    | .artifactUpdate _ _ _ _ _ sequence => some sequence
    | .statusUpdate .. => none

/-- The artifact updates have the numbers 0 to `nextStreamSequence - 1`, in order. -/
def Task.Sequenced (task : Task) : Prop :=
  sequences task.streamEvents = List.range task.nextStreamSequence

/-! ### One task -/

/-- What every mutator does to a task, at the time `nowMs`. -/
structure Task.Turns (nowMs : ℤ) (t t' : Task) : Prop where
  id : t'.id = t.id
  ownerKey : t'.ownerKey = t.ownerKey
  history : t'.history = t.history
  lastModified : t'.lastModified = nowMs
  events : t.streamEvents <+: t'.streamEvents
  sequenced : t.Sequenced → t'.Sequenced

variable {nowMs : ℤ}

/-- The status changes, and other fields may. -/
theorem Task.Turns.same (hid : t'.id = t.id) (howner : t'.ownerKey = t.ownerKey)
    (hhistory : t'.history = t.history) (hmodified : t'.lastModified = nowMs)
    (hevents : t'.streamEvents = t.streamEvents)
    (hnext : t'.nextStreamSequence = t.nextStreamSequence) : t.Turns nowMs t' := by
  refine ⟨hid, howner, hhistory, hmodified, by rw [hevents], ?_⟩
  intro hq
  rw [Task.Sequenced, hevents, hnext]
  exact hq

/-- The status is then reported. -/
theorem Task.Turns.push {source : String} (h : t.Turns nowMs t') :
    t.Turns nowMs (t'.pushStatus source) where
  __ := h
  events := h.events.trans (List.prefix_append _ _)
  sequenced := by
    intro hq
    have hsequences : sequences (t'.pushStatus source).streamEvents = sequences t'.streamEvents := by
      simp [Task.pushStatus, sequences]
    exact hsequences.trans (h.sequenced hq)

/-- An artifact update continues the stream. -/
theorem Task.Turns.append (hid : t'.id = t.id) (howner : t'.ownerKey = t.ownerKey)
    (hhistory : t'.history = t.history) (hmodified : t'.lastModified = nowMs)
    {artifact : Value} {append : Bool} {contextId : JsString}
    (hevents : t'.streamEvents = t.streamEvents ++
      [.artifactUpdate taskId contextId artifact append false t.nextStreamSequence])
    (hnext : t'.nextStreamSequence = t.nextStreamSequence + 1) : t.Turns nowMs t' := by
  refine ⟨hid, howner, hhistory, hmodified, by simp [hevents], ?_⟩
  intro hq
  rw [Task.Sequenced, hevents, hnext, List.range_succ, ← hq]
  simp [sequences]

theorem settled_turns (r : ResultArgs) (d : Draws) : t.Turns d.nowMs (t.settled H r d).1 := by
  simp only [Task.settled]
  split
  · split
    · exact .same rfl rfl rfl rfl rfl rfl
    · exact .push (.same rfl rfl rfl rfl rfl rfl)
  · split <;> exact .push (.same rfl rfl rfl rfl rfl rfl)

theorem partialised_turns (event : Value) (requestId : JsString) (d : Draws) :
    t.Turns d.nowMs (t.partialised H event requestId d) := by
  simp only [Task.partialised]
  split
  · exact .push (.same rfl rfl rfl rfl rfl rfl)
  · exact .push (.same rfl rfl rfl rfl rfl rfl)
  · split
    · exact .push (.same rfl rfl rfl rfl rfl rfl)
    · next hsequence =>
      obtain rfl := not_not.mp hsequence
      split
      · exact .append rfl rfl rfl rfl rfl rfl
      · exact .push (.same rfl rfl rfl rfl rfl rfl)

theorem settled_request (r : ResultArgs) (d : Draws) :
    (t.settled H r d).1.truynRequestId = t.truynRequestId := by
  simp only [Task.settled]
  split
  · split <;> rfl
  · split <;> rfl

theorem partialised_request (event : Value) (requestId : JsString) (d : Draws) :
    (t.partialised H event requestId d).truynRequestId = t.truynRequestId := by
  simp only [Task.partialised]
  split
  · rfl
  · rfl
  · split
    · rfl
    · split <;> rfl

/-! ### One mutator -/

/-- A task that is kept under one of the `touched` ids turns, and its marker is touched; the task was
    not finished where the mutator looks (`guarded`). `start` also records its `request`. -/
inductive Mutates (c : Config) (guarded : Prop) (touched : JsString → Prop)
    (request : Option JsString) (nowMs : ℤ) (s : TaskStore) : TaskStore → Prop
  | idle : Mutates c guarded touched request nowMs s s
  | update {taskId : JsString} {t t' : Task} {requests : List (JsString × JsString)}
      (hget : Maps.get s.tasks taskId = some t) (hturns : t.Turns nowMs t')
      (hlive : guarded → ¬t.status.state.terminal) (htouched : touched taskId)
      (hrequests : requests = s.byTruynRequestId ∧ t'.truynRequestId = t.truynRequestId ∨
        ∃ requestId, request = some requestId ∧ t'.truynRequestId = some requestId ∧
          requests = Maps.set requestId t.id s.byTruynRequestId) :
      Mutates c guarded touched request nowMs s
        ({ s with byTruynRequestId := requests }.update c t' nowMs)

variable {guarded : Prop} {touched : JsString → Prop} {request : Option JsString}

theorem mutates_completeResult (touched : JsString → Prop)
    (hget : Maps.get s.tasks taskId = some t) (htouched : touched taskId) (r : ResultArgs)
    (d : Draws) : Mutates c True touched none d.nowMs s (s.completeResult H c t r d).1 := by
  unfold TaskStore.completeResult
  split
  · exact .idle
  · next hlive =>
    exact .update hget (settled_turns r d) (fun _ => hlive) htouched (.inl ⟨rfl, settled_request r d⟩)

/-- The task that an event is for. -/
theorem find_spec {requestId : Option Value} (h : s.findByRequest requestId = some t) :
    ∃ r id, requestId = some (.string r) ∧ Maps.get s.byTruynRequestId r = some id ∧
      Maps.get s.tasks id = some t := by
  unfold TaskStore.findByRequest at h
  split at h
  · next r =>
    obtain ⟨id, hr, hid⟩ := Option.bind_eq_some_iff.mp h
    exact ⟨r, id, rfl, hr, hid⟩
  · cases h

/-- The tasks that an event can find. -/
def TaskStore.Found (s : TaskStore) (taskId : JsString) : Prop :=
  ∃ requestId, Maps.get s.byTruynRequestId requestId = some taskId

theorem mutates_completeFromTruynEvent (event : Value) (d : Draws) :
    Mutates c True s.Found none d.nowMs s (s.completeFromTruynEvent H c event d).1 := by
  unfold TaskStore.completeFromTruynEvent
  dsimp only
  split
  · exact .idle
  · split
    · exact .idle
    · next task hfind =>
      obtain ⟨r, id, -, hr, hget⟩ := find_spec hfind
      split
      · exact .idle
      · exact mutates_completeResult _ hget ⟨r, hr⟩ _ d

theorem mutates_recordCompactEvent (event : Value) (d : Draws) :
    Mutates c True s.Found none d.nowMs s (s.recordCompactEvent H c event d).1 := by
  unfold TaskStore.recordCompactEvent
  dsimp only
  split
  · exact .idle
  · split
    · next task requestId hfind hrequest =>
      obtain ⟨r, id, -, hr, hget⟩ := find_spec hfind
      split
      · exact .idle
      · split
        · exact .idle
        · next hlive =>
          split
          · exact .update hget (partialised_turns _ _ d) (fun _ => hlive) ⟨r, hr⟩
              (.inl ⟨rfl, partialised_request _ _ d⟩)
          · split
            · exact mutates_completeResult _ hget ⟨r, hr⟩ _ d
            · exact .idle
    · exact .idle

theorem mutates_cancel (taskId : JsString) (message : Value) (uuid : JsString) (nowMs : ℤ) :
    Mutates c True (· = taskId) none nowMs s (s.cancel H c taskId message uuid nowMs) := by
  unfold TaskStore.cancel
  split
  · next task text hget htext =>
    split
    · exact .idle
    · next hlive =>
      exact .update hget (.push (.same rfl rfl rfl rfl rfl rfl)) (fun _ => hlive) rfl
        (.inl ⟨rfl, rfl⟩)
  · exact .idle

/-- `start` and `reject` do not look at the state of the task. -/
theorem mutates_start {a : StartArgs} (h : s.start c taskId a nowMs = some s') :
    Mutates c False (· = taskId) (some a.truynRequestId) nowMs s s' := by
  unfold TaskStore.start at h
  split at h
  · cases h
  · next task hget =>
    split at h
    · cases h
    · cases h
      exact .update hget (.same rfl rfl rfl rfl rfl rfl) nofun rfl (.inr ⟨_, rfl, rfl, rfl⟩)

theorem mutates_reject {message : Value} {uuid : JsString}
    (h : s.reject H c taskId message uuid nowMs = some s') :
    Mutates c False (· = taskId) none nowMs s s' := by
  unfold TaskStore.reject at h
  split at h
  · next task text hget htext =>
    cases h
    exact .update hget (.push (.same rfl rfl rfl rfl rfl rfl)) nofun rfl (.inl ⟨rfl, rfl⟩)
  · cases h

/-! ### One call -/

/-- What any call may do to a task. -/
structure Task.Grows (t t' : Task) : Prop where
  id : t'.id = t.id
  history : t'.history = t.history
  kept : t.status.state.terminal → t'.status = t.status ∧ t'.artifacts = t.artifacts ∧
    t'.streamEvents = t.streamEvents
  events : t.streamEvents <+: t'.streamEvents
  sequenced : t.Sequenced → t'.Sequenced

theorem Task.Grows.refl : t.Grows t :=
  ⟨rfl, rfl, fun _ => ⟨rfl, rfl, rfl⟩, List.prefix_refl _, fun h => h⟩

theorem Task.Grows.trans {t'' : Task} (h : t.Grows t') (h' : t'.Grows t'') : t.Grows t'' where
  id := h'.id.trans h.id
  history := h'.history.trans h.history
  kept := by
    intro hterm
    obtain ⟨hs, ha, he⟩ := h.kept hterm
    obtain ⟨hs', ha', he'⟩ := h'.kept (by rw [hs]; exact hterm)
    exact ⟨hs'.trans hs, ha'.trans ha, he'.trans he⟩
  events := h.events.trans h'.events
  sequenced := fun hq => h'.sequenced (h.sequenced hq)

theorem Task.Turns.grows (h : t.Turns nowMs t') (hlive : ¬t.status.state.terminal) : t.Grows t' :=
  { h with kept := fun hterm => absurd hterm hlive }

/-- Tasks only go or grow, and those that grow are `touched`. -/
structure Evolves (touched : JsString → Prop) (s s' : TaskStore) : Prop where
  tasks : ∀ (id : JsString) (task' : Task), Maps.get s'.tasks id = some task' →
    ∃ task, Maps.get s.tasks id = some task ∧ (task' = task ∨ touched id ∧ task.Grows task')
  found : ∀ (requestId id : JsString), Maps.get s'.byTruynRequestId requestId = some id →
    Maps.get s.byTruynRequestId requestId = some id ∨
      touched id ∧ ∃ task, Maps.get s.tasks id = some task

theorem Evolves.refl : Evolves touched s s :=
  ⟨fun _ task' h => ⟨task', h, .inl rfl⟩, fun _ _ h => .inl h⟩

theorem Evolves.trans {s'' : TaskStore} (h : Evolves touched s s') (h' : Evolves touched s' s'') :
    Evolves touched s s'' where
  tasks := by
    intro id task'' ht
    obtain ⟨task', hget', heq' | ⟨htouched', hgrows'⟩⟩ := h'.tasks id task'' ht
    · rw [heq']
      exact h.tasks id task' hget'
    · obtain ⟨task, hget, heq | ⟨-, hgrows⟩⟩ := h.tasks id task' hget'
      · exact ⟨task, hget, .inr ⟨htouched', heq ▸ hgrows'⟩⟩
      · exact ⟨task, hget, .inr ⟨htouched', hgrows.trans hgrows'⟩⟩
  found := by
    intro r id hf
    rcases h'.found r id hf with hf | ⟨htouched, task', hget'⟩
    · exact h.found r id hf
    · obtain ⟨task, hget, -⟩ := h.tasks id task' hget'
      exact .inr ⟨htouched, task, hget⟩

theorem tasks_touch (taskId : JsString) (nowMs : ℤ) :
    (s.touchReplayMarker c taskId nowMs).tasks = s.tasks ∧
      (s.touchReplayMarker c taskId nowMs).byTruynRequestId = s.byTruynRequestId := by
  unfold TaskStore.touchReplayMarker
  split
  · exact ⟨rfl, rfl⟩
  · split <;> exact ⟨rfl, rfl⟩

theorem evolves_of_same (h : s'.tasks = s.tasks ∧ s'.byTruynRequestId = s.byTruynRequestId) :
    Evolves touched s s' :=
  ⟨fun _ task' ht => ⟨task', h.1 ▸ ht, .inl rfl⟩, fun _ _ hf => .inl (h.2 ▸ hf)⟩

theorem evolves_delete (touched : JsString → Prop) (taskId : JsString) (forgetCorrelation : Bool) :
    Evolves touched s (s.delete taskId forgetCorrelation) := by
  unfold TaskStore.delete
  split
  · exact .refl
  · next task hget =>
    constructor
    · intro id task' ht
      rw [Maps.get_delete] at ht
      split at ht
      · cases ht
      · exact ⟨task', ht, .inl rfl⟩
    · intro requestId id hf
      cases hr : task.truynRequestId with
      | none => exact .inl (by simpa [hr] using hf)
      | some r =>
        simp only [hr, Maps.get_delete] at hf
        split at hf
        · cases hf
        · exact .inl hf

/-- After its first loop, `prune` only deletes tasks. -/
theorem prune_induct (P : TaskStore → Prop) (h0 : P (s.dropMarkers nowMs))
    (hdelete : ∀ (s : TaskStore) (id : JsString) (forget : Bool), P s → P (s.delete id forget)) :
    P (s.prune c nowMs).1 := by
  have hfold : ∀ (l : List (JsString × Task)) (threshold : ℤ) (s : TaskStore), P s →
      P (l.foldl (fun s p => if p.2.lastModified < threshold then s.delete p.1 true else s) s) := by
    intro l threshold
    induction l with
    | nil => exact fun s hs => hs
    | cons p l ih =>
      intro s hs
      rw [List.foldl_cons]
      split
      · exact ih _ (hdelete s p.1 true hs)
      · exact ih s hs
  have hrooms : ∀ (rounds : ℕ) (s : TaskStore), P s → P (TaskStore.makeRoom c rounds s).1 := by
    intro rounds
    induction rounds with
    | zero => exact fun s hs => hs
    | succ rounds ih =>
      intro s hs
      unfold TaskStore.makeRoom
      split
      · exact hs
      · split
        · exact hs
        · exact ih _ (hdelete s _ false hs)
  exact hrooms _ _ (hfold _ _ _ h0)

theorem evolves_prune (touched : JsString → Prop) (nowMs : ℤ) :
    Evolves touched s (s.prune c nowMs).1 :=
  prune_induct (Evolves touched s) (evolves_of_same ⟨rfl, rfl⟩)
    fun _ id forget h => h.trans (evolves_delete touched id forget)

/-- Every task has the id that it is kept under. -/
def TaskStore.Keyed (s : TaskStore) : Prop :=
  ∀ (id : JsString) (task : Task), Maps.get s.tasks id = some task → task.id = id

/-- A mutator that looks at the state, or is called for tasks that are not finished. -/
theorem Mutates.evolves (h : Mutates c guarded touched request nowMs s s') (hk : s.Keyed)
    (hlive : guarded ∨ ∀ id, touched id → ∀ t, Maps.get s.tasks id = some t →
      ¬t.status.state.terminal) : Evolves touched s s' := by
  cases h with
  | idle => exact .refl
  | @update taskId t t' requests hget hturns hguard htouched hrequests =>
    have hid := hk taskId t hget
    have hgrows : t.Grows t' := hturns.grows (hlive.elim hguard fun h => h taskId htouched t hget)
    have hput : Evolves touched s ({ s with byTruynRequestId := requests }.put t') := by
      refine ⟨fun id task' ht => ?_, fun requestId id hf => ?_⟩
      · rw [TaskStore.put, hturns.id, hid, Maps.get_set] at ht
        split at ht
        · next heq =>
          cases ht
          exact ⟨t, heq ▸ hget, .inr ⟨heq ▸ htouched, hgrows⟩⟩
        · exact ⟨task', ht, .inl rfl⟩
      · rcases hrequests with ⟨rfl, -⟩ | ⟨r, -, -, rfl⟩
        · exact .inl hf
        · change Maps.get (Maps.set r t.id s.byTruynRequestId) requestId = some id at hf
          rw [Maps.get_set] at hf
          split at hf
          · cases hf
            exact .inr ⟨hid ▸ htouched, t, hid ▸ hget⟩
          · exact .inl hf
    exact hput.trans (evolves_of_same (tasks_touch _ _))

/-- `create` adds its task. -/
theorem create_tasks {a : CreateArgs} {id : JsString}
    (hget : Maps.get (s.create c a).1.tasks id = some t') :
    (id = a.taskUuid ∧ t' = a.task) ∨ Maps.get (s.prune c a.pruneMs).1.tasks id = some t' := by
  have hput : ∀ s : TaskStore, Maps.get (s.put a.task).tasks id = some t' →
      (id = a.taskUuid ∧ t' = a.task) ∨ Maps.get s.tasks id = some t' := by
    intro s h
    rw [TaskStore.put, Maps.get_set] at h
    split at h
    · next heq => exact .inl ⟨heq.symm, (Option.some.inj h).symm⟩
    · exact .inr h
  unfold TaskStore.create at hget
  split at hget
  · next hp => exact .inr (by rw [hp]; exact hget)
  · next hp =>
    rw [hp]
    split at hget
    · exact hput _ hget
    · split at hget
      · exact .inr hget
      · split at hget
        · exact .inr hget
        · exact hput _ hget

theorem create_found {a : CreateArgs} :
    (s.create c a).1.byTruynRequestId = (s.prune c a.pruneMs).1.byTruynRequestId := by
  unfold TaskStore.create
  split
  · next hp => rw [hp]
  · next hp =>
    rw [hp]
    split
    · rfl
    · split
      · rfl
      · split <;> rfl

/-! ### Runs -/

/-- `start` and `reject` are called for a task that no other mutator was called for. -/
def Disciplined (w : World) : Op → Prop
  | .start taskId _ _ => taskId ∈ w.fresh
  | .reject taskId _ _ _ => taskId ∈ w.fresh
  | _ => True

/-- Calls in any order. -/
inductive Runs (H : Host) (c : Config) : World → World → Prop
  | refl {w : World} : Runs H c w w
  | step {w w' w'' : World} {o : Op} : Runs H c w w' → Disciplined w' o →
      step H c w' o = some w'' → Runs H c w w''

structure Kept (w : World) : Prop where
  keyed : w.store.Keyed
  sequenced : ∀ (id : JsString) (task : Task), Maps.get w.store.tasks id = some task →
    task.Sequenced
  issued : ∀ (id : JsString) (task : Task), Maps.get w.store.tasks id = some task → id ∈ w.issued
  freshIssued : ∀ id ∈ w.fresh, id ∈ w.issued
  live : ∀ id ∈ w.fresh, ∀ task, Maps.get w.store.tasks id = some task →
    ¬task.status.state.terminal
  found : ∀ (id : JsString), w.store.Found id → id ∈ w.issued ∧ id ∉ w.fresh

theorem Kept.init : Kept .init where
  keyed := fun _ _ h => by cases h
  sequenced := fun _ _ h => by cases h
  issued := fun _ _ h => by cases h
  freshIssued := fun _ h => by cases h
  live := fun _ h => by cases h
  found := fun _ h => by obtain ⟨_, h⟩ := h; cases h

/-- A call that creates nothing; the tasks it touches are no longer fresh. -/
theorem Kept.evolves (h : Kept w) (hs : Evolves touched w.store w'.store)
    (hissued : w'.issued = w.issued) (hfresh : ∀ id ∈ w'.fresh, id ∈ w.fresh ∧ ¬touched id) :
    Kept w' where
  keyed := by
    intro id task' ht
    obtain ⟨task, hget, heq | ⟨-, hgrows⟩⟩ := hs.tasks id task' ht
    · exact heq ▸ h.keyed id task hget
    · exact hgrows.id.trans (h.keyed id task hget)
  sequenced := by
    intro id task' ht
    obtain ⟨task, hget, heq | ⟨-, hgrows⟩⟩ := hs.tasks id task' ht
    · exact heq ▸ h.sequenced id task hget
    · exact hgrows.sequenced (h.sequenced id task hget)
  issued := by
    intro id task' ht
    obtain ⟨task, hget, -⟩ := hs.tasks id task' ht
    exact hissued ▸ h.issued id task hget
  freshIssued := fun id hid => hissued ▸ h.freshIssued id (hfresh id hid).1
  live := by
    intro id hid task' ht
    obtain ⟨task, hget, heq | ⟨htid, -⟩⟩ := hs.tasks id task' ht
    · exact heq ▸ h.live id (hfresh id hid).1 task hget
    · exact absurd htid (hfresh id hid).2
  found := by
    rintro id ⟨r, hr⟩
    rcases hs.found r id hr with hr | ⟨hid, task, hget⟩
    · obtain ⟨hin, hnot⟩ := h.found id ⟨r, hr⟩
      exact ⟨hissued ▸ hin, fun hid => hnot (hfresh id hid).1⟩
    · exact ⟨hissued ▸ h.issued id task hget, fun hf => (hfresh id hf).2 hid⟩

/-- Issued ids stay issued, and their tasks go or grow. -/
structure Advances (w w' : World) : Prop where
  issued : ∀ id ∈ w.issued, id ∈ w'.issued
  tasks : ∀ id ∈ w.issued, ∀ task', Maps.get w'.store.tasks id = some task' →
    ∃ task, Maps.get w.store.tasks id = some task ∧ task.Grows task'

theorem Evolves.advances (hs : Evolves touched w.store w'.store) (hissued : w'.issued = w.issued) :
    Advances w w' where
  issued := fun id hid => hissued ▸ hid
  tasks := by
    intro id _ task' hget'
    obtain ⟨task, hget, heq | ⟨-, hgrows⟩⟩ := hs.tasks id task' hget'
    · exact ⟨task, hget, heq ▸ .refl⟩
    · exact ⟨task, hget, hgrows⟩

theorem Kept.quiet (h : Kept w) (hs : Evolves touched w.store s')
    (hn : ∀ id ∈ w.fresh, ¬touched id) :
    Kept { w with store := s' } ∧ Advances w { w with store := s' } :=
  ⟨h.evolves hs rfl fun id hid => ⟨hid, hn id hid⟩, hs.advances rfl⟩

theorem Kept.unfresh (h : Kept w) (hs : Evolves (· = taskId) w.store s') :
    Kept (w.unfresh taskId s') ∧ Advances w (w.unfresh taskId s') := by
  refine ⟨h.evolves hs rfl fun id hid => ?_, hs.advances rfl⟩
  simpa [World.unfresh] using hid

theorem Kept.live_of (h : Kept w) (hfresh : taskId ∈ w.fresh) (id : JsString) (hid : id = taskId)
    (t : Task) (hget : Maps.get w.store.tasks id = some t) : ¬t.status.state.terminal :=
  h.live id (hid ▸ hfresh) t hget

theorem Kept.idle (h : Kept w) : Kept w ∧ Advances w w :=
  ⟨h, fun _ hid => hid, fun _ _ task hget => ⟨task, hget, .refl⟩⟩

theorem Kept.creates (h : Kept w) {a : CreateArgs} (hnew : a.taskUuid ∉ w.issued) :
    Kept ⟨(w.store.create c a).1, a.taskUuid :: w.issued, a.taskUuid :: w.fresh⟩ ∧
      Advances w ⟨(w.store.create c a).1, a.taskUuid :: w.issued, a.taskUuid :: w.fresh⟩ := by
  have hp : Kept { w with store := (w.store.prune c a.pruneMs).1 } :=
    (h.quiet (evolves_prune (fun _ => False) a.pruneMs) fun _ _ => id).1
  have hfound : ∀ id, (w.store.create c a).1.Found id → (w.store.prune c a.pruneMs).1.Found id := by
    rintro id ⟨r, hr⟩
    exact ⟨r, create_found ▸ hr⟩
  constructor
  · constructor
    · intro id task hget
      rcases create_tasks hget with ⟨rfl, rfl⟩ | hget
      · rfl
      · exact hp.keyed id task hget
    · intro id task hget
      rcases create_tasks hget with ⟨rfl, rfl⟩ | hget
      · rfl
      · exact hp.sequenced id task hget
    · intro id task hget
      rcases create_tasks hget with ⟨rfl, rfl⟩ | hget
      · exact List.mem_cons_self
      · exact List.mem_cons_of_mem _ (hp.issued id task hget)
    · intro id hid
      rcases List.mem_cons.mp hid with rfl | hid
      · exact List.mem_cons_self
      · exact List.mem_cons_of_mem _ (h.freshIssued id hid)
    · intro id hid task hget
      rcases create_tasks hget with ⟨rfl, rfl⟩ | hget
      · exact nofun
      · rcases List.mem_cons.mp hid with rfl | hid
        · exact absurd (hp.issued _ task hget) hnew
        · exact hp.live id hid task hget
    · intro id hid
      obtain ⟨hin, hnot⟩ := hp.found id (hfound id hid)
      refine ⟨List.mem_cons_of_mem _ hin, fun hf => ?_⟩
      rcases List.mem_cons.mp hf with rfl | hf
      · exact hnew hin
      · exact hnot hf
  · constructor
    · exact fun id hid => List.mem_cons_of_mem _ hid
    · intro id hid task' hget'
      rcases create_tasks hget' with ⟨rfl, rfl⟩ | hget'
      · exact absurd hid hnew
      · obtain ⟨task, hget, heq | ⟨hf, -⟩⟩ :=
          (evolves_prune (fun _ => False) a.pruneMs).tasks id task' hget'
        · exact ⟨task, hget, heq ▸ .refl⟩
        · exact hf.elim

/-- STEP: a new task has a new id, and the others go or grow. -/
theorem step_spec {op : Op} (h : Kept w) (hd : Disciplined w op) (hs : step H c w op = some w') :
    Kept w' ∧ Advances w w' := by
  cases op with
  | create a =>
    simp only [step] at hs
    split at hs
    · cases hs
    · next hnew =>
      cases hs
      exact h.creates hnew
  | prune nowMs =>
    cases hs
    exact h.quiet (evolves_prune (fun _ => False) nowMs) fun _ _ => id
  | start taskId a nowMs =>
    simp only [step] at hs
    split at hs
    · next store hstart =>
      cases hs
      exact h.unfresh ((mutates_start hstart).evolves h.keyed (.inr (h.live_of hd)))
    · cases hs
      exact h.idle
  | reject taskId message uuid nowMs =>
    simp only [step] at hs
    split at hs
    · next store hreject =>
      cases hs
      exact h.unfresh ((mutates_reject hreject).evolves h.keyed (.inr (h.live_of hd)))
    · cases hs
      exact h.idle
  | cancel taskId message uuid nowMs =>
    cases hs
    exact h.unfresh ((mutates_cancel taskId message uuid nowMs).evolves h.keyed (.inl trivial))
  | completeResult taskId r d =>
    simp only [step] at hs
    split at hs
    · next task hget =>
      cases hs
      have hmutates := mutates_completeResult (H := H) (c := c) (· = taskId) hget rfl r d
      exact h.unfresh (hmutates.evolves h.keyed (.inl trivial))
    · cases hs
      exact h.idle
  | completeFromTruynEvent event d =>
    cases hs
    exact h.quiet ((mutates_completeFromTruynEvent event d).evolves h.keyed (.inl trivial))
      fun id hid hf => (h.found id hf).2 hid
  | recordCompactEvent event d =>
    cases hs
    exact h.quiet ((mutates_recordCompactEvent event d).evolves h.keyed (.inl trivial))
      fun id hid hf => (h.found id hf).2 hid
  | delete taskId forgetCorrelation =>
    cases hs
    exact h.quiet (evolves_delete (fun _ => False) taskId forgetCorrelation)
      fun _ _ => id
  | touchReplayMarker taskId nowMs =>
    cases hs
    have hsame : Evolves (fun _ => False) w.store (w.store.touchReplayMarker c taskId nowMs) :=
      evolves_of_same (tasks_touch taskId nowMs)
    exact h.quiet hsame fun _ _ => id

theorem Advances.trans {w'' : World} (h : Advances w w') (h' : Advances w' w'') : Advances w w'' where
  issued := fun id hid => h'.issued id (h.issued id hid)
  tasks := by
    intro id hid task'' hget''
    obtain ⟨task', hget', hgrows'⟩ := h'.tasks id (h.issued id hid) task'' hget''
    obtain ⟨task, hget, hgrows⟩ := h.tasks id hid task' hget'
    exact ⟨task, hget, hgrows.trans hgrows'⟩

/-- RUN: the invariant holds, and every task goes or grows. -/
theorem runs_spec (h : Kept w) (hr : Runs H c w w') : Kept w' ∧ Advances w w' := by
  induction hr with
  | refl => exact h.idle
  | step _ hd hs ih =>
    obtain ⟨hk, ha⟩ := ih
    obtain ⟨hk', ha'⟩ := step_spec hk hd hs
    exact ⟨hk', ha.trans ha'⟩

/-- A task that is finished keeps its status, history, artifacts and stream in every later state of
    every run; a stream is only extended at its end, and its artifact updates are numbered
    0 to `nextStreamSequence - 1`. -/
theorem life_cycle (id : JsString) {task task' : Task} (hw : Runs H c .init w) (hw' : Runs H c w w')
    (ht : Maps.get w.store.tasks id = some task) (ht' : Maps.get w'.store.tasks id = some task') :
    (task.status.state.terminal → task'.status = task.status ∧ task'.history = task.history ∧
      task'.artifacts = task.artifacts ∧ task'.streamEvents = task.streamEvents) ∧
    task.streamEvents <+: task'.streamEvents ∧
    sequences task'.streamEvents = List.range task'.nextStreamSequence := by
  obtain ⟨hk, -⟩ := runs_spec Kept.init hw
  obtain ⟨hk', ha⟩ := runs_spec hk hw'
  obtain ⟨first, hfirst, hgrows⟩ := ha.tasks id (hk.issued id task ht) task' ht'
  cases ht.symm.trans hfirst
  refine ⟨fun hterm => ?_, hgrows.events, hk'.sequenced id task' ht'⟩
  obtain ⟨hstatus, hartifacts, hevents⟩ := hgrows.kept hterm
  exact ⟨hstatus, hgrows.history, hartifacts, hevents⟩

/-- A host that refuses every result, and a store with room for two tasks. -/
def sampleHost : Host where
  normalizeOutboundA2aPart := fun _ _ => .error none
  normalizeOutboundA2aArtifactBundle := fun _ _ => .error none
  string := fun _ => some (js "no provider")

def sampleConfig : Config := ⟨2, 4, 1000, by decide, by decide, by decide⟩

def sampleCreate : CreateArgs where
  ownerKey := some [1]
  contextId := none
  message := .object [(js "messageId", .string [7])]
  skillId := [1]
  capability := [2]
  pruneMs := 0
  createdAtMs := 0
  taskUuid := [3]
  contextUuid := [4]

/-- A task is rejected, and canceled afterwards. -/
theorem life_cycle_rejected : ∃ task task' : Task, task.status.state = .rejected ∧
    task'.status = task.status ∧ task'.history = task.history ∧
    task'.artifacts = task.artifacts ∧ task'.streamEvents = task.streamEvents := by
  have hcreate : Runs sampleHost sampleConfig .init _ :=
    .step (o := .create sampleCreate) .refl trivial rfl
  have hreject : Runs sampleHost sampleConfig .init _ :=
    .step (o := .reject [3] .null [5] 1) hcreate List.mem_cons_self rfl
  have hkept := (life_cycle [3] hreject (.step (o := .cancel [3] .null [6] 2) .refl trivial rfl)
    rfl rfl).1 rfl
  exact ⟨_, _, rfl, hkept⟩

/-- A task that is gone stays gone: its id is not used again, and no event finds it. -/
theorem gone_stays_gone {id : JsString} (hw : Runs H c .init w) (hw' : Runs H c w w')
    (hissued : id ∈ w.issued) (hgone : Maps.get w.store.tasks id = none) :
    Maps.get w'.store.tasks id = none ∧
      ∀ requestId t, w'.store.findByRequest requestId = some t → t.id ≠ id := by
  obtain ⟨hk, -⟩ := runs_spec Kept.init hw
  obtain ⟨hk', ha⟩ := runs_spec hk hw'
  have hnone : Maps.get w'.store.tasks id = none := by
    rw [Option.eq_none_iff_forall_ne_some]
    intro t ht
    obtain ⟨t', ht', -⟩ := ha.tasks id hissued t ht
    cases hgone.symm.trans ht'
  refine ⟨hnone, ?_⟩
  rintro requestId t hfind rfl
  obtain ⟨_, id, -, -, hget⟩ := find_spec hfind
  rw [hk'.keyed id t hget, hget] at hnone
  cases hnone

/-- A task is started for the request 9 and deleted; then it is canceled, and the answer comes. -/
theorem gone_stays_gone_deleted : ∃ w w' : World, Runs sampleHost sampleConfig .init w ∧
    [3] ∈ w.issued ∧ Maps.get w.store.tasks [3] = none ∧ Runs sampleHost sampleConfig w w' ∧
    Maps.get w'.store.tasks [3] = none ∧
      ∀ requestId t, w'.store.findByRequest requestId = some t → t.id ≠ [3] := by
  have hcreate : Runs sampleHost sampleConfig .init _ :=
    .step (o := .create sampleCreate) .refl trivial rfl
  have hstart : Runs sampleHost sampleConfig .init _ :=
    .step (o := .start [3] ⟨[9], .null, .null⟩ 1) hcreate List.mem_cons_self rfl
  obtain ⟨w, hdelete, hissued, hgone⟩ : ∃ w, Runs sampleHost sampleConfig .init w ∧
      [3] ∈ w.issued ∧ Maps.get w.store.tasks [3] = none :=
    ⟨_, .step (o := .delete [3] true) hstart trivial rfl, List.mem_cons_self, rfl⟩
  have hcancel : Runs sampleHost sampleConfig w _ :=
    .step (o := .cancel [3] .null [6] 2) .refl trivial rfl
  have hlate : Runs sampleHost sampleConfig w _ := .step (o := .recordCompactEvent (.object
    [(js "kind", .string (js "RESULT")), (js "requestId", .string [9])]) ⟨3, [4], [5]⟩) hcancel trivial rfl
  exact ⟨w, _, hdelete, hissued, hgone, hlate, gone_stays_gone hdelete hlate hissued hgone⟩

end Truyn.A2a
