import Truyn.A2a.LifeCycle

/-! a2a:replay | a message is not taken twice before its task has been idle for the TTL

    `Marked` keeps the tasks in step with their keys and markers, and `Guarded` is what `prune`,
    eviction and every mutator leave of a marker until `m + taskTtlMs`. -/

namespace Truyn.A2a
open Trust (Value)

variable {H : Host} {c : Config} {s s' : TaskStore} {w w' : World} {t t' : Task}
  {taskId id : JsString} {k : CorrelationKey} {m now nowMs : ℤ}

/-- The key of the request that the task was created for. -/
def Task.key (task : Task) : Option CorrelationKey :=
  messageCorrelationKey task.ownerKey (task.history.headD .null)

theorem Task.Turns.key (h : t.Turns nowMs t') : t'.key = t.key := by
  rw [Task.key, Task.key, h.ownerKey, h.history]

/-- The keys of the stored tasks, which no two tasks share. -/
structure Marked (s : TaskStore) : Prop where
  keyed : s.Keyed
  tasks : (s.tasks.map Prod.fst).Nodup
  markers : (s.byMessageCorrelation.map Prod.fst).Nodup
  correlation : ∀ (id : JsString) (task : Task), Maps.get s.tasks id = some task →
    Maps.get s.messageCorrelationByTaskId id = task.key
  stored : ∀ (id : JsString) (key : CorrelationKey),
    Maps.get s.messageCorrelationByTaskId id = some key → ∃ task, Maps.get s.tasks id = some task
  single : ∀ (id id' : JsString) (task task' : Task) (key : CorrelationKey),
    Maps.get s.tasks id = some task → Maps.get s.tasks id' = some task' →
    task.key = some key → task'.key = some key → id = id'

/-- The marker of a key lasts at least until `until`. -/
def Lasts (s : TaskStore) (key : CorrelationKey) (expiry : ℤ) : Prop :=
  ∃ marker, Maps.get s.byMessageCorrelation key = some marker ∧ expiry ≤ marker.expiresAtMs

/-- The tasks that were modified at `floor` or later have markers that last for the TTL. -/
def Lasting (c : Config) (floor : ℤ) (s : TaskStore) : Prop :=
  ∀ (id : JsString) (task : Task) (key : CorrelationKey), Maps.get s.tasks id = some task →
    floor ≤ task.lastModified → task.key = some key →
    Lasts s key (task.lastModified + c.taskTtlMs)

/-- The key is held by a marker until `m + taskTtlMs`, and its task was not modified before `m`. -/
structure Guarded (c : Config) (key : CorrelationKey) (m : ℤ) (s : TaskStore) : Prop where
  lasts : Lasts s key (m + c.taskTtlMs)
  modified : ∀ (id : JsString) (task : Task), Maps.get s.tasks id = some task →
    task.key = some key → m ≤ task.lastModified

/-! ### Deleting -/

theorem tasks_delete (forget : Bool) :
    (s.delete taskId forget).tasks = Maps.delete taskId s.tasks := by
  unfold TaskStore.delete
  split
  · next hnone => exact (Maps.delete_of_get hnone).symm
  · rfl

theorem get_delete_tasks (forget : Bool) : Maps.get (s.delete taskId forget).tasks id =
    if taskId = id then none else Maps.get s.tasks id := by
  rw [tasks_delete, Maps.get_delete]

theorem get_delete_correlation (h : Marked s) (forget : Bool) :
    Maps.get (s.delete taskId forget).messageCorrelationByTaskId id =
      if taskId = id then none else Maps.get s.messageCorrelationByTaskId id := by
  unfold TaskStore.delete
  split
  · next hnone =>
    split
    · next heq =>
      subst heq
      cases hc : Maps.get s.messageCorrelationByTaskId taskId with
      | none => rfl
      | some key =>
        obtain ⟨task, hget⟩ := h.stored taskId key hc
        rw [hnone] at hget
        cases hget
    · rfl
  · exact Maps.get_delete

/-- Deleting a task takes at most the marker of its own key. -/
theorem get_delete_markers (h : Marked s) (forget : Bool)
    (hkeep : ∀ task, Maps.get s.tasks taskId = some task → task.key = some k → forget = false) :
    Maps.get (s.delete taskId forget).byMessageCorrelation k =
      Maps.get s.byMessageCorrelation k := by
  unfold TaskStore.delete
  split
  · rfl
  · next task hget =>
    rw [h.correlation taskId task hget]
    cases hk : task.key with
    | none => rfl
    | some key =>
      cases forget with
      | false => rfl
      | true =>
        have hne : key ≠ k := by
          rintro rfl
          exact absurd (hkeep task hget hk) (by decide)
        exact Maps.get_delete_ne hne

theorem Marked.delete (h : Marked s) (taskId : JsString) (forget : Bool) :
    Marked (s.delete taskId forget) := by
  have hsub : ∀ {id : JsString} {task : Task},
      Maps.get (s.delete taskId forget).tasks id = some task →
      taskId ≠ id ∧ Maps.get s.tasks id = some task := by
    intro id task hget
    rw [get_delete_tasks] at hget
    split at hget
    · cases hget
    · next hne => exact ⟨hne, hget⟩
  refine ⟨?_, ?_, ?_, ?_, ?_, ?_⟩
  · exact fun id task hget => h.keyed id task (hsub hget).2
  · rw [tasks_delete]
    exact Maps.nodup_delete h.tasks
  · unfold TaskStore.delete
    split
    · exact h.markers
    · simp only
      split
      · split
        · exact Maps.nodup_delete h.markers
        · exact h.markers
      · exact h.markers
  · intro id task hget
    obtain ⟨hne, hget⟩ := hsub hget
    rw [get_delete_correlation h, if_neg hne]
    exact h.correlation id task hget
  · intro id key hc
    rw [get_delete_correlation h] at hc
    split at hc
    · cases hc
    · next hne =>
      obtain ⟨task, hget⟩ := h.stored id key hc
      exact ⟨task, by rw [get_delete_tasks, if_neg hne]; exact hget⟩
  · exact fun id id' task task' key hget hget' =>
      h.single id id' task task' key (hsub hget).2 (hsub hget').2

theorem Lasting.delete {floor : ℤ} (hl : Lasting c floor s) (h : Marked s) (taskId : JsString)
    (forget : Bool) : Lasting c floor (s.delete taskId forget) := by
  intro id task key hget hfloor hkey
  rw [get_delete_tasks] at hget
  split at hget
  · cases hget
  · next hne =>
    obtain ⟨marker, hmarker, hexpires⟩ := hl id task key hget hfloor hkey
    refine ⟨marker, ?_, hexpires⟩
    rw [get_delete_markers h, hmarker]
    intro other hother hotherKey
    exact absurd (h.single taskId id other task key hother hget hotherKey hkey) hne

theorem Guarded.delete (hg : Guarded c k m s) (h : Marked s) (taskId : JsString) (forget : Bool)
    (hold : forget = true → ∀ task, Maps.get s.tasks taskId = some task → task.lastModified < m) :
    Guarded c k m (s.delete taskId forget) := by
  constructor
  · obtain ⟨marker, hmarker, hexpires⟩ := hg.lasts
    refine ⟨marker, ?_, hexpires⟩
    rw [get_delete_markers h, hmarker]
    intro task hget hkey
    by_contra hforget
    have hlt := hold (by simpa using hforget) task hget
    have hle := hg.modified taskId task hget hkey
    omega
  · intro id task hget hkey
    rw [get_delete_tasks] at hget
    split at hget
    · cases hget
    · exact hg.modified id task hget hkey

/-! ### Pruning -/

/-- The second loop of `prune` deletes tasks that are old, and leaves none of them. -/
theorem dropTasks_spec (P : TaskStore → Prop) (threshold : ℤ) (hm : (s.tasks.map Prod.fst).Nodup)
    (h0 : P s) (hstep : ∀ (s : TaskStore) (id : JsString), P s →
      (∀ task, Maps.get s.tasks id = some task → task.lastModified < threshold) →
      P (s.delete id true)) :
    P (s.dropTasks threshold) ∧ ∀ (id : JsString) (task : Task),
      Maps.get (s.dropTasks threshold).tasks id = some task → threshold ≤ task.lastModified := by
  have hfold : ∀ (l : List (JsString × Task)) (s : TaskStore), P s →
      (∀ p ∈ l, ∀ task, Maps.get s.tasks p.1 = some task → task = p.2) →
      (∀ (id : JsString) (task : Task), Maps.get s.tasks id = some task →
        threshold ≤ task.lastModified ∨ (id, task) ∈ l) →
      P (l.foldl (fun s p => if p.2.lastModified < threshold then s.delete p.1 true else s) s) ∧
        ∀ (id : JsString) (task : Task), Maps.get (l.foldl (fun s p =>
          if p.2.lastModified < threshold then s.delete p.1 true else s) s).tasks id = some task →
          threshold ≤ task.lastModified := by
    intro l
    induction l with
    | nil =>
      intro s hs _ hold
      exact ⟨hs, fun id task hget => (hold id task hget).resolve_right (by simp)⟩
    | cons p l ih =>
      intro s hs hsame hold
      rw [List.foldl_cons]
      split
      · next hlt =>
        refine ih _ (hstep s p.1 hs fun task hget => ?_) ?_ ?_
        · rw [hsame p List.mem_cons_self task hget]
          exact hlt
        · intro q hq task hget
          rw [get_delete_tasks] at hget
          split at hget
          · cases hget
          · exact hsame q (List.mem_cons_of_mem _ hq) task hget
        · intro id task hget
          rw [get_delete_tasks] at hget
          split at hget
          · cases hget
          · next hne =>
            rcases hold id task hget with hle | hmem
            · exact .inl hle
            · rcases List.mem_cons.mp hmem with heq | hmem
              · exact absurd (congrArg Prod.fst heq).symm hne
              · exact .inr hmem
      · next hle =>
        refine ih s hs (fun q hq => hsame q (List.mem_cons_of_mem _ hq)) fun id task hget => ?_
        rcases hold id task hget with hle' | hmem
        · exact .inl hle'
        · rcases List.mem_cons.mp hmem with heq | hmem
          · refine .inl ?_
            rw [← heq] at hle
            exact not_lt.mp hle
          · exact .inr hmem
  refine hfold s.tasks s h0 (fun p hp task hget => ?_) fun id task hget =>
    .inr (Maps.mem_of_get hget)
  exact Option.some.inj (hget.symm.trans (Maps.get_of_mem hm hp))

theorem makeRoom_induct (P : TaskStore → Prop)
    (hstep : ∀ (s : TaskStore) (id : JsString), P s → P (s.delete id false)) (rounds : ℕ) :
    ∀ s : TaskStore, P s → P (TaskStore.makeRoom c rounds s).1 := by
  induction rounds with
  | zero => exact fun s hs => hs
  | succ rounds ih =>
    intro s hs
    unfold TaskStore.makeRoom
    split
    · exact hs
    · split
      · exact hs
      · exact ih _ (hstep s _ hs)

theorem Marked.dropMarkers (h : Marked s) (now : ℤ) : Marked (s.dropMarkers now) :=
  { h with markers := Maps.nodup_filter h.markers }

variable {expiry : ℤ} {a : CreateArgs}

theorem Lasts.dropMarkers (hl : Lasts s k expiry) (h : Marked s) (hnow : now ≤ expiry) :
    Lasts (s.dropMarkers now) k expiry := by
  obtain ⟨marker, hmarker, hexpires⟩ := hl
  refine ⟨marker, Maps.get_filter h.markers hmarker ?_, hexpires⟩
  simpa using hnow.trans hexpires

/-- `prune` keeps the tasks in step with their markers. -/
theorem prune_marked (h : Marked s) (hl : ∀ floor, Lasting c floor s) (now : ℤ) :
    Marked (s.prune c now).1 ∧ ∀ floor, Lasting c floor (s.prune c now).1 := by
  have hm := h.dropMarkers now
  have hlasting : Lasting c (now - c.taskTtlMs) (s.dropMarkers now) := by
    intro id task key hget hle hkey
    exact (hl _ id task key hget hle hkey).dropMarkers h (by omega)
  obtain ⟨⟨hm', hlasting'⟩, hyoung⟩ := dropTasks_spec
    (fun s => Marked s ∧ Lasting c (now - c.taskTtlMs) s) (now - c.taskTtlMs) hm.tasks ⟨hm, hlasting⟩
    fun s id hs _ => ⟨hs.1.delete id true, hs.2.delete hs.1 id true⟩
  refine makeRoom_induct (fun s => Marked s ∧ ∀ floor, Lasting c floor s)
    (fun s id hs => ⟨hs.1.delete id false, fun floor => (hs.2 floor).delete hs.1 id false⟩) _ _
    ⟨hm', fun floor id task key hget _ hkey => hlasting' id task key hget (hyoung id task hget) hkey⟩

/-- `prune` keeps a guard until its time. -/
theorem Guarded.prune (hg : Guarded c k m s) (h : Marked s) (hnow : now ≤ m + c.taskTtlMs) :
    Guarded c k m (s.prune c now).1 := by
  have hm := h.dropMarkers now
  have hg' : Guarded c k m (s.dropMarkers now) := ⟨hg.lasts.dropMarkers h hnow, hg.modified⟩
  have hdropped := (dropTasks_spec (fun s => Marked s ∧ Guarded c k m s) (now - c.taskTtlMs)
    hm.tasks ⟨hm, hg'⟩ fun s id hs hold => ⟨hs.1.delete id true, hs.2.delete hs.1 id true
      fun _ task hget => by have hlt := hold task hget; omega⟩).1
  exact (makeRoom_induct (fun s => Marked s ∧ Guarded c k m s) (fun s id hs =>
    ⟨hs.1.delete id false, hs.2.delete hs.1 id false nofun⟩) _ _ hdropped).2

/-! ### Touching -/

theorem touch_correlation : (s.touchReplayMarker c taskId nowMs).messageCorrelationByTaskId =
    s.messageCorrelationByTaskId := by
  unfold TaskStore.touchReplayMarker
  split
  · rfl
  · split <;> rfl

theorem nodup_touch (h : (s.byMessageCorrelation.map Prod.fst).Nodup) :
    ((s.touchReplayMarker c taskId nowMs).byMessageCorrelation.map Prod.fst).Nodup := by
  unfold TaskStore.touchReplayMarker
  split
  · exact h
  · split
    · exact h
    · exact Maps.nodup_set h

/-- A touched marker lasts for the TTL, and the others as long as before. -/
theorem Lasts.touch (hl : Lasts s k expiry)
    (hnow : Maps.get s.messageCorrelationByTaskId taskId = some k → expiry ≤ nowMs + c.taskTtlMs) :
    Lasts (s.touchReplayMarker c taskId nowMs) k expiry := by
  obtain ⟨marker, hmarker, hexpires⟩ := hl
  unfold TaskStore.touchReplayMarker
  split
  · exact ⟨marker, hmarker, hexpires⟩
  · next key hkey =>
    split
    · exact ⟨marker, hmarker, hexpires⟩
    · by_cases heq : key = k
      · subst heq
        exact ⟨_, Maps.get_set_self, hnow hkey⟩
      · exact ⟨marker, (Maps.get_set_ne heq).trans hmarker, hexpires⟩

theorem lasts_touch_self (hkey : Maps.get s.messageCorrelationByTaskId taskId = some k)
    (hmarker : Maps.get s.byMessageCorrelation k ≠ none) :
    Lasts (s.touchReplayMarker c taskId nowMs) k (nowMs + c.taskTtlMs) := by
  unfold TaskStore.touchReplayMarker
  rw [hkey]
  dsimp only
  split
  · next hnone => exact absurd hnone hmarker
  · exact ⟨_, Maps.get_set_self, le_refl _⟩

theorem Marked.touch (h : Marked s) (taskId : JsString) (nowMs : ℤ) :
    Marked (s.touchReplayMarker c taskId nowMs) := by
  have htasks := (tasks_touch (s := s) (c := c) taskId nowMs).1
  have hkeys : (s.touchReplayMarker c taskId nowMs).messageCorrelationByTaskId = _ :=
    touch_correlation
  refine ⟨?_, ?_, nodup_touch h.markers, ?_, ?_, ?_⟩
  · exact fun id task hget => h.keyed id task (htasks ▸ hget)
  · exact htasks ▸ h.tasks
  · exact fun id task hget => hkeys ▸ h.correlation id task (htasks ▸ hget)
  · exact fun id key hc => htasks ▸ h.stored id key (hkeys ▸ hc)
  · exact fun id id' task task' key hget hget' =>
      h.single id id' task task' key (htasks ▸ hget) (htasks ▸ hget')

/-! ### Mutators -/

/-- The tasks of a store in which one has turned. -/
theorem get_put (hturns : t.Turns nowMs t') (hid : t.id = taskId) :
    Maps.get (s.put t').tasks id = if taskId = id then some t' else Maps.get s.tasks id := by
  rw [TaskStore.put, hturns.id, hid, Maps.get_set]

theorem Marked.put (h : Marked s) (hget : Maps.get s.tasks taskId = some t)
    (hturns : t.Turns nowMs t') : Marked (s.put t') := by
  have hid := h.keyed taskId t hget
  -- a stored task has the key that the task at its id had before
  have hback : ∀ {id : JsString} {task' : Task}, Maps.get (s.put t').tasks id = some task' →
      ∃ task, Maps.get s.tasks id = some task ∧ task'.key = task.key ∧ task'.id = task.id := by
    intro id task' hget'
    rw [get_put hturns hid] at hget'
    split at hget'
    · next heq =>
      cases hget'
      exact ⟨t, heq ▸ hget, hturns.key, hturns.id⟩
    · exact ⟨task', hget', rfl, rfl⟩
  refine ⟨?_, Maps.nodup_set h.tasks, h.markers, ?_, ?_, ?_⟩
  · intro id task' hget'
    obtain ⟨task, htask, -, hid'⟩ := hback hget'
    exact hid'.trans (h.keyed id task htask)
  · intro id task' hget'
    obtain ⟨task, htask, hkey, -⟩ := hback hget'
    exact hkey ▸ h.correlation id task htask
  · intro id key hc
    obtain ⟨task, htask⟩ := h.stored id key hc
    by_cases heq : taskId = id
    · exact ⟨t', by rw [get_put hturns hid, if_pos heq]⟩
    · exact ⟨task, by rw [get_put hturns hid, if_neg heq]; exact htask⟩
  · intro id id' task task' key htask htask' hk hk'
    obtain ⟨task₁, h₁, hk₁, -⟩ := hback htask
    obtain ⟨task₂, h₂, hk₂, -⟩ := hback htask'
    exact h.single id id' task₁ task₂ key h₁ h₂ (hk₁ ▸ hk) (hk₂ ▸ hk')

/-- Every stored task was modified at `now` or before. -/
def Past (now : ℤ) (s : TaskStore) : Prop :=
  ∀ (id : JsString) (task : Task), Maps.get s.tasks id = some task → task.lastModified ≤ now

variable {guarded : Prop} {touched : JsString → Prop} {request : Option JsString}

/-- A store with the tasks of another, or fewer. -/
def Within (s s' : TaskStore) : Prop :=
  ∀ (id : JsString) (task' : Task), Maps.get s'.tasks id = some task' →
    ∃ task, Maps.get s.tasks id = some task

/-- What a mutator leaves of the invariants and of a guard. -/
theorem Mutates.timely (hs : Mutates c guarded touched request nowMs s s') (h : Marked s)
    (hl : ∀ floor, Lasting c floor s) (hpast : Past now s) (hnow : now ≤ nowMs) :
    Marked s' ∧ (∀ floor, Lasting c floor s') ∧ Past nowMs s' ∧ Within s s' ∧
      ∀ k m, Guarded c k m s → m ≤ now → Guarded c k m s' := by
  cases hs with
  | idle => exact ⟨h, hl, fun id task hget => (hpast id task hget).trans hnow,
      fun id task hget => ⟨task, hget⟩, fun _ _ hg _ => hg⟩
  | @update taskId t t' requests hget hturns hlive htouched hrequests =>
    have hid := h.keyed taskId t hget
    have hid' : t'.id = taskId := hturns.id.trans hid
    have hput : Marked ({ s with byTruynRequestId := requests }.put t') := by
      have hrecord : Marked { s with byTruynRequestId := requests } := { h with }
      exact hrecord.put hget hturns
    have hback : ∀ {id : JsString} {task' : Task},
        Maps.get ({ s with byTruynRequestId := requests }.update c t' nowMs).tasks id = some task' →
        (id = taskId ∧ task' = t') ∨ Maps.get s.tasks id = some task' := by
      intro id task' hget'
      rw [TaskStore.update, (tasks_touch _ _).1, get_put hturns hid] at hget'
      split at hget'
      · next heq => exact .inl ⟨heq.symm, (Option.some.inj hget').symm⟩
      · exact .inr hget'
    refine ⟨hput.touch _ _, ?_, ?_, ?_, ?_⟩
    · intro floor id task' key hget' hfloor hkey
      rcases hback hget' with ⟨rfl, rfl⟩ | hold
      · -- the task that turned: its marker is there, and is touched now
        obtain ⟨marker, hmarker, -⟩ := hl _ id t key hget (le_refl _) (hturns.key ▸ hkey)
        rw [hturns.lastModified]
        refine lasts_touch_self ?_ ?_
        · rw [hid']
          exact (h.correlation id t hget).trans (hturns.key ▸ hkey)
        · exact fun hnone => by
            rw [show Maps.get s.byMessageCorrelation key = none from hnone] at hmarker
            cases hmarker
      · refine Lasts.touch (hl floor id task' key hold hfloor hkey) fun _ => ?_
        have hle := hpast id task' hold
        omega
    · intro id task' hget'
      rcases hback hget' with ⟨rfl, rfl⟩ | hold
      · exact hturns.lastModified.le
      · exact (hpast id task' hold).trans hnow
    · intro id task' hget'
      rcases hback hget' with ⟨rfl, -⟩ | hold
      · exact ⟨t, hget⟩
      · exact ⟨task', hold⟩
    · intro k m hg hm
      refine ⟨Lasts.touch hg.lasts fun _ => by omega, fun id task' hget' hkey => ?_⟩
      rcases hback hget' with ⟨rfl, rfl⟩ | hold
      · rw [hturns.lastModified]
        exact hm.trans hnow
      · exact hg.modified id task' hold hkey

/-! ### Creating -/

theorem create_key (a : CreateArgs) : a.task.key = a.key := rfl

/-- A new task takes its key, which no marker held. -/
theorem Marked.adds (s' : TaskStore) (h : Marked s) (hl : ∀ floor, Lasting c floor s)
    (hfree : ∀ key, a.key = some key → Maps.get s.byMessageCorrelation key = none)
    (htasks : s'.tasks = Maps.set a.taskUuid a.task s.tasks)
    (hkeys : ∀ id, Maps.get s'.messageCorrelationByTaskId id =
      if a.taskUuid = id then a.key else Maps.get s.messageCorrelationByTaskId id)
    (hmarkers : (s'.byMessageCorrelation.map Prod.fst).Nodup)
    (hold : ∀ key expiry, Lasts s key expiry → Lasts s' key expiry)
    (hmarker : ∀ key, a.key = some key → Lasts s' key (a.createdAtMs + c.taskTtlMs)) :
    Marked s' ∧ ∀ floor, Lasting c floor s' := by
  have hback : ∀ {id : JsString} {task : Task}, Maps.get s'.tasks id = some task →
      (id = a.taskUuid ∧ task = a.task) ∨ (a.taskUuid ≠ id ∧ Maps.get s.tasks id = some task) := by
    intro id task hget
    rw [htasks, Maps.get_set] at hget
    split at hget
    · next heq => exact .inl ⟨heq.symm, (Option.some.inj hget).symm⟩
    · next hne => exact .inr ⟨hne, hget⟩
  have hother : ∀ {id : JsString} {task : Task} {key : CorrelationKey},
      Maps.get s.tasks id = some task → task.key = some key → a.key ≠ some key := by
    intro id task key hget hkey hakey
    obtain ⟨marker, hm, -⟩ := hl _ id task key hget (le_refl _) hkey
    rw [hfree key hakey] at hm
    cases hm
  constructor
  · refine ⟨?_, htasks ▸ Maps.nodup_set h.tasks, hmarkers, ?_, ?_, ?_⟩
    · intro id task hget
      rcases hback hget with ⟨rfl, rfl⟩ | ⟨-, hget⟩
      · rfl
      · exact h.keyed id task hget
    · intro id task hget
      rw [hkeys]
      rcases hback hget with ⟨rfl, rfl⟩ | ⟨hne, hget⟩
      · exact if_pos rfl
      · rw [if_neg hne]
        exact h.correlation id task hget
    · intro id key hc
      rw [hkeys] at hc
      rw [htasks, Maps.get_set]
      by_cases heq : a.taskUuid = id
      · exact ⟨a.task, if_pos heq⟩
      · rw [if_neg heq] at hc ⊢
        exact h.stored id key hc
    · intro id id' task task' key hget hget' hkey hkey'
      rcases hback hget with ⟨rfl, rfl⟩ | ⟨-, hget⟩ <;>
        rcases hback hget' with ⟨rfl, rfl⟩ | ⟨-, hget'⟩
      · rfl
      · exact absurd hkey (hother hget' hkey')
      · exact absurd hkey' (hother hget hkey)
      · exact h.single id id' task task' key hget hget' hkey hkey'
  · intro floor id task key hget hfloor hkey
    rcases hback hget with ⟨rfl, rfl⟩ | ⟨-, hget⟩
    · exact hmarker key hkey
    · exact hold key _ (hl floor id task key hget hfloor hkey)

theorem prune_past (hpast : Past now s) : Past now (s.prune c nowMs).1 := by
  intro id task hget
  obtain ⟨task', hget', heq | ⟨hf, -⟩⟩ :=
    (evolves_prune (fun _ => False) nowMs).tasks id task hget
  · exact heq ▸ hpast id task' hget'
  · exact hf.elim

/-- The ways in which `create` ends, after it has pruned. -/
inductive Creates (c : Config) (p : TaskStore) (a : CreateArgs) :
    TaskStore × Except CreateError Task → Prop
  | refused {e : CreateError} : Creates c p a (p, .error e)
  | plain (hkey : a.key = none) : Creates c p a (p.put a.task, .ok a.task)
  | marked {key : CorrelationKey} (hkey : a.key = some key)
      (hfree : Maps.get p.byMessageCorrelation key = none) :
      Creates c p a ({ p.put a.task with
        byMessageCorrelation := Maps.set key ⟨a.taskUuid, a.createdAtMs + c.taskTtlMs⟩
          p.byMessageCorrelation
        messageCorrelationByTaskId := Maps.set a.taskUuid key p.messageCorrelationByTaskId },
        .ok a.task)

theorem create_cases (a : CreateArgs) : Creates c (s.prune c a.pruneMs).1 a (s.create c a) := by
  unfold TaskStore.create
  generalize s.prune c a.pruneMs = p
  obtain ⟨p, room⟩ := p
  cases room with
  | false => exact .refused
  | true =>
    dsimp only
    split
    · next hkey => exact .plain hkey
    · next key hkey =>
      split
      · exact .refused
      · next hfree =>
        split
        · exact .refused
        · exact .marked hkey (by simpa using hfree)

theorem Lasts.set {key : CorrelationKey} {marker : ReplayMarker} (hl : Lasts s k expiry)
    (hfree : Maps.get s.byMessageCorrelation key = none)
    (hs : s'.byMessageCorrelation = Maps.set key marker s.byMessageCorrelation) :
    Lasts s' k expiry := by
  obtain ⟨old, hold, hexpires⟩ := hl
  have hne : key ≠ k := by
    rintro rfl
    rw [hfree] at hold
    cases hold
  exact ⟨old, by rw [hs, Maps.get_set_ne hne]; exact hold, hexpires⟩

/-- A creation keeps the invariants, and every guard. -/
theorem Creates.timely {r : TaskStore × Except CreateError Task} (hr : Creates c s a r)
    (h : Marked s) (hl : ∀ floor, Lasting c floor s) (hnew : Maps.get s.tasks a.taskUuid = none) :
    Marked r.1 ∧ (∀ floor, Lasting c floor r.1) ∧ ∀ k m, Guarded c k m s → Guarded c k m r.1 := by
  cases hr with
  | refused => exact ⟨h, hl, fun _ _ hg => hg⟩
  | plain hkey =>
    have hkeys : ∀ id, Maps.get s.messageCorrelationByTaskId id =
        if a.taskUuid = id then a.key else Maps.get s.messageCorrelationByTaskId id := by
      intro id
      split
      · next heq =>
        subst heq
        cases hc : Maps.get s.messageCorrelationByTaskId a.taskUuid with
        | none => exact hkey.symm
        | some key =>
          obtain ⟨task, hget⟩ := h.stored _ key hc
          rw [hnew] at hget
          cases hget
      · rfl
    have hnokey : ∀ {key : CorrelationKey}, a.key ≠ some key := by simp [hkey]
    obtain ⟨hm, hlasting⟩ := h.adds (s.put a.task) hl (fun key hk => absurd hk hnokey)
      rfl hkeys h.markers (fun _ _ hlasts => hlasts) (fun key hk => absurd hk hnokey)
    refine ⟨hm, hlasting, fun k m hg => ⟨hg.lasts, fun id task hget htask => ?_⟩⟩
    rw [TaskStore.put, Maps.get_set] at hget
    split at hget
    · cases hget
      rw [create_key, hkey] at htask
      cases htask
    · exact hg.modified id task hget htask
  | @marked key hkey hfree =>
    have hkeys : ∀ id, Maps.get (Maps.set a.taskUuid key s.messageCorrelationByTaskId) id =
        if a.taskUuid = id then a.key else Maps.get s.messageCorrelationByTaskId id := by
      intro id
      rw [Maps.get_set, hkey]
    have hothers : ∀ k expiry, Lasts s k expiry → Lasts { s.put a.task with
        byMessageCorrelation := Maps.set key ⟨a.taskUuid, a.createdAtMs + c.taskTtlMs⟩
          s.byMessageCorrelation
        messageCorrelationByTaskId := Maps.set a.taskUuid key s.messageCorrelationByTaskId }
        k expiry := fun k expiry hlasts => hlasts.set hfree rfl
    have hunheld : ∀ k, a.key = some k → Maps.get s.byMessageCorrelation k = none := by
      intro k hk
      cases hkey.symm.trans hk
      exact hfree
    obtain ⟨hm, hlasting⟩ := h.adds _ hl hunheld rfl hkeys (Maps.nodup_set h.markers)
      hothers fun k hk => by
        cases hkey.symm.trans hk
        exact ⟨_, Maps.get_set_self, le_refl _⟩
    refine ⟨hm, hlasting, fun k m hg => ⟨hothers k _ hg.lasts, fun id task hget htask => ?_⟩⟩
    rw [TaskStore.put, Maps.get_set] at hget
    split at hget
    · cases hget
      obtain ⟨marker, hmarker, -⟩ := hg.lasts
      cases hkey.symm.trans htask
      rw [hfree] at hmarker
      cases hmarker
    · exact hg.modified id task hget htask

/-- A guarded key is refused. -/
theorem create_refused (h : Marked s) (hg : Guarded c k m s) (hkey : a.key = some k)
    (hle : a.pruneMs ≤ m + c.taskTtlMs) : (s.create c a).2 = .error .messageIdReplay ∨
      (s.create c a).2 = .error .taskCapacity := by
  obtain ⟨marker, hmarker, -⟩ := (hg.prune h hle).lasts
  unfold TaskStore.create
  generalize s.prune c a.pruneMs = p at *
  obtain ⟨p, room⟩ := p
  cases room with
  | false => exact .inr rfl
  | true =>
    left
    simp only [hkey]
    rw [if_pos (by rw [hmarker]; rfl)]

/-! ### Runs -/

/-- The clock after a call that reads it; `none` where it would go back. -/
def Op.clock (now : ℤ) : Op → Option ℤ
  | .create a => if now ≤ a.pruneMs ∧ a.pruneMs ≤ a.createdAtMs then some a.createdAtMs else none
  | .prune t | .start _ _ t | .reject _ _ _ t | .cancel _ _ _ t | .touchReplayMarker _ t =>
    if now ≤ t then some t else none
  | .completeResult _ _ d | .completeFromTruynEvent _ d | .recordCompactEvent _ d =>
    if now ≤ d.nowMs then some d.nowMs else none
  | .delete _ _ => some now

/-- A call that does not forget the marker of a task on purpose. -/
def Op.Remembers : Op → Prop
  | .delete _ forgetCorrelation => forgetCorrelation = false
  | _ => True

/-- Calls in any order, while the clock does not go back. -/
inductive TimedRuns (H : Host) (c : Config) : World → ℤ → World → ℤ → Prop
  | refl {w : World} {now : ℤ} : TimedRuns H c w now w now
  | step {w w' w'' : World} {now now' now'' : ℤ} {o : Op} : TimedRuns H c w now w' now' →
      o.Remembers → o.clock now' = some now'' → step H c w' o = some w'' →
      TimedRuns H c w now w'' now''

structure Timely (c : Config) (w : World) (now : ℤ) : Prop where
  marked : Marked w.store
  lasting : ∀ floor, Lasting c floor w.store
  past : Past now w.store
  issued : ∀ (id : JsString) (task : Task), Maps.get w.store.tasks id = some task → id ∈ w.issued

/-- What a call passes on: a guard whose time is not over. -/
def Guards (c : Config) (w : World) (now : ℤ) (w' : World) (now' : ℤ) : Prop :=
  now ≤ now' ∧ ∀ k m, Guarded c k m w.store → m ≤ now → now' ≤ m + c.taskTtlMs →
    Guarded c k m w'.store

theorem Timely.init : Timely c .init now where
  marked := {
    keyed := fun _ _ h => by cases h
    tasks := .nil
    markers := .nil
    correlation := fun _ _ h => by cases h
    stored := fun _ _ h => by cases h
    single := fun _ _ _ _ _ h => by cases h }
  lasting := fun _ _ _ _ h => by cases h
  past := fun _ _ h => by cases h
  issued := fun _ _ h => by cases h

theorem Timely.mutates (h : Timely c w now)
    (hs : Mutates c guarded touched request nowMs w.store w'.store) (hissued : w'.issued = w.issued)
    (hnow : now ≤ nowMs) : Timely c w' nowMs ∧ Guards c w now w' nowMs := by
  obtain ⟨hm, hl, hp, hw, hg⟩ := hs.timely h.marked h.lasting h.past hnow
  refine ⟨⟨hm, hl, hp, fun id task hget => ?_⟩, hnow, fun k m hk hle _ => hg k m hk hle⟩
  obtain ⟨task', hget'⟩ := hw id task hget
  exact hissued ▸ h.issued id task' hget'

theorem Timely.idle (h : Timely c w now) (hnow : now ≤ nowMs) :
    Timely c w nowMs ∧ Guards c w now w nowMs :=
  ⟨{ h with past := fun id task hget => (h.past id task hget).trans hnow },
    hnow, fun _ _ hg _ _ => hg⟩

theorem Timely.creates (h : Timely c w now) (hnow : now ≤ a.pruneMs)
    (hle : a.pruneMs ≤ a.createdAtMs) (hnew : a.taskUuid ∉ w.issued) :
    Timely c ⟨(w.store.create c a).1, a.taskUuid :: w.issued, a.taskUuid :: w.fresh⟩ a.createdAtMs ∧
      Guards c w now ⟨(w.store.create c a).1, a.taskUuid :: w.issued, a.taskUuid :: w.fresh⟩
        a.createdAtMs := by
  have hpruned : ∀ id task, Maps.get (w.store.prune c a.pruneMs).1.tasks id = some task →
      task.lastModified ≤ now ∧ id ∈ w.issued := by
    intro id task hget
    obtain ⟨task', hget', heq | ⟨hf, -⟩⟩ :=
      (evolves_prune (fun _ => False) a.pruneMs).tasks id task hget
    · exact heq ▸ ⟨h.past id task' hget', h.issued id task' hget'⟩
    · exact hf.elim
  have hgone : Maps.get (w.store.prune c a.pruneMs).1.tasks a.taskUuid = none := by
    cases hget : Maps.get (w.store.prune c a.pruneMs).1.tasks a.taskUuid with
    | none => rfl
    | some task => exact absurd (hpruned _ task hget).2 hnew
  obtain ⟨hm, hl⟩ := prune_marked h.marked h.lasting a.pruneMs
  obtain ⟨hm', hl', hg⟩ := (create_cases a).timely hm hl hgone
  refine ⟨⟨hm', hl', fun id task hget => ?_, fun id task hget => ?_⟩, hnow.trans hle,
    fun k m hk _ htime => hg k m (hk.prune h.marked (hle.trans htime))⟩
  · rcases create_tasks hget with ⟨-, rfl⟩ | hget
    · exact le_refl _
    · exact ((hpruned id task hget).1.trans hnow).trans hle
  · rcases create_tasks hget with ⟨rfl, -⟩ | hget
    · exact List.mem_cons_self
    · exact List.mem_cons_of_mem _ (hpruned id task hget).2

/-- STEP: the invariant holds at the new time, and guards are passed on. -/
theorem timely_step {o : Op} {now' : ℤ} (h : Timely c w now) (hr : o.Remembers)
    (hc : o.clock now = some now') (hs : step H c w o = some w') :
    Timely c w' now' ∧ Guards c w now w' now' := by
  have hclock : ∀ {nowMs : ℤ}, (if now ≤ nowMs then some nowMs else none) = some now' →
      now ≤ nowMs ∧ nowMs = now' := by
    intro nowMs hc
    split at hc
    · next hle => exact ⟨hle, Option.some.inj hc⟩
    · cases hc
  cases o with
  | create a =>
    simp only [step] at hs
    split at hs
    · cases hs
    · next hnew =>
      cases hs
      simp only [Op.clock] at hc
      split at hc
      · next hle =>
        cases hc
        exact h.creates hle.1 hle.2 hnew
      · cases hc
  | prune nowMs =>
    cases hs
    obtain ⟨hnow, rfl⟩ := hclock hc
    obtain ⟨hm, hl⟩ := prune_marked h.marked h.lasting nowMs
    refine ⟨⟨hm, hl, fun id task hget => (prune_past h.past id task hget).trans hnow,
      fun id task hget => ?_⟩, hnow, fun k m hk _ htime => hk.prune h.marked htime⟩
    obtain ⟨task', hget', -⟩ := (evolves_prune (fun _ => False) nowMs).tasks id task hget
    exact h.issued id task' hget'
  | start taskId a nowMs =>
    obtain ⟨hnow, rfl⟩ := hclock hc
    simp only [step] at hs
    split at hs
    · next store hstart =>
      cases hs
      exact h.mutates (mutates_start hstart) rfl hnow
    · cases hs
      exact h.idle hnow
  | reject taskId message uuid nowMs =>
    obtain ⟨hnow, rfl⟩ := hclock hc
    simp only [step] at hs
    split at hs
    · next store hreject =>
      cases hs
      exact h.mutates (mutates_reject hreject) rfl hnow
    · cases hs
      exact h.idle hnow
  | cancel taskId message uuid nowMs =>
    obtain ⟨hnow, rfl⟩ := hclock hc
    cases hs
    exact h.mutates (mutates_cancel taskId message uuid nowMs) rfl hnow
  | completeResult taskId r d =>
    obtain ⟨hnow, rfl⟩ := hclock hc
    simp only [step] at hs
    split at hs
    · next task hget =>
      cases hs
      exact h.mutates (mutates_completeResult (fun _ => True) hget trivial r d) rfl hnow
    · cases hs
      exact h.idle hnow
  | completeFromTruynEvent event d =>
    obtain ⟨hnow, rfl⟩ := hclock hc
    cases hs
    exact h.mutates (mutates_completeFromTruynEvent event d) rfl hnow
  | recordCompactEvent event d =>
    obtain ⟨hnow, rfl⟩ := hclock hc
    cases hs
    exact h.mutates (mutates_recordCompactEvent event d) rfl hnow
  | delete taskId forgetCorrelation =>
    cases hc
    cases hs
    obtain rfl : forgetCorrelation = false := hr
    have hsub := (evolves_delete (s := w.store) (fun _ => False) taskId false).tasks
    refine ⟨⟨h.marked.delete _ _, fun floor => (h.lasting floor).delete h.marked _ _,
      fun id task hget => ?_, fun id task hget => ?_⟩, le_refl _,
      fun k m hk _ _ => hk.delete h.marked _ _ fun hf => (by cases hf)⟩
    · obtain ⟨task', hget', heq | ⟨hf, -⟩⟩ := hsub id task hget
      · exact heq ▸ h.past id task' hget'
      · exact hf.elim
    · obtain ⟨task', hget', -⟩ := hsub id task hget
      exact h.issued id task' hget'
  | touchReplayMarker taskId nowMs =>
    obtain ⟨hnow, rfl⟩ := hclock hc
    cases hs
    have htasks := (tasks_touch (s := w.store) (c := c) taskId nowMs).1
    refine ⟨⟨h.marked.touch _ _, fun floor id task key hget hfloor hkey => ?_,
      fun id task hget => ?_, fun id task hget => h.issued id task (htasks ▸ hget)⟩, hnow,
      fun k m hk hle _ => ⟨hk.lasts.touch fun _ => by omega,
        fun id task hget => hk.modified id task (htasks ▸ hget)⟩⟩
    · have hget' := htasks ▸ hget
      refine (h.lasting floor id task key hget' hfloor hkey).touch fun _ => ?_
      have hle := h.past id task hget'
      omega
    · exact (h.past id task (htasks ▸ hget)).trans hnow

/-- RUN: guards are passed on. -/
theorem timely_run {now' : ℤ} (h : Timely c w now) (hr : TimedRuns H c w now w' now') :
    Timely c w' now' ∧ Guards c w now w' now' := by
  induction hr with
  | refl => exact h.idle (le_refl _)
  | step _ hremembers hclock hs ih =>
    obtain ⟨hmid, hle, hguards⟩ := ih h
    obtain ⟨hend, hle', hguards'⟩ := timely_step hmid hremembers hclock hs
    refine ⟨hend, hle.trans hle', fun k m hk hm htime => ?_⟩
    exact hguards' k m (hguards k m hk hm (hle'.trans htime)) (hm.trans hle) htime

/-- A message whose task was modified at `lastModified` is refused until `lastModified + taskTtlMs`,
    whatever has happened to the task since: as a replay, or because the store is full of tasks that
    are not finished. -/
theorem replay_refused (id : JsString) {now' : ℤ} {task : Task} {key : CorrelationKey}
    (a : CreateArgs) (hw : TimedRuns H c .init now w nowMs) (hget : Maps.get w.store.tasks id = some task)
    (hkey : task.key = some key) (hw' : TimedRuns H c w nowMs w' now') (ha : a.key = some key)
    (hfrom : now' ≤ a.pruneMs) (htill : a.pruneMs ≤ task.lastModified + c.taskTtlMs) :
    (w'.store.create c a).2 = .error .messageIdReplay ∨
      (w'.store.create c a).2 = .error .taskCapacity := by
  obtain ⟨h, -⟩ := timely_run Timely.init hw
  obtain ⟨h', -, hguards⟩ := timely_run h hw'
  have hguarded : Guarded c key task.lastModified w.store := by
    refine ⟨h.lasting _ id task key hget (le_refl _) hkey, fun id' task' hget' hkey' => ?_⟩
    obtain rfl := h.marked.single id id' task task' key hget hget' hkey hkey'
    cases hget.symm.trans hget'
    exact le_refl _
  have hheld := hguards key task.lastModified hguarded (h.past id task hget) (hfrom.trans htill)
  exact create_refused h'.marked hheld ha htill

/-- A request of the sample owner, with this message id, task UUID and time. -/
def sampleAt (messageId taskUuid : UInt16) (ms : ℤ) : CreateArgs :=
  { sampleCreate with
    message := .object [(js "messageId", .string [messageId])]
    taskUuid := [taskUuid]
    pruneMs := ms
    createdAtMs := ms }

/-- A task is rejected, and is evicted by two others; its message comes again. -/
theorem replay_refused_evicted : ∃ w : World, Maps.get w.store.tasks [3] = none ∧
    ((w.store.create sampleConfig (sampleAt 7 9 500)).2 = .error .messageIdReplay ∨
      (w.store.create sampleConfig (sampleAt 7 9 500)).2 = .error .taskCapacity) := by
  have hrejected : TimedRuns sampleHost sampleConfig .init 0 _ 0 :=
    .step (o := .reject [3] .null [5] 0) (.step (o := .create (sampleAt 7 3 0)) .refl trivial rfl rfl)
      trivial rfl rfl
  have hevicted := replay_refused [3] (sampleAt 7 9 500) hrejected rfl rfl
    (.step (o := .create (sampleAt 8 6 2)) (.step (o := .create (sampleAt 9 5 1)) .refl trivial rfl
      rfl) trivial rfl rfl) rfl (by decide) (by decide)
  exact ⟨_, by rfl, hevicted⟩

/-- A working task is forgotten after the TTL and its message is taken again; and while a store is
    full of unfinished tasks, a message that comes again is not told to be a replay. -/
theorem live_message_taken_again :
    (∃ (w : World) (task task' : Task), TimedRuns sampleHost sampleConfig .init 0 w 0 ∧
      Maps.get w.store.tasks [3] = some task ∧ task.status.state = .working ∧
      task.key = (sampleAt 7 9 2000).key ∧ task.key ≠ none ∧
      (w.store.create sampleConfig (sampleAt 7 9 2000)).2 = .ok task') ∧
    ∃ (w : World) (task : Task), TimedRuns sampleHost sampleConfig .init 0 w 0 ∧
      Maps.get w.store.tasks [3] = some task ∧ ¬task.status.state.terminal ∧
      task.key = (sampleAt 7 9 1).key ∧ task.key ≠ none ∧
      (w.store.create sampleConfig (sampleAt 7 9 1)).2 = .error .taskCapacity := by
  constructor
  · have hstarted : TimedRuns sampleHost sampleConfig .init 0 _ 0 :=
      .step (o := .start [3] ⟨[8], .null, .null⟩ 0)
        (.step (o := .create (sampleAt 7 3 0)) .refl trivial rfl rfl) trivial rfl rfl
    exact ⟨_, _, _, hstarted, rfl, rfl, rfl, nofun, rfl⟩
  · have hfull : TimedRuns sampleHost sampleConfig .init 0 _ 0 :=
      .step (o := .create (sampleAt 8 6 0))
        (.step (o := .create (sampleAt 7 3 0)) .refl trivial rfl rfl) trivial rfl rfl
    exact ⟨_, _, hfull, rfl, nofun, rfl, nofun, rfl⟩

end Truyn.A2a
