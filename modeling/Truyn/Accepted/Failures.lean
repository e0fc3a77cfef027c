import Truyn.Accepted.Once

/-! accepted:failures | what a failed write leaves behind

    All writes are chained on one promise, and when one has failed none is tried again. So an inbox is
    as it should be in a whole run just when no write fails (`atomic_iff`). -/

namespace Truyn.Accepted
open Trust (Value)

/-! ### What is wanted -/

/-- `n` writes go through. -/
def flush : ℕ → List Event
  | 0 => []
  | n + 1 => .stringify :: .write true :: flush n

/-- A call of `accept`, with all writes before it and its own going through. -/
def acceptance (s : Inbox) (envelope : Envelope) (context : Value) (now : JsString) : List Event :=
  .callAccept envelope context :: .resume s.tasks.length now ::
    (flush (s.writes.length + 1) ++ [.resume s.tasks.length now])

structure Atomic (H : Host) (s : Inbox) : Prop where
  /-- New work is accepted, and is in the file, if its write goes through. -/
  accepted : ∀ envelope context now, s.loaded = true → envelope.id.isEmpty = false →
    s.record envelope.id = none → ∃ s' copy call work,
      replay H s (acceptance s envelope context now) = some s' ∧
      s'.tasks[s.tasks.length]? = some (.returned copy call) ∧
      s'.file.record envelope.id = some work ∧ work.envelope = envelope ∧ work.status = .pending
  /-- An `accept` that rejects leaves no record. -/
  withdrawn : ∀ t now entry call s',
    s.tasks[t]? = some (.writing (some false) (.accepted entry) call) →
    step H s (.resume t now) = some s' → ∀ id, Maps.get s'.entries id ≠ some entry
  /-- An execution that ends at its first write is not in flight any more. -/
  released : ∀ t now id entry recovered execution call s',
    s.tasks[t]? = some (.writing (some false) (.marking id entry recovered execution) call) →
    step H s (.resume t now) = some s' → Maps.get s'.inFlight id ≠ some execution
  /-- What is recorded as completed stays so when that cannot be written. -/
  preserved : ∀ t now id execution call s',
    s.tasks[t]? = some (.writing (some false) (.completing id execution) call) →
    step H s (.resume t now) = some s' → ∀ work, s.record id = some work →
    work.status = .completed → ∃ work', s'.record id = some work' ∧ work'.status = .completed

variable {H : Host} {s s' : Inbox} {t : ℕ} {task : Task} {call : Call} {id : JsString}

/-! ### Places of records -/

/-- Each record is where the map says. -/
structure Stored (s : Inbox) : Prop where
  nodup : (s.entries.map Prod.fst).Nodup
  objects : ∀ p ∈ s.entries, ∃ work, s.objects[p.2]? = some work ∧ work.id = p.1

/-- A file that was written from the map has the records of the map. -/
theorem record_of_written (h : Stored s) (id : JsString) :
    (Content.entries ((s.entries.map Prod.snd).map fun e => s.objects[e]?)).record id =
      s.record id := by
  have hall : ∀ o ∈ (s.entries.map Prod.snd).map fun e => s.objects[e]?, o.isSome = true := by
    intro o ho
    obtain ⟨e, he, rfl⟩ := List.mem_map.mp ho
    obtain ⟨p, hp, rfl⟩ := List.mem_map.mp he
    obtain ⟨work, hw, -⟩ := h.objects p hp
    simp [hw]
  have hmem : ∀ work, work ∈ ((s.entries.map Prod.snd).map fun e => s.objects[e]?).reduceOption ↔
      ∃ p ∈ s.entries, s.objects[p.2]? = some work := by
    intro work
    simp [List.reduceOption_mem_iff]
  rw [Content.record, Content.valid, List.takeWhile_eq_self_iff.mpr hall]
  cases hget : Maps.get s.entries id with
  | none =>
    rw [Inbox.record, hget, Option.bind_none, List.find?_eq_none]
    intro work hwork
    obtain ⟨p, hp, hobject⟩ := (hmem work).mp (List.mem_reverse.mp hwork)
    obtain ⟨work', hw', hid⟩ := h.objects p hp
    obtain rfl : work' = work := Option.some.inj (hw'.symm.trans hobject)
    intro heq
    have hkey : p.1 = id := hid.symm.trans (of_decide_eq_true heq)
    rw [← hkey, Maps.get_of_mem h.nodup hp] at hget
    cases hget
  | some e =>
    obtain ⟨work, hw, hid⟩ := h.objects _ (Maps.mem_of_get hget)
    rw [Inbox.record, hget, Option.bind_some, hw]
    have hin := (hmem work).mpr ⟨_, Maps.mem_of_get hget, hw⟩
    have hid : work.id = id := hid
    obtain ⟨work', hfind⟩ := Option.isSome_iff_exists.mp
      ((List.find?_isSome (p := fun w : Work => decide (w.id = id))).mpr
        ⟨work, List.mem_reverse.mpr hin, decide_eq_true hid⟩)
    obtain ⟨p, hp, hobject⟩ := (hmem work').mp (List.mem_reverse.mp (List.mem_of_find?_eq_some hfind))
    obtain ⟨work'', hw'', hid''⟩ := h.objects p hp
    obtain rfl : work'' = work' := Option.some.inj (hw''.symm.trans hobject)
    have hkey : p.1 = id := by simpa [hid''] using List.find?_some hfind
    have hplace : p.2 = e :=
      Option.some.inj ((Maps.get_of_mem h.nodup hp).symm.trans (hkey ▸ hget))
    rw [hfind, ← hobject, hplace, hw]

/-! ### Steps in which no write fails -/

/-- The task has not seen a failed write. -/
def Task.unfailed : Task → Bool
  | .writing (some false) _ _ => false
  | _ => true

/-- What a step does, unless it is a write that fails. -/
structure Tame (s s' : Inbox) : Prop where
  loaded : s.loaded = true → s'.loaded = true
  broken : s'.broken = s.broken
  stored : Stored s → Stored s'
  tasks : ∀ task ∈ s'.tasks, task ∈ s.tasks ∨ task.unfailed = true

theorem Tame.refl (s : Inbox) : Tame s s := ⟨id, rfl, id, fun _ h => .inl h⟩

theorem Tame.trans {u : Inbox} (h : Tame s s') (h' : Tame s' u) : Tame s u where
  loaded hs := h'.loaded (h.loaded hs)
  broken := h'.broken.trans h.broken
  stored hs := h'.stored (h.stored hs)
  tasks task htask := (h'.tasks task htask).elim (h.tasks task) .inr

/-- The records stay where they are, and the tasks but for one. -/
theorem tame_of_same (hloaded : s'.loaded = s.loaded) (hbroken : s'.broken = s.broken)
    (hentries : s'.entries = s.entries) (hobjects : s'.objects = s.objects)
    (htasks : s'.tasks = s.tasks ∨ s'.tasks = s.tasks.set t task) (htask : task.unfailed = true) :
    Tame s s' where
  loaded := (hloaded ▸ ·)
  broken := hbroken
  stored h := ⟨hentries ▸ h.nodup, hentries ▸ hobjects ▸ h.objects⟩
  tasks task' hmem := by
    rcases htasks with heq | heq
    · exact .inl (heq ▸ hmem)
    · rcases List.mem_or_eq_of_mem_set (heq ▸ hmem) with hmem | rfl
      · exact .inl hmem
      · exact .inr htask

theorem tame_of_tasks (hloaded : s'.loaded = s.loaded) (hbroken : s'.broken = s.broken)
    (hentries : s'.entries = s.entries) (hobjects : s'.objects = s.objects)
    (htasks : s'.tasks = s.tasks) : Tame s s' :=
  @tame_of_same _ _ 0 .ended hloaded hbroken hentries hobjects (.inl htasks) rfl

theorem tame_put (htask : task.unfailed = true) : Tame s (s.put t task) :=
  tame_of_same rfl rfl rfl rfl (.inr rfl) htask

theorem tame_persist (stage : Stage) : Tame s (s.persist t stage call) :=
  tame_of_same rfl rfl rfl rfl (.inr rfl) (rfl : Task.unfailed (.writing none stage call) = true)

theorem unfailed_entering (s : Inbox) (call : Call) : (s.entering call).unfailed = true := by
  rw [Inbox.entering]
  cases s.loaded <;> rfl

theorem tame_finish : Tame s (finish s t call) := by
  rw [finish]
  cases call.rest with
  | nil => exact tame_put rfl
  | cons p rest => exact tame_put (unfailed_entering s _)

/-- New objects come behind the old ones. -/
theorem objects_append {work : Work} {l m : List Work} {e : ℕ} (h : l[e]? = some work) :
    (l ++ m)[e]? = some work := by
  rw [List.getElem?_append_left (List.getElem_of_getElem? h).1, h]

theorem tame_alloc (work : Work) : Tame s (s.alloc work) where
  loaded := id
  broken := rfl
  stored h := by
    refine ⟨h.nodup, fun p hp => ?_⟩
    obtain ⟨w, hw, hid⟩ := h.objects p hp
    exact ⟨w, objects_append hw, hid⟩
  tasks _ := .inl

theorem tame_add (work : Work) : Tame s (s.add work) where
  loaded := id
  broken := rfl
  stored h := by
    refine ⟨Maps.nodup_set h.nodup, fun p hp => ?_⟩
    rcases Maps.mem_set hp with rfl | hp
    · exact ⟨work, by simp [Inbox.add], rfl⟩
    · obtain ⟨w, hw, hid⟩ := h.objects p hp
      exact ⟨w, objects_append hw, hid⟩
  tasks _ := .inl

theorem tame_update (entry : ℕ) {f : Work → Work} (hf : ∀ work, (f work).id = work.id) :
    Tame s (s.update entry f) where
  loaded := id
  broken := rfl
  stored h := by
    refine ⟨h.nodup, fun p hp => ?_⟩
    obtain ⟨w, hw, hid⟩ := h.objects p hp
    by_cases he : entry = p.2
    · exact ⟨f w, by simp [Inbox.update, he, hw], (hf w).trans hid⟩
    · exact ⟨w, by simp [Inbox.update, he, hw], hid⟩
  tasks _ := .inl

/-- Some records go. -/
theorem tame_forget {entries : List (JsString × ℕ)} (h : entries.Sublist s.entries) :
    Tame s { s with entries } where
  loaded := id
  broken := rfl
  stored hs := ⟨hs.nodup.sublist (h.map _), fun p hp => hs.objects p (h.subset hp)⟩
  tasks _ := .inl

theorem deleted_sublist (old : List Work) (entries : List (JsString × ℕ)) :
    (old.foldl (fun entries work => Maps.delete work.id entries) entries).Sublist entries := by
  induction old generalizing entries with
  | nil => exact .refl _
  | cons work old ih => exact (ih _).trans List.filter_sublist

theorem tame_trim (H : Host) (s : Inbox) : Tame s (trimCompleted H s) :=
  tame_forget (deleted_sublist _ _)

theorem tame_readInto (s : Inbox) (l : List (Option Work)) : Tame s (readInto s l).1 := by
  induction l generalizing s with
  | nil => exact .refl s
  | cons item l ih =>
    cases item with
    | none => exact .refl s
    | some work => exact (tame_add work).trans (ih (s.add work))

theorem tame_loaded : Tame s { s with loaded := true } where
  loaded _ := rfl
  broken := rfl
  stored h := ⟨h.nodup, h.objects⟩
  tasks _ := .inl

theorem tame_load (content : Content) : Tame s (load s t content call) := by
  have hclear : Tame s { s with entries := [] } := tame_forget (List.nil_sublist _)
  cases content with
  | invalid => exact tame_finish
  | missing => exact (hclear.trans tame_loaded).trans (tame_put rfl)
  | entries l =>
    have hread := hclear.trans (tame_readInto _ l)
    unfold load
    dsimp only
    generalize readInto { s with entries := [] } l = r at hread
    obtain ⟨s', ok⟩ := r
    cases ok with
    | false => exact hread.trans tame_finish
    | true => exact (hread.trans tame_loaded).trans (tame_put rfl)

theorem tame_accept (envelope : Envelope) (context : Value) (now : JsString) :
    Tame s (accept s t envelope context now call) := by
  rw [accept]
  by_cases hid : envelope.id.isEmpty = true
  · rw [if_pos hid]
    exact tame_finish
  · rw [if_neg hid]
    cases s.record envelope.id with
    | some existing => exact (tame_alloc existing).trans (tame_put rfl)
    | none => exact (tame_add _).trans (tame_persist _)

theorem tame_execute (id : JsString) (entry : ℕ) (recovered : Bool) (now : JsString) :
    Tame s (execute s t id entry recovered now call) := by
  have hmark := (tame_update (s := s) entry (f := Work.attempt now) fun _ => rfl).trans
    (@tame_persist _ t call (.marking id entry recovered s.executions.length))
  exact { hmark with stored := fun h => ⟨(hmark.stored h).nodup, (hmark.stored h).objects⟩ }

theorem tame_run (envelope : Envelope) (context : Value) (rest : List (Envelope × Value))
    (now : JsString) : Tame s (run s t envelope context rest now) := by
  rw [run]
  split
  · exact tame_finish
  · exact tame_finish
  · split
    · exact tame_put rfl
    · exact tame_execute _ _ _ _
    · exact tame_put (unfailed_entering s _)

theorem tame_recover : Tame s (recover H s t) := by
  rw [recover]
  split
  · exact tame_put rfl
  · exact tame_put (unfailed_entering s _)

theorem tame_release (id : JsString) (execution : ℕ) : Tame s (release s t id execution call) := by
  have hsettle : Tame s { s with
      inFlight := Maps.delete id s.inFlight
      executions := s.executions.set execution true } :=
    tame_of_tasks rfl rfl rfl rfl rfl
  exact hsettle.trans tame_finish

theorem tame_note (note : Note) : Tame s { s with history := note :: s.history } :=
  tame_of_tasks rfl rfl rfl rfl rfl

theorem tame_failWork (id : JsString) (execution : ℕ) (error : Value) (now : JsString) :
    Tame s (failWork s t id execution error now call) := by
  rw [failWork]
  cases Maps.get s.entries id with
  | none => exact tame_release id execution
  | some entry =>
    have hfail : Tame s (s.update entry (Work.fail (serializedError error) now)) :=
      tame_update entry fun _ => rfl
    exact (hfail.trans (tame_note _)).trans (tame_persist _)

theorem tame_completeWork (id : JsString) (execution : ℕ) (result : Value) (now : JsString) :
    Tame s (completeWork H s t id execution result now call) := by
  rw [completeWork]
  cases Maps.get s.entries id with
  | none => exact tame_release id execution
  | some entry =>
    have hcomplete : Tame s (s.update entry (Work.complete result now)) :=
      tame_update entry fun _ => rfl
    exact ((hcomplete.trans (tame_note _)).trans (tame_trim H _)).trans (tame_persist _)

theorem tame_settle (now : JsString) (ok : Bool) (stage : Stage) :
    Tame s (settle s t now ok call stage) := by
  cases stage with
  | accepted entry =>
    cases ok with
    | false => exact tame_finish
    | true =>
      cases hw : s.objects[entry]? with
      | none =>
        simp only [settle, hw]
        exact tame_finish
      | some work =>
        simp only [settle, hw]
        exact (tame_alloc work).trans (tame_put rfl)
  | marking id entry recovered execution =>
    have hsettled : Tame s { s with executions := s.executions.set execution true } :=
      tame_of_tasks rfl rfl rfl rfl rfl
    cases ok with
    | false => exact hsettled.trans tame_finish
    | true =>
      cases hw : s.objects[entry]? with
      | none =>
        simp only [settle, hw]
        exact hsettled.trans tame_finish
      | some work =>
        simp only [settle, hw]
        exact (tame_note _).trans (tame_put rfl)
  | completing id execution =>
    cases ok with
    | true => exact tame_release id execution
    | false => exact tame_failWork id execution writeError now
  | failing id execution => exact tame_release id execution

variable {now : JsString} {ev : Event} {w : Write} {ws : List Write} {stage : Stage}

theorem tame_resume (h : resume H s t now task = some s') : Tame s s' := by
  cases task with
  | read content call =>
    cases h
    exact tame_load content
  | loaded call =>
    cases call with
    | load =>
      cases h
      exact tame_put rfl
    | accept envelope context =>
      cases h
      exact tame_accept envelope context now
    | run envelope context rest =>
      cases h
      exact tame_run envelope context rest now
    | runAccept envelope context rest =>
      cases h
      exact tame_accept envelope context now
    | recover =>
      cases h
      exact tame_recover
  | returned copy call =>
    cases call with
    | runAccept envelope context rest =>
      cases h
      exact tame_execute _ _ _ _
    | _ =>
      cases h
      exact tame_put rfl
  | writing written stage call =>
    cases written with
    | none => cases h
    | some ok =>
      cases h
      exact tame_settle now ok stage
  | joined execution call =>
    rw [resume] at h
    split at h
    · cases h
      exact tame_finish
    · cases h
  | loading call => cases h
  | handling id input execution call => cases h
  | ended => cases h

/-- The write at the head of the queue goes through. -/
theorem writeNext_true (h : writeNext s true = some s') : ∃ w ws text, s.writes = w :: ws ∧
    s.text = some text ∧ s' = { s with
      writes := ws, text := none, file := text
      tasks := match s.tasks[w.task]? with
        | some (.writing none stage call) => s.tasks.set w.task (.writing (some true) stage call)
        | _ => s.tasks } := by
  cases hw : s.writes with
  | nil =>
    rw [writeNext, hw] at h
    cases h
  | cons w ws =>
    cases htext : s.text with
    | none =>
      rw [writeNext, hw, htext] at h
      cases h
    | some text =>
      rw [writeNext, hw, htext] at h
      exact ⟨w, ws, text, rfl, rfl, (Option.some.inj h).symm⟩

theorem tame_call (call : Call) : Tame s (s.call call) where
  loaded := id
  broken := rfl
  stored h := ⟨h.nodup, h.objects⟩
  tasks task hmem := by
    rcases List.mem_append.mp hmem with hmem | hmem
    · exact .inl hmem
    · obtain rfl := List.mem_singleton.mp hmem
      exact .inr (unfailed_entering s call)

theorem tame_write (h : writeNext s true = some s') : Tame s s' := by
  obtain ⟨w, ws, text, -, -, rfl⟩ := writeNext_true h
  cases hw : s.tasks[w.task]? with
  | none => exact tame_of_tasks rfl rfl rfl rfl rfl
  | some task =>
    match task with
    | .writing none stage call =>
      exact tame_of_same rfl rfl rfl rfl (.inr rfl)
        (rfl : Task.unfailed (.writing (some true) stage call) = true)
    | .writing (some _) _ _ | .loading _ | .read _ _ | .loaded _ | .returned _ _
    | .handling _ _ _ _ | .joined _ _ | .ended =>
      exact tame_of_tasks rfl rfl rfl rfl rfl

theorem tame_step (hev : ev ≠ .write false) (h : step H s ev = some s') :
    Tame s s' := by
  cases ev with
  | callLoad | callAccept | callRun | callRecover =>
    cases h
    exact tame_call _
  | readFile t =>
    simp only [step] at h
    split at h
    · cases h
      exact tame_put rfl
    · cases h
  | readFails t =>
    simp only [step] at h
    split at h
    · cases h
      exact tame_finish
    · cases h
  | resume t now =>
    obtain ⟨task, -, h⟩ := Option.bind_eq_some_iff.mp h
    exact tame_resume h
  | stringify =>
    simp only [step, stringify] at h
    split at h
    · cases h
      exact tame_of_tasks rfl rfl rfl rfl rfl
    · cases h
  | write ok =>
    cases ok with
    | true => exact tame_write h
    | false => exact absurd rfl hev
  | handled t outcome now =>
    simp only [step] at h
    split at h
    · cases h
      exact tame_completeWork _ _ _ _
    · cases h
      exact tame_failWork _ _ _ _
    · cases h

/-! ### Before the file has been read -/

/-- The call has not been past `load`. -/
def Task.early : Task → Bool
  | .loading _ | .read _ _ | .ended => true
  | _ => false

/-- Before the file has been read nothing is written. -/
def Early (s : Inbox) : Prop :=
  s.loaded = true ∨ s.writes = [] ∧ ∀ task ∈ s.tasks, task.early = true

theorem early_put (h : Early s) (htask : s.loaded = false → task.early = true) :
    Early (s.put t task) := by
  rcases h with h | ⟨hwrites, htasks⟩
  · exact .inl h
  · cases hloaded : s.loaded with
    | true => exact .inl hloaded
    | false =>
      refine .inr ⟨hwrites, fun task' hmem => ?_⟩
      rcases List.mem_or_eq_of_mem_set hmem with hmem | rfl
      · exact htasks task' hmem
      · exact htask hloaded

theorem early_entering (hloaded : s.loaded = false) (call : Call) :
    (s.entering call).early = true := by
  simp [Inbox.entering, hloaded, Task.early]

theorem early_finish (h : Early s) : Early (finish s t call) := by
  rw [finish]
  cases call.rest with
  | nil => exact early_put h fun _ => rfl
  | cons p rest => exact early_put h fun hloaded => early_entering hloaded _

theorem readInto_same (s : Inbox) (l : List (Option Work)) : (readInto s l).1.loaded = s.loaded ∧
    (readInto s l).1.writes = s.writes ∧ (readInto s l).1.tasks = s.tasks := by
  induction l generalizing s with
  | nil => exact ⟨rfl, rfl, rfl⟩
  | cons item l ih =>
    cases item with
    | none => exact ⟨rfl, rfl, rfl⟩
    | some work => exact ih (s.add work)

theorem early_load (h : Early s) (content : Content) : Early (load s t content call) := by
  cases content with
  | invalid => exact early_finish h
  | missing => exact .inl rfl
  | entries l =>
    obtain ⟨hloaded, hwrites, htasks⟩ := readInto_same { s with entries := [] } l
    unfold load
    dsimp only
    generalize readInto { s with entries := [] } l = r at hloaded hwrites htasks
    obtain ⟨s', ok⟩ := r
    cases ok with
    | false => exact early_finish (by rwa [Early, hloaded, hwrites, htasks])
    | true => exact .inl rfl

theorem early_step (hev : ev ≠ .write false) (h : Early s) (hs : step H s ev = some s') :
    Early s' := by
  have htame := tame_step hev hs
  cases hloaded : s.loaded with
  | true => exact .inl (htame.loaded hloaded)
  | false =>
    obtain ⟨hwrites, htasks⟩ := h.resolve_left (by simp [hloaded])
    cases ev with
    | callLoad | callAccept | callRun | callRecover =>
      cases hs
      refine .inr ⟨hwrites, fun task hmem => ?_⟩
      rcases List.mem_append.mp hmem with hmem | hmem
      · exact htasks task hmem
      · obtain rfl := List.mem_singleton.mp hmem
        exact early_entering hloaded _
    | readFile t =>
      simp only [step] at hs
      split at hs
      · cases hs
        exact early_put h fun _ => rfl
      · cases hs
    | readFails t =>
      simp only [step] at hs
      split at hs
      · cases hs
        exact early_finish h
      · cases hs
    | resume t now =>
      obtain ⟨task, ht, hs⟩ := Option.bind_eq_some_iff.mp hs
      have hearly := htasks task (List.mem_of_getElem? ht)
      cases task with
      | read content call =>
        cases hs
        exact early_load h content
      | loading call | ended => cases hs
      | _ => cases hearly
    | stringify => simp [step, Accepted.stringify, hwrites] at hs
    | write ok => simp [step, writeNext, hwrites] at hs
    | handled t outcome now =>
      simp only [step] at hs
      split at hs
      · next ht => cases htasks _ (List.mem_of_getElem? ht)
      · next ht => cases htasks _ (List.mem_of_getElem? ht)
      · cases hs

/-! ### Writes that go through -/

theorem replay_append (l m : List Event) :
    replay H s (l ++ m) = (replay H s l).bind fun s' => replay H s' m := by
  induction l generalizing s with
  | nil => rfl
  | cons ev l ih =>
    simp only [List.cons_append, replay, Option.bind_assoc]
    exact Option.bind_congr fun s' _ => ih

/-- The call waits for its write, or knows that it has gone through. -/
def Waits (s : Inbox) (t : ℕ) (stage : Stage) (call : Call) : Prop :=
  s.tasks[t]? = some (.writing none stage call) ∨ s.tasks[t]? = some (.writing (some true) stage call)

/-- The state after the write at the head has gone through. -/
def Inbox.delivered (s : Inbox) (w : Write) (ws : List Write) : Inbox :=
  { s with
    writes := ws
    text := none
    file := .entries (w.snapshot.map fun entry => s.objects[entry]?)
    tasks := match s.tasks[w.task]? with
      | some (.writing none stage call) => s.tasks.set w.task (.writing (some true) stage call)
      | _ => s.tasks }

theorem replay_delivers (hbroken : s.broken = false) (hwrites : s.writes = w :: ws) (n : ℕ) :
    replay H s (flush (n + 1)) = replay H (s.delivered w ws) (flush n) := by
  cases s
  cases hbroken
  cases hwrites
  rfl

theorem waits_delivered (h : Waits s t stage call) :
    Waits (s.delivered w ws) t stage call ∧
      (w.task = t → (s.delivered w ws).tasks[t]? = some (.writing (some true) stage call)) := by
  by_cases hw : w.task = t
  · subst hw
    have hdone : (s.delivered w ws).tasks[w.task]? = some (.writing (some true) stage call) := by
      rcases h with h | h
      · simp only [Inbox.delivered, h]
        exact List.getElem?_set_self (lt_of_task h)
      · simp only [Inbox.delivered, h]
    exact ⟨.inr hdone, fun _ => hdone⟩
  · have hsame : (s.delivered w ws).tasks[t]? = s.tasks[t]? := by
      unfold Inbox.delivered
      dsimp only
      split
      · exact List.getElem?_set_ne hw
      · rfl
    exact ⟨by rwa [Waits, hsame], fun h => absurd h hw⟩

/-- The writes go through one after the other, and the last one is in the file. -/
theorem flush_delivers (s : Inbox) (w : Write) (ws : List Write) (hbroken : s.broken = false)
    (hwrites : s.writes = ws ++ [w]) (h : Waits s w.task stage call) :
    ∃ s', replay H s (flush (ws.length + 1)) = some s' ∧ s'.objects = s.objects ∧
      s'.file = .entries (w.snapshot.map fun entry => s.objects[entry]?) ∧
      s'.tasks[w.task]? = some (.writing (some true) stage call) := by
  induction ws generalizing s with
  | nil =>
    refine ⟨s.delivered w [], replay_delivers hbroken hwrites 0, rfl, rfl, ?_⟩
    exact (waits_delivered h).2 rfl
  | cons v ws ih =>
    rw [List.length_cons, replay_delivers hbroken hwrites]
    exact ih (s.delivered v (ws ++ [w])) hbroken rfl (waits_delivered h).1

/-- In an inbox in which no write has failed, new work is accepted. -/
theorem accepted_of_sound (hstored : Stored s) (hbroken : s.broken = false)
    (hloaded : s.loaded = true) {envelope : Envelope} {context : Value}
    (hid : envelope.id.isEmpty = false) (hnew : s.record envelope.id = none) : ∃ s' copy call work,
      replay H s (acceptance s envelope context now) = some s' ∧
      s'.tasks[s.tasks.length]? = some (.returned copy call) ∧
      s'.file.record envelope.id = some work ∧ work.envelope = envelope ∧
      work.status = .pending := by
  let call := Call.accept envelope context
  let work : Work :=
    ⟨envelope.id, .pending, envelope, safeContext context, 0, now, now, .null, .null⟩
  let added := (s.call call).add work
  have hstart : step H s (.callAccept envelope context) = some (s.call call) := rfl
  have haccept : step H (s.call call) (.resume s.tasks.length now) =
      some (added.persist s.tasks.length (.accepted s.objects.length) call) := by
    have ht : (s.call call).tasks[s.tasks.length]? = some (.loaded call) := by
      simp [Inbox.call, Inbox.entering, hloaded]
    have hrecord : (s.call call).record envelope.id = none := hnew
    simp only [step, ht, Option.bind_some, resume, accept, hid, hrecord, call]
    rfl
  have hstored' : Stored added := (tame_add work).stored ((tame_call call).stored hstored)
  have hwaits : Waits (added.persist s.tasks.length (.accepted s.objects.length) call)
      s.tasks.length (.accepted s.objects.length) call :=
    .inl (by simp [Inbox.persist, added, Inbox.add, Inbox.call])
  obtain ⟨s', hs', hobjects, hfile, htask⟩ := flush_delivers (H := H)
    (added.persist s.tasks.length (.accepted s.objects.length) call) ⟨s.tasks.length, added.entries.map Prod.snd⟩ s.writes hbroken rfl hwaits
  have hlt : s.tasks.length < s'.tasks.length := lt_of_task htask
  have hwork : s'.objects[s.objects.length]? = some work := by
    rw [hobjects]
    simp [Inbox.persist, added, Inbox.add, Inbox.call]
  have hresume : step H s' (.resume s.tasks.length now) =
      some ((s'.alloc work).put s.tasks.length (.returned s'.objects.length call)) := by
    simp only [step, htask, Option.bind_some, resume, settle, hwork]
  refine ⟨(s'.alloc work).put s.tasks.length (.returned s'.objects.length call), s'.objects.length,
    call, work, ?_, List.getElem?_set_self hlt, ?_, rfl, rfl⟩
  · rw [acceptance, replay, hstart, Option.bind_some, replay, haccept, Option.bind_some,
      replay_append, hs', Option.bind_some, replay, hresume]
    rfl
  · have hrecord : added.record envelope.id = some work := by
      simp [Inbox.record, added, Inbox.add, Inbox.call, work]
    have hkept : ((s'.alloc work).put s.tasks.length (.returned s'.objects.length call)).file =
        s'.file := rfl
    rw [hkept, hfile, ← hrecord]
    exact record_of_written hstored' envelope.id

/-! ### Runs -/

/-- No write has failed so far. -/
structure Unharmed (s : Inbox) : Prop where
  stored : Stored s
  early : Early s
  broken : s.broken = false
  tasks : ∀ task ∈ s.tasks, task.unfailed = true

theorem Unharmed.start (file : Content) : Unharmed { file } where
  stored := ⟨.nil, nofun⟩
  early := .inr ⟨rfl, nofun⟩
  broken := rfl
  tasks := nofun

theorem Unharmed.step (h : Unharmed s) (hev : ev ≠ .write false) (hs : step H s ev = some s') :
    Unharmed s' := by
  have htame := tame_step hev hs
  exact {
    stored := htame.stored h.stored
    early := early_step hev h.early hs
    broken := htame.broken.trans h.broken
    tasks := fun task hmem => (htame.tasks task hmem).elim (h.tasks task) fun htask => htask }

theorem Unharmed.run {l : List Event} (h : Unharmed s) (hl : .write false ∉ l)
    (hs : replay H s l = some s') : Unharmed s' := by
  induction l generalizing s with
  | nil =>
    cases hs
    exact h
  | cons ev l ih =>
    obtain ⟨u, hu, hs⟩ := Option.bind_eq_some_iff.mp hs
    rw [List.mem_cons, not_or] at hl
    exact ih (h.step (Ne.symm hl.1) hu) hl.2 hs

theorem Unharmed.atomic (h : Unharmed s) : Atomic H s where
  accepted _ _ _ hloaded hid hnew := accepted_of_sound h.stored h.broken hloaded hid hnew
  withdrawn _ _ _ _ _ ht _ := absurd (h.tasks _ (List.mem_of_getElem? ht)) nofun
  released _ _ _ _ _ _ _ _ ht _ := absurd (h.tasks _ (List.mem_of_getElem? ht)) nofun
  preserved _ _ _ _ _ _ ht _ := absurd (h.tasks _ (List.mem_of_getElem? ht)) nofun

/-- There is always work that an inbox does not know. -/
theorem exists_new (s : Inbox) : ∃ id : JsString, id.isEmpty = false ∧ s.record id = none := by
  obtain ⟨id, hid⟩ := Infinite.exists_notMem_finset (([] :: s.entries.map Prod.fst).toFinset)
  rw [List.mem_toFinset, List.mem_cons, not_or] at hid
  refine ⟨id, by simpa using hid.1, ?_⟩
  cases hget : Maps.get s.entries id with
  | none => simp [Inbox.record, hget]
  | some e => exact absurd (List.mem_map_of_mem (Maps.mem_of_get hget)) hid.2

/-- Once a write has failed, no new work is accepted. -/
theorem not_atomic_of_broken (hloaded : s.loaded = true) (hbroken : s.broken = true) :
    ¬Atomic H s := by
  intro h
  obtain ⟨id, hid, hnew⟩ := exists_new s
  obtain ⟨s', -, -, -, hs', -⟩ := h.accepted ⟨id, .null⟩ .null [] hloaded hid hnew
  obtain ⟨u, hu, hs'⟩ := Option.bind_eq_some_iff.mp hs'
  obtain ⟨v, hv, hs'⟩ := Option.bind_eq_some_iff.mp hs'
  obtain ⟨w, hw, -⟩ := Option.bind_eq_some_iff.mp hs'
  have hstuck : v.broken = true := (tame_step (by nofun) hv).broken.trans
    ((tame_step (by nofun) hu).broken.trans hbroken)
  simp [step, stringify, hstuck] at hw

theorem broken_of_failed (h : Early s) (hs : step H s (.write false) = some s') :
    s'.loaded = true ∧ s'.broken = true := by
  cases hwrites : s.writes with
  | nil => simp [step, writeNext, hwrites] at hs
  | cons w ws =>
    have hloaded : s.loaded = true := h.resolve_right (by simp [hwrites])
    simp only [step, writeNext, hwrites] at hs
    cases hs
    exact ⟨hloaded, rfl⟩

/-- In all states of a run the inbox is as it should be, just when no write fails. -/
theorem atomic_iff (H : Host) (file : Content) (l : List Event) (s : Inbox)
    (h : replay H { file } l = some s) :
    (∀ l' s', l' <+: l → replay H { file } l' = some s' → Atomic H s') ↔ .write false ∉ l := by
  constructor
  · intro hall hmem
    obtain ⟨m, r, rfl, hm⟩ := List.eq_append_cons_of_mem hmem
    rw [replay_append] at h
    obtain ⟨u, hu, h⟩ := Option.bind_eq_some_iff.mp h
    obtain ⟨v, hv, -⟩ := Option.bind_eq_some_iff.mp h
    obtain ⟨hloaded, hbroken⟩ := broken_of_failed ((Unharmed.start file).run hm hu).early hv
    refine not_atomic_of_broken hloaded hbroken (hall (m ++ [.write false]) v ?_ ?_)
    · exact ⟨r, by simp⟩
    · rw [replay_append, hu, Option.bind_some, replay, hv]
      rfl
  · intro hl l' s' hpre hs'
    exact ((Unharmed.start file).run (fun hmem => hl (hpre.subset hmem)) hs').atomic

theorem atomic_iff_accepted : ∃ s, replay plainHost {} acceptRun = some s ∧
    ((∀ l' s', l' <+: acceptRun → replay plainHost {} l' = some s' → Atomic plainHost s') ↔
      .write false ∉ acceptRun) := by
  obtain ⟨s, hs, -⟩ := Option.map_eq_some_iff.mp
    (rfl : (replay plainHost {} acceptRun).map (fun s => handles s 1 job.id) = some true)
  exact ⟨s, hs, atomic_iff plainHost .missing acceptRun s hs⟩

def other : Envelope := ⟨js "other", .null⟩

/-- Work is handled, and its result cannot be written. Other work is accepted and run after that. -/
def failedRun : List Event := acceptRun ++
  [.handled 1 (.ok .null) [], .write false, .resume 1 [], .callAccept other .null, .resume 2 [],
    .write false, .write false, .resume 2 [], .callRun other .null, .resume 3 [], .write false,
    .resume 3 []]

def Note.completes (id : JsString) : Note → Bool
  | .completed i => i = id
  | _ => false

/-- The result is recorded and then overwritten by a failure. The other work was refused and is on
    record, and its execution, which is over, is in flight. -/
theorem failed_writes : ∃ s, replay plainHost {} failedRun = some s ∧ ¬Atomic plainHost s ∧
    s.history.any (Note.completes job.id) = true ∧
    (s.record job.id).map Work.status = some .failed ∧
    (s.record other.id).map Work.status = some .pending ∧
    (Maps.get s.inFlight other.id).bind (fun execution => s.executions[execution]?) = some true := by
  obtain ⟨s, hs, hfacts⟩ := Option.map_eq_some_iff.mp (rfl :
    (replay plainHost {} failedRun).map (fun s => (s.loaded, s.broken,
      s.history.any (Note.completes job.id), (s.record job.id).map Work.status,
      (s.record other.id).map Work.status,
      (Maps.get s.inFlight other.id).bind fun execution => s.executions[execution]?)) =
    some (true, true, true, some .failed, some .pending, some true))
  simp only [Prod.mk.injEq] at hfacts
  obtain ⟨hloaded, hbroken, hcompleted, hjob, hother, hflying⟩ := hfacts
  exact ⟨s, hs, not_atomic_of_broken hloaded hbroken, hcompleted, hjob, hother, hflying⟩

end Truyn.Accepted
