import Truyn.Accepted.Inbox

/-! accepted:executions | the phases of an execution, and what each move of a call does to them

    For each work at most one task marks its record, handles it or settles it, and while there is one
    the id is in `inFlight`. What a task does on a copy of a record does nothing for the work. -/

namespace Truyn.Accepted
open Relation
open Trust (Value)

/-! ### What is wanted -/

/-- The starts of the handler for this work, from the attempts with which it was recorded last. -/
def count : List Note → JsString → ℕ
  | [], _ => 0
  | .recorded work :: notes, id => if work.id = id then work.attempts else count notes id
  | .started i :: notes, id => if i = id then count notes id + 1 else count notes id
  | .completed _ :: notes, id => count notes id
  | .failed _ :: notes, id => count notes id

/-- Recorded, and not completed since. -/
def owed : List Note → JsString → Bool
  | [], _ => false
  | .recorded work :: notes, id => if work.id = id then work.status ≠ .completed else owed notes id
  | .completed i :: notes, id => if i = id then false else owed notes id
  | .started _ :: notes, id => owed notes id
  | .failed _ :: notes, id => owed notes id

/-- The task is an execution that has been counted on the record, and waits for its first write. -/
def Marks (s : Inbox) (id : JsString) (task : Task) : Prop :=
  ∃ written entry recovered execution call,
    task = .writing written (.marking id entry recovered execution) call ∧
      Maps.get s.entries id = some entry

structure AtMostOnce (s : Inbox) : Prop where
  kept : ∀ id, owed s.history id = true → (s.record id).isSome = true
  single : ∀ (t u : ℕ) id input input' execution execution' call call',
    s.tasks[t]? = some (.handling id input execution call) →
      s.tasks[u]? = some (.handling id input' execution' call') → t = u
  unsettled : ∀ id input execution call, .handling id input execution call ∈ s.tasks →
    ∃ work, s.record id = some work ∧ work.status = .pending
  counted : ∀ id work, s.record id = some work → (∀ task ∈ s.tasks, ¬Marks s id task) →
    work.attempts = count s.history id

/-! ### Steps in order -/

/-- The entries of the file, up to the first that `load` refuses. -/
def Content.valid : Content → List Work
  | .entries l => (l.takeWhile Option.isSome).reduceOption
  | _ => []

/-- The entry that `load` leaves under an id: the last one. -/
def Content.record (content : Content) (id : JsString) : Option Work :=
  content.valid.reverse.find? fun work => work.id = id

/-- What was read leaves the records as they are. -/
def Restores (s : Inbox) (content : Content) : Prop :=
  s.entries = [] ∨ content = .invalid ∨
    (∀ id, content.record id = s.record id) ∧ ∀ id, ∀ task ∈ s.tasks, ¬Marks s id task

def InOrder (s : Inbox) : Event → Prop
  | .resume t _ =>
    (∀ content call, s.tasks[t]? = some (.read content call) → Restores s content) ∧
    ∀ ok id entry recovered execution call,
      s.tasks[t]? = some (.writing (some ok) (.marking id entry recovered execution) call) →
        (ok = true ↔ Maps.get s.entries id = some entry)
  | _ => True

def Orderly (H : Host) (s s' : Inbox) : Prop := ∃ ev, InOrder s ev ∧ step H s ev = some s'

/-! ### Phases of an execution -/

inductive Phase
  | marking
  | handling
  | closing

/-- What a task does for this work; the execution of a copy does nothing for it. -/
def Task.phase (entries : List (JsString × ℕ)) (id : JsString) : Task → Option Phase
  | .writing _ (.marking i entry _ _) _ =>
    if i = id ∧ Maps.get entries i = some entry then some .marking else none
  | .handling i _ _ _ => if i = id then some .handling else none
  | .writing _ (.completing i _) _ => if i = id then some .closing else none
  | .writing _ (.failing i _) _ => if i = id then some .closing else none
  | _ => none

def Inbox.phase (s : Inbox) (id : JsString) (t : ℕ) : Option Phase :=
  s.tasks[t]?.bind (Task.phase s.entries id)

structure Sound (s : Inbox) (id : JsString) : Prop where
  single : ∀ t u p q, s.phase id t = some p → s.phase id u = some q → t = u
  flying : ∀ t p, s.phase id t = some p → (Maps.get s.inFlight id).isSome = true
  unsettled : ∀ t p, s.phase id t = some p → p ≠ .closing →
    ∃ work, s.record id = some work ∧ work.status = .pending
  counted : ∀ work, s.record id = some work → (∀ t, s.phase id t ≠ some .marking) →
    work.attempts = count s.history id
  ahead : ∀ t work, s.record id = some work → s.phase id t = some .marking →
    work.attempts = count s.history id + 1
  kept : owed s.history id = true → (s.record id).isSome = true
  closed : ∀ work, s.record id = some work → work.status = .completed → owed s.history id = false

/-- The places of records, copies and what is marked. -/
structure Placed (s : Inbox) : Prop where
  nodup : (s.entries.map Prod.fst).Nodup
  objects : ∀ id entry, Maps.get s.entries id = some entry →
    ∃ work, s.objects[entry]? = some work ∧ work.id = id
  marked : ∀ written id entry recovered execution call,
    .writing written (.marking id entry recovered execution) call ∈ s.tasks → entry < s.objects.length
  copies : ∀ copy call, .returned copy call ∈ s.tasks →
    copy < s.objects.length ∧ ∀ id, Maps.get s.entries id ≠ some copy

/-! ### Phases of the tasks of a state -/

variable {H : Host} {s s' : Inbox} {id i j : JsString} {t u entry : ℕ} {task task' : Task}

theorem Task.phase_congr {e e' : List (JsString × ℕ)} (h : Maps.get e' id = Maps.get e id) :
    task.phase e' id = task.phase e id := by
  cases task with
  | writing written stage call =>
    cases stage with
    | marking i entry recovered execution =>
      simp only [Task.phase]
      by_cases hi : i = id
      · rw [hi, h]
      · simp [hi]
    | _ => rfl
  | _ => rfl

theorem phase_of_set (s s' : Inbox) (id : JsString) (ht : s'.tasks = s.tasks.set t task')
    (hlt : t < s.tasks.length) (he : Maps.get s'.entries id = Maps.get s.entries id) (u : ℕ) :
    s'.phase id u = if t = u then task'.phase s.entries id else s.phase id u := by
  rw [Inbox.phase, Inbox.phase, ht]
  by_cases htu : t = u
  · subst htu
    simp [hlt, Task.phase_congr he]
  · rw [List.getElem?_set_ne htu, if_neg htu]
    exact Option.bind_congr fun task _ => Task.phase_congr he

theorem marks_of_phase (h : task.phase s.entries id = some .marking) : Marks s id task := by
  cases task with
  | writing written stage call =>
    cases stage with
    | marking i entry recovered execution =>
      simp only [Task.phase] at h
      split at h
      next hi => exact ⟨written, entry, recovered, execution, call, hi.1 ▸ rfl, hi.1 ▸ hi.2⟩
      next => cases h
    | accepted entry => cases h
    | completing i execution =>
      simp only [Task.phase] at h
      split at h <;> cases h
    | failing i execution =>
      simp only [Task.phase] at h
      split at h <;> cases h
  | handling i input execution call =>
    simp only [Task.phase] at h
    split at h <;> cases h
  | _ => cases h

theorem phase_eq (ht : s.tasks[t]? = some task) : s.phase id t = task.phase s.entries id := by
  simp [Inbox.phase, ht]

theorem lt_of_task (ht : s.tasks[t]? = some task) : t < s.tasks.length :=
  (List.getElem_of_getElem? ht).1

/-- Nothing of the work has changed, but that a task may have left it. -/
theorem Sound.of (h : Sound s id) (hrecord : s'.record id = s.record id)
    (hphase : ∀ t, s'.phase id t = s.phase id t ∨
      s'.phase id t = none ∧ s.phase id t ≠ some .marking)
    (hflying : ∀ t p, s'.phase id t = some p → (Maps.get s'.inFlight id).isSome = true)
    (hcount : count s'.history id = count s.history id)
    (howed : owed s'.history id = owed s.history id) : Sound s' id := by
  have hback : ∀ {t p}, s'.phase id t = some p → s.phase id t = some p := by
    intro t p hp
    rcases hphase t with heq | ⟨hnone, -⟩
    · exact heq ▸ hp
    · exact absurd hp (by simp [hnone])
  have hforth : ∀ {t}, s.phase id t = some .marking → s'.phase id t = some .marking := by
    intro t hp
    rcases hphase t with heq | ⟨-, hne⟩
    · exact heq.trans hp
    · exact absurd hp hne
  exact {
    single := fun t u p q hp hq => h.single t u p q (hback hp) (hback hq)
    flying := hflying
    unsettled := fun t p hp hne => hrecord ▸ h.unsettled t p (hback hp) hne
    counted := fun work hw hm => by
      rw [hcount]
      exact h.counted work (hrecord ▸ hw) fun t hp => hm t (hforth hp)
    ahead := fun t work hw hp => by
      rw [hcount]
      exact h.ahead t work (hrecord ▸ hw) (hback hp)
    kept := by rw [howed, hrecord]; exact h.kept
    closed := fun work hw hc => by rw [howed]; exact h.closed work (hrecord ▸ hw) hc }

/-- The task at `t` does something for no work now, and was not marking this one. -/
theorem Sound.leave (h : Sound s id) (ht : s'.tasks = s.tasks.set t task')
    (hlt : t < s.tasks.length) (he : Maps.get s'.entries id = Maps.get s.entries id)
    (hold : s.phase id t ≠ some .marking) (hnew : task'.phase s.entries id = none)
    (hrecord : s'.record id = s.record id)
    (hflying : Maps.get s'.inFlight id = Maps.get s.inFlight id ∨
      (Maps.get s'.inFlight id).isSome = true ∨ s.phase id t ≠ none)
    (hcount : count s'.history id = count s.history id)
    (howed : owed s'.history id = owed s.history id) : Sound s' id := by
  have hphase := phase_of_set s s' _ ht hlt he
  refine h.of hrecord (fun u => ?_) (fun u p hp => ?_) hcount howed
  · rw [hphase]
    by_cases htu : t = u
    · subst htu
      exact .inr ⟨by simp [hnew], hold⟩
    · exact .inl (if_neg htu)
  · rw [hphase] at hp
    by_cases htu : t = u
    · simp [htu, hnew] at hp
    · rw [if_neg htu] at hp
      rcases hflying with heq | hsome | hne
      · rw [heq]
        exact h.flying u p hp
      · exact hsome
      · obtain ⟨q, hq⟩ := Option.ne_none_iff_exists'.mp hne
        exact absurd (h.single t u q p hq hp) htu

/-! ### Records -/

theorem record_update (f : Work → Work) : (s.update entry f).record id =
    if Maps.get s.entries id = some entry then (s.record id).map f else s.record id := by
  rw [Inbox.record, Inbox.record, Inbox.update]
  cases hget : Maps.get s.entries id with
  | none => simp
  | some e =>
    by_cases he : e = entry
    · subst he
      simp [List.getElem?_modify]
    · have hne : ¬entry = e := fun h => he h.symm
      simp [List.getElem?_modify, he, hne]

theorem Placed.lt (h : Placed s) (he : Maps.get s.entries id = some entry) :
    entry < s.objects.length := by
  obtain ⟨work, hw, -⟩ := h.objects id entry he
  exact (List.getElem_of_getElem? hw).1

theorem Placed.record (h : Placed s) (he : Maps.get s.entries id = some entry) :
    ∃ work, s.record id = some work ∧ work.id = id ∧ s.objects[entry]? = some work := by
  obtain ⟨work, hw, hid⟩ := h.objects id entry he
  exact ⟨work, by simp [Inbox.record, he, hw], hid, hw⟩

theorem Placed.get_none (h : Placed s) (hr : s.record id = none) :
    Maps.get s.entries id = none := by
  cases he : Maps.get s.entries id with
  | none => rfl
  | some entry =>
    obtain ⟨work, hw, -⟩ := h.record he
    exact absurd hw (by simp [hr])

theorem Placed.injective (h : Placed s) (hi : Maps.get s.entries i = some entry)
    (hj : Maps.get s.entries j = some entry) : i = j := by
  obtain ⟨work, hw, hid⟩ := h.objects i entry hi
  obtain ⟨work', hw', hid'⟩ := h.objects j entry hj
  obtain rfl : work = work' := by simpa [hw] using hw'
  exact hid.symm.trans hid'

/-- New objects do not change the records. -/
theorem Placed.record_append (h : Placed s) (more : List Work) :
    (Maps.get s.entries id).bind (fun entry => (s.objects ++ more)[entry]?) = s.record id := by
  refine Option.bind_congr fun entry he => ?_
  rw [List.getElem?_append_left (h.lt he)]

/-! ### Places -/

/-- A task that holds no place of an object. -/
def Task.placeless : Task → Bool
  | .writing _ (.marking ..) _ | .returned _ _ => false
  | _ => true

/-- A task that does nothing for any work. -/
def Task.idle : Task → Bool
  | .loading _ | .read _ _ | .loaded _ | .joined _ _ | .ended | .writing _ (.accepted _) _ => true
  | _ => false

theorem Task.phase_of_idle (h : task.idle = true) (entries : List (JsString × ℕ)) :
    task.phase entries id = none := by
  cases task with
  | writing written stage call => cases stage <;> first | rfl | cases h
  | handling => cases h
  | _ => rfl

theorem Task.placeless_of_idle (h : task.idle = true) : task.placeless = true := by
  cases task with
  | writing written stage call => cases stage <;> first | rfl | cases h
  | returned => cases h
  | _ => rfl

/-- The objects stay, some may be new, and records go or stay where they are. -/
structure Extends (s s' : Inbox) : Prop where
  length : s.objects.length ≤ s'.objects.length
  entries : ∀ id entry, Maps.get s'.entries id = some entry → Maps.get s.entries id = some entry
  ids : ∀ (entry : ℕ) (work : Work), s.objects[entry]? = some work →
    ∃ work' : Work, s'.objects[entry]? = some work' ∧ work'.id = work.id

theorem Placed.extend (h : Placed s) (hx : Extends s s')
    (hnodup : (s'.entries.map Prod.fst).Nodup)
    (htask : ∀ task ∈ s'.tasks, task ∈ s.tasks ∨ task.placeless = true) : Placed s' where
  nodup := hnodup
  objects := fun id entry he => by
    obtain ⟨work, hw, hid⟩ := h.objects id entry (hx.entries id entry he)
    obtain ⟨work', hw', hid'⟩ := hx.ids entry work hw
    exact ⟨work', hw', hid'.trans hid⟩
  marked := fun written id entry recovered execution call hmem => by
    rcases htask _ hmem with hmem | hp
    · exact lt_of_lt_of_le (h.marked _ _ _ _ _ _ hmem) hx.length
    · cases hp
  copies := fun copy call hmem => by
    rcases htask _ hmem with hmem | hp
    · obtain ⟨hlt, hne⟩ := h.copies copy call hmem
      exact ⟨lt_of_lt_of_le hlt hx.length, fun id he => hne id (hx.entries id copy he)⟩
    · cases hp

theorem mem_set_or {tasks : List Task} (h : task ∈ tasks.set t task') :
    task ∈ tasks ∨ task = task' := List.mem_or_eq_of_mem_set h

theorem Placed.put (h : Placed s) (hp : task'.placeless = true) : Placed (s.put t task') :=
  h.extend ⟨le_refl _, fun _ _ h => h, fun _ work h => ⟨work, h, rfl⟩⟩ h.nodup fun task hk => by
    rcases mem_set_or hk with hk | rfl
    · exact .inl hk
    · exact .inr hp

theorem extends_update (s : Inbox) (entry : ℕ) (f : Work → Work)
    (hf : ∀ work, (f work).id = work.id) : Extends s (s.update entry f) where
  length := by simp [Inbox.update]
  entries := fun _ _ h => h
  ids := fun e work hw => by
    by_cases he : entry = e
    · exact ⟨f work, by simp [Inbox.update, he, hw], hf work⟩
    · exact ⟨work, by simp [Inbox.update, he, hw], rfl⟩

/-! ### Calls -/

/-- Where a call goes when it ends: a task that does nothing for any work. -/
theorem finish_eq (s : Inbox) (t : ℕ) (call : Call) :
    ∃ task', task'.idle = true ∧ finish s t call = s.put t task' := by
  have hentering : ∀ c, (s.entering c).idle = true := by
    intro c
    unfold Inbox.entering
    split <;> rfl
  unfold finish
  split
  · exact ⟨_, rfl, rfl⟩
  · exact ⟨_, hentering _, rfl⟩

/-- The state is sound for all work. -/
structure Kept (s : Inbox) : Prop where
  placed : Placed s
  sound : ∀ id, Sound s id

/-- A task that did nothing for any work does nothing still. -/
theorem Kept.rest (h : Kept s) (ht : s.tasks[t]? = some task)
    (hold : ∀ id, s.phase id t ≠ some .marking) (hnew : task'.idle = true) :
    Kept (s.put t task') where
  placed := h.placed.put (Task.placeless_of_idle hnew)
  sound := fun id => (h.sound id).leave rfl (lt_of_task ht) rfl (hold id)
    (Task.phase_of_idle hnew _) rfl (.inl rfl) rfl rfl

theorem Kept.finish (h : Kept s) (ht : s.tasks[t]? = some task)
    (hold : ∀ id, s.phase id t ≠ some .marking) (call : Call) : Kept (finish s t call) := by
  obtain ⟨task', hidle, heq⟩ := finish_eq s t call
  exact heq ▸ h.rest ht hold hidle

/-- A new call does nothing for any work. -/
theorem Kept.call (h : Kept s) (call : Call) : Kept (s.call call) := by
  have hidle : (s.entering call).idle = true := by
    unfold Inbox.entering
    split <;> rfl
  have hphase : ∀ id t, (s.call call).phase id t = s.phase id t := by
    intro id t
    rw [Inbox.phase, Inbox.phase]
    rcases Nat.lt_trichotomy t s.tasks.length with hlt | heq | hgt
    · rw [Inbox.call, List.getElem?_append_left hlt]
    · subst heq
      simp [Inbox.call, Task.phase_of_idle hidle]
    · rw [List.getElem?_eq_none (by simp [Inbox.call]; omega), List.getElem?_eq_none (by omega)]
      rfl
  exact {
    placed := h.placed.extend ⟨le_refl _, fun _ _ h => h, fun _ work h => ⟨work, h, rfl⟩⟩
      h.placed.nodup fun task hk => by
        rcases List.mem_append.mp hk with hk | hk
        · exact .inl hk
        · obtain rfl := List.mem_singleton.mp hk
          exact .inr (Task.placeless_of_idle hidle)
    sound := fun id => (h.sound id).of rfl (fun t => .inl (hphase id t))
      (fun t p hp => (h.sound id).flying t p (hphase id t ▸ hp)) rfl rfl }

/-- A copy is made, and handed to its call. -/
theorem Kept.copy (h : Kept s) (ht : s.tasks[t]? = some task)
    (hold : ∀ id, s.phase id t ≠ some .marking) (work : Work) (call : Call) :
    Kept ((s.alloc work).put t (.returned s.objects.length call)) where
  placed := {
    nodup := h.placed.nodup
    objects := fun id entry he => by
      obtain ⟨w, hw, hid⟩ := h.placed.objects id entry he
      exact ⟨w, by rw [← hw]; exact List.getElem?_append_left (h.placed.lt he), hid⟩
    marked := fun written id entry recovered execution call hmem => by
      rcases mem_set_or hmem with hmem | heq
      · have hlt := h.placed.marked _ _ _ _ _ _ hmem
        simp only [Inbox.put, Inbox.alloc, List.length_append, List.length_singleton]
        omega
      · cases heq
    copies := fun copy call hmem => by
      simp only [Inbox.put, Inbox.alloc, List.length_append, List.length_singleton]
      rcases mem_set_or hmem with hmem | heq
      · obtain ⟨hlt, hne⟩ := h.placed.copies copy call hmem
        exact ⟨by omega, hne⟩
      · obtain ⟨rfl, -⟩ := Task.returned.inj heq
        exact ⟨by omega, fun id he => absurd (h.placed.lt he) (lt_irrefl _)⟩ }
  sound := fun id => (h.sound id).leave rfl (lt_of_task ht) rfl (hold id) rfl
    (h.placed.record_append [work]) (.inl rfl) rfl rfl

/-- Before work is recorded, no task marks it; after that, none but new ones. -/
theorem phase_fresh (h : Placed s) (hget : Maps.get s.entries id = none) (hmem : task ∈ s.tasks) :
    task.phase (Maps.set id s.objects.length s.entries) id = task.phase s.entries id := by
  cases task with
  | writing written stage call =>
    cases stage with
    | marking i entry recovered execution =>
      have hlt := h.marked _ _ _ _ _ _ hmem
      have hne : s.objects.length ≠ entry := by omega
      simp only [Task.phase]
      by_cases hi : i = id
      · subst hi
        simp [hget, hne]
      · simp [hi]
    | _ => rfl
  | _ => rfl

/-- Work that was not recorded is recorded. -/
theorem Kept.accepted (h : Kept s) (ht : s.tasks[t]? = some task)
    (hold : ∀ id, s.phase id t = none) (work : Work) (hnone : s.record work.id = none)
    (hpending : work.status = .pending) (call : Call) :
    Kept ((s.add work).persist t (.accepted s.objects.length) call) := by
  have hget : Maps.get s.entries work.id = none := h.placed.get_none hnone
  have hlt : t < s.tasks.length := lt_of_task ht
  constructor
  · exact {
      nodup := Maps.nodup_set h.placed.nodup
      objects := fun id entry he => by
        by_cases hid : work.id = id
        · obtain rfl : s.objects.length = entry := by
            simpa [Inbox.persist, Inbox.add, Maps.get_set, hid] using he
          exact ⟨work, by simp [Inbox.persist, Inbox.add], hid⟩
        · have he : Maps.get s.entries id = some entry := by
            simpa [Inbox.persist, Inbox.add, Maps.get_set, hid] using he
          obtain ⟨w, hw, hw'⟩ := h.placed.objects id entry he
          exact ⟨w, by rw [← hw]; exact List.getElem?_append_left (h.placed.lt he), hw'⟩
      marked := fun written id entry recovered execution call hmem => by
        simp only [Inbox.persist, Inbox.add, List.length_append, List.length_singleton]
        rcases mem_set_or hmem with hmem | heq
        · have := h.placed.marked _ _ _ _ _ _ hmem
          omega
        · cases heq
      copies := fun copy call hmem => by
        simp only [Inbox.persist, Inbox.add, List.length_append, List.length_singleton]
        rcases mem_set_or hmem with hmem | heq
        · obtain ⟨hcopy, hne⟩ := h.placed.copies copy call hmem
          refine ⟨by omega, fun id he => ?_⟩
          simp only [Maps.get_set] at he
          split at he
          · have := Option.some.inj he
            omega
          · exact hne id he
        · cases heq }
  · intro id
    by_cases hid : work.id = id
    · subst hid
      have hphase : ∀ u, ((s.add work).persist t (.accepted s.objects.length) call).phase work.id u =
          s.phase work.id u := by
        intro u
        by_cases htu : t = u
        · subst htu
          rw [hold]
          simp [Inbox.phase, Inbox.persist, Inbox.add, hlt, Task.phase]
        · rw [Inbox.phase, Inbox.phase, Inbox.persist, Inbox.add]
          dsimp only
          rw [List.getElem?_set_ne htu]
          exact Option.bind_congr fun task htask =>
            phase_fresh h.placed hget (List.mem_of_getElem? htask)
      have hrecord : ((s.add work).persist t (.accepted s.objects.length) call).record work.id =
          some work := by
        simp [Inbox.record, Inbox.persist, Inbox.add]
      have hvacant : ∀ u p, s.phase work.id u = some p → p = .closing := by
        intro u p hp
        by_contra hne
        obtain ⟨w, hw, -⟩ := (h.sound work.id).unsettled u p hp hne
        exact absurd hw (by simp [hnone])
      exact {
        single := fun u v p q hp hq =>
          (h.sound work.id).single u v p q (hphase u ▸ hp) (hphase v ▸ hq)
        flying := fun u p hp => (h.sound work.id).flying u p (hphase u ▸ hp)
        unsettled := fun u p hp hne => absurd (hvacant u p (hphase u ▸ hp)) hne
        counted := fun w hw _ => by
          obtain rfl : work = w := by simpa [hrecord] using hw
          simp [Inbox.persist, Inbox.add, count]
        ahead := fun u w hw hp => by cases hvacant u _ (hphase u ▸ hp)
        kept := fun _ => by rw [hrecord]; rfl
        closed := fun w hw hc => by
          obtain rfl : work = w := by simpa [hrecord] using hw
          rw [hpending] at hc
          cases hc }
    · refine (h.sound id).leave rfl hlt (Maps.get_set_ne hid) (by simp [hold]) rfl ?_ (.inl rfl)
        (by simp [Inbox.persist, Inbox.add, count, hid])
        (by simp [Inbox.persist, Inbox.add, owed, hid])
      rw [Inbox.record, Inbox.persist, Inbox.add]
      dsimp only
      rw [Maps.get_set_ne hid]
      exact h.placed.record_append [work]

/-! ### Executions -/

/-- The one task that does something for this work goes into its next phase. -/
theorem Sound.turn {p : Phase} (hphase : ∀ u, s'.phase id u = if t = u then some p else s.phase id u)
    (hlone : ∀ u q, s.phase id u = some q → t = u)
    (hflying : (Maps.get s'.inFlight id).isSome = true)
    (hunsettled : p ≠ .closing → ∃ work, s'.record id = some work ∧ work.status = .pending)
    (hcounted : p ≠ .marking → ∀ work, s'.record id = some work →
      work.attempts = count s'.history id)
    (hahead : p = .marking → ∀ work, s'.record id = some work →
      work.attempts = count s'.history id + 1)
    (hkept : owed s'.history id = true → (s'.record id).isSome = true)
    (hclosed : ∀ work, s'.record id = some work → work.status = .completed →
      owed s'.history id = false) : Sound s' id := by
  have honly : ∀ {u q}, s'.phase id u = some q → t = u ∧ q = p := by
    intro u q hq
    rw [hphase] at hq
    by_cases htu : t = u
    · exact ⟨htu, by simpa [htu] using hq.symm⟩
    · rw [if_neg htu] at hq
      exact absurd (hlone u q hq) htu
  exact {
    single := fun u v q r hq hr => (honly hq).1.symm.trans (honly hr).1
    flying := fun _ _ _ => hflying
    unsettled := fun u q hq hne => hunsettled ((honly hq).2 ▸ hne)
    counted := fun work hw hm => by
      refine hcounted ?_ work hw
      rintro rfl
      exact hm t (by rw [hphase, if_pos rfl])
    ahead := fun u work hw hq => hahead (honly hq).2.symm work hw
    kept := hkept
    closed := hclosed }

/-- An object that no call has recorded, or the record of pending work, is counted on. -/
theorem Kept.executes (h : Kept s) (ht : s.tasks[t]? = some task)
    (hold : ∀ id, s.phase id t = none) (hlt : entry < s.objects.length)
    (hrecord : ∀ id, Maps.get s.entries id = some entry → id = i ∧
      Maps.get s.inFlight i = none ∧ ∃ work, s.record i = some work ∧ work.status = .pending)
    (recovered : Bool) (now : JsString) (call : Call) :
    Kept (execute s t i entry recovered now call) := by
  have htasks : (execute s t i entry recovered now call).tasks =
      s.tasks.set t (.writing none (.marking i entry recovered s.executions.length) call) := rfl
  have hupdate : ∀ id, (execute s t i entry recovered now call).record id =
      if Maps.get s.entries id = some entry then (s.record id).map (Work.attempt now)
      else s.record id := fun id => record_update (s := s) (Work.attempt now)
  constructor
  · have hx : Extends s (execute s t i entry recovered now call) := {
      length := by simp [execute, Inbox.persist, Inbox.update]
      entries := fun _ _ he => he
      ids := (extends_update s entry (Work.attempt now) fun _ => rfl).ids }
    exact {
      nodup := h.placed.nodup
      objects := fun id e he => by
        obtain ⟨work, hw, hid⟩ := h.placed.objects id e he
        obtain ⟨work', hw', hid'⟩ := hx.ids e work hw
        exact ⟨work', hw', hid'.trans hid⟩
      marked := fun written id e r x c hmem => by
        refine lt_of_lt_of_le ?_ hx.length
        rcases mem_set_or hmem with hmem | heq
        · exact h.placed.marked _ _ _ _ _ _ hmem
        · simp only [Task.writing.injEq, Stage.marking.injEq] at heq
          exact heq.2.1.2.1 ▸ hlt
      copies := fun copy c hmem => by
        rcases mem_set_or hmem with hmem | heq
        · obtain ⟨hcopy, hne⟩ := h.placed.copies copy c hmem
          exact ⟨lt_of_lt_of_le hcopy hx.length, hne⟩
        · cases heq }
  · intro id
    have hphase := phase_of_set s (execute s t i entry recovered now call) id htasks
      (lt_of_task ht) rfl
    by_cases hlive : Maps.get s.entries id = some entry
    · obtain ⟨rfl, hfree, work, hw, hpending⟩ := hrecord id hlive
      have hnone : ∀ u, s.phase id u = none := by
        intro u
        cases hp : s.phase id u with
        | none => rfl
        | some p => exact absurd ((h.sound id).flying u p hp) (by simp [hfree])
      have hcount : work.attempts = count s.history id :=
        (h.sound id).counted work hw fun u => by simp [hnone]
      have hnew : (execute s t id entry recovered now call).record id =
          some (work.attempt now) := by
        rw [hupdate, if_pos hlive, hw]
        rfl
      refine Sound.turn (s := s) (t := t) (p := .marking) ?_
        (fun u q hq => by simp [hnone] at hq)
        (by simp [execute]) (fun _ => ⟨_, hnew, hpending⟩) (fun hne => absurd rfl hne)
        (fun _ w hw' => ?_) (fun _ => by rw [hnew]; rfl) (fun w hw' hc => ?_)
      · intro u
        rw [hphase]
        simp [Task.phase, hlive]
      · cases hnew.symm.trans hw'
        exact congrArg (· + 1) hcount
      · cases hnew.symm.trans hw'
        have hc : work.status = .completed := hc
        rw [hpending] at hc
        cases hc
    · refine (h.sound id).leave htasks (lt_of_task ht) rfl (by simp [hold]) ?_
        (by rw [hupdate, if_neg hlive]) ?_ rfl rfl
      · simp only [Task.phase]
        rw [if_neg]
        rintro ⟨rfl, he⟩
        exact hlive he
      · by_cases hi : i = id
        · exact .inr (.inl (by simp [execute, hi]))
        · exact .inl (Maps.get_set_ne hi)

/-- The execution that has been counted on the record goes on to the handler. -/
theorem Kept.starts {recovered : Bool} {execution : ℕ} {call : Call} (h : Kept s)
    (ht : s.tasks[t]? = some (.writing (some true) (.marking i entry recovered execution) call))
    (hlive : Maps.get s.entries i = some entry) (input : Envelope × Value × Bool) :
    Kept ({ s with history := .started i :: s.history }.put t
      (.handling i input execution call)) := by
  have hlt := lt_of_task ht
  constructor
  · exact Placed.put (s := { s with history := .started i :: s.history })
      { h.placed with } rfl
  · intro id
    by_cases hid : i = id
    · subst hid
      have hmarking : s.phase i t = some .marking := by rw [phase_eq ht]; simp [Task.phase, hlive]
      obtain ⟨work, hw, hpending⟩ := (h.sound i).unsettled t _ hmarking (by simp)
      have hphase := phase_of_set s ({ s with history := .started i :: s.history }.put t
        (.handling i input execution call)) i rfl hlt rfl
      refine Sound.turn (t := t) (p := .handling) (fun u => by rw [hphase]; simp [Task.phase])
        (fun u q hq => (h.sound i).single t u _ q hmarking hq)
        ((h.sound i).flying t _ hmarking) (fun _ => ⟨work, hw, hpending⟩) (fun _ w hw' => ?_)
        (fun hne => by cases hne) (fun _ => ?_) (fun w hw' => ?_)
      · exact ((h.sound i).ahead t w hw' hmarking).trans (by simp [Inbox.put, count])
      · exact hw ▸ rfl
      · exact (h.sound i).closed w hw'
    · refine (h.sound id).leave rfl hlt rfl ?_ ?_ rfl (.inl rfl) ?_ rfl
      · rw [phase_eq ht]
        simp [Task.phase, hid]
      · simp [Task.phase, hid]
      · simp [Inbox.put, count, hid]

/-- The execution is over. -/
theorem Kept.release (h : Kept s) (ht : s.tasks[t]? = some task)
    (hp : s.phase i t ≠ none) (hm : s.phase i t ≠ some .marking)
    (ho : ∀ id, i ≠ id → s.phase id t = none) (execution : ℕ) (call : Call) :
    Kept (release s t i execution call) := by
  obtain ⟨task', hidle, heq⟩ := finish_eq { s with
    inFlight := Maps.delete i s.inFlight
    executions := s.executions.set execution true } t call
  rw [Accepted.release, heq]
  constructor
  · exact Placed.put (s := { s with
      inFlight := Maps.delete i s.inFlight
      executions := s.executions.set execution true })
      { h.placed with } (Task.placeless_of_idle hidle)
  · intro id
    by_cases hid : i = id
    · subst hid
      exact (h.sound i).leave rfl (lt_of_task ht) rfl hm (Task.phase_of_idle hidle _) rfl
        (.inr (.inr hp)) rfl rfl
    · exact (h.sound id).leave rfl (lt_of_task ht) rfl (by simp [ho id hid])
        (Task.phase_of_idle hidle _) rfl (.inl (Maps.get_delete_ne hid)) rfl rfl

/-- The record is dropped with its work completed. -/
theorem Sound.drop {work : Work} (h : Sound s id) (hw : s.record id = some work)
    (hc : work.status = .completed) (hget : Maps.get s'.entries id = none)
    (htasks : s'.tasks = s.tasks) (hflight : s'.inFlight = s.inFlight)
    (hhistory : s'.history = s.history) : Sound s' id := by
  have hvacant : ∀ {u p}, s.phase id u = some p → p = .closing := by
    intro u p hp
    by_contra hne
    obtain ⟨w, hw', hpending⟩ := h.unsettled u p hp hne
    obtain rfl : work = w := by simpa [hw] using hw'
    rw [hc] at hpending
    cases hpending
  have hrecord : s'.record id = none := by simp [Inbox.record, hget]
  have hback : ∀ {u p}, s'.phase id u = some p → s.phase id u = some p := by
    intro u p hp
    rw [Inbox.phase, htasks] at hp
    obtain ⟨task, ht, hp⟩ := Option.bind_eq_some_iff.mp hp
    rw [phase_eq ht, ← hp]
    cases task with
    | writing written stage call =>
      cases stage with
      | marking i entry recovered execution =>
        simp only [Task.phase] at hp
        split at hp
        next hi => exact absurd hi.2 (by simp [hi.1, hget])
        next => cases hp
      | _ => rfl
    | _ => rfl
  have howed : owed s.history id = false := h.closed work hw hc
  exact {
    single := fun u v p q hp hq => h.single u v p q (hback hp) (hback hq)
    flying := fun u p hp => hflight ▸ h.flying u p (hback hp)
    unsettled := fun u p hp hne => absurd (hvacant (hback hp)) hne
    counted := fun w hw' => by simp [hrecord] at hw'
    ahead := fun u w hw' => by simp [hrecord] at hw'
    kept := fun ho => by simp [hhistory, howed] at ho
    closed := fun w hw' => by simp [hrecord] at hw' }

theorem get_deleted (old : List Work) (entries : List (JsString × ℕ)) (id : JsString) :
    let entries' := old.foldl (fun entries work => Maps.delete work.id entries) entries
    Maps.get entries' id = Maps.get entries id ∨
      Maps.get entries' id = none ∧ ∃ work ∈ old, work.id = id := by
  induction old generalizing entries with
  | nil => exact .inl rfl
  | cons work old ih =>
    rcases ih (Maps.delete work.id entries) with heq | ⟨hnone, w, hw, hid⟩
    · by_cases hid : work.id = id
      · exact .inr ⟨heq.trans (by simp [Maps.get_delete, hid]), work, by simp, hid⟩
      · exact .inl (heq.trans (Maps.get_delete_ne hid))
    · exact .inr ⟨hnone, w, List.mem_cons_of_mem _ hw, hid⟩

theorem nodup_deleted (old : List Work) {entries : List (JsString × ℕ)}
    (h : (entries.map Prod.fst).Nodup) :
    ((old.foldl (fun entries work => Maps.delete work.id entries) entries).map Prod.fst).Nodup := by
  induction old generalizing entries with
  | nil => exact h
  | cons work old ih => exact ih (Maps.nodup_delete h)

/-- What is in the map is a record. -/
theorem Placed.record_of_mem {work : Work} (h : Placed s)
    (hw : work ∈ s.entries.filterMap fun p => s.objects[p.2]?) : s.record work.id = some work := by
  obtain ⟨⟨id, entry⟩, hp, hw⟩ := List.mem_filterMap.mp hw
  have hget : Maps.get s.entries id = some entry := Maps.get_of_mem h.nodup hp
  obtain ⟨w, hw', hid, hobject⟩ := h.record hget
  obtain rfl : w = work := by simpa [hobject] using hw
  exact hid ▸ hw'

/-- `#trimCompleted` takes away what is completed, and leaves the rest. -/
theorem Kept.trim (H : Host) (h : Kept s) : Kept (trimCompleted H s) := by
  have hget : ∀ id, Maps.get (trimCompleted H s).entries id = Maps.get s.entries id ∨
      Maps.get (trimCompleted H s).entries id = none ∧
        ∃ work, s.record id = some work ∧ work.status = .completed := by
    intro id
    refine (get_deleted _ s.entries id).imp (fun h => h) ?_
    rintro ⟨hnone, work, hwork, rfl⟩
    have hmem := (H.collation.sortBy_perm _).mem_iff.mp (List.mem_of_mem_take hwork)
    obtain ⟨hmem, hc⟩ := List.mem_filter.mp hmem
    exact ⟨hnone, work, h.placed.record_of_mem hmem, by simpa using hc⟩
  constructor
  · refine h.placed.extend ⟨le_refl _, fun id entry he => ?_, fun _ work hw => ⟨work, hw, rfl⟩⟩
      (nodup_deleted _ h.placed.nodup) fun _ hk => .inl hk
    rcases hget id with heq | ⟨hnone, -⟩
    · exact heq ▸ he
    · exact absurd he (by simp [hnone])
  · intro id
    rcases hget id with heq | ⟨hnone, work, hw, hc⟩
    · have hphase : ∀ t, (trimCompleted H s).phase id t = s.phase id t := fun t =>
        Option.bind_congr fun _ _ => Task.phase_congr heq
      refine (h.sound id).of ?_ (fun t => .inl (hphase t))
        (fun t p hp => (h.sound id).flying t p (hphase t ▸ hp)) rfl rfl
      rw [Inbox.record, heq]
      rfl
    · exact (h.sound id).drop hw hc hnone rfl rfl rfl

/-! ### Settling -/

/-- The record of an execution takes another status. -/
theorem Kept.settles (f : Work → Work) (stage : Stage) (note : Note) (h : Kept s)
    (ht : s.tasks[t]? = some task) (hp : s.phase i t ≠ none) (hm : s.phase i t ≠ some .marking)
    (ho : ∀ id, i ≠ id → s.phase id t = none) (hget : Maps.get s.entries i = some entry)
    (hf : ∀ work, (f work).id = work.id ∧ (f work).attempts = work.attempts ∧
      ((f work).status = .completed → note = .completed i))
    (hn : note = .completed i ∨ note = .failed i)
    (hs : ∀ entries id call, Task.phase entries id (.writing none stage call) =
      if i = id then some .closing else none)
    (hs' : ∀ call, (Task.writing none stage call).placeless = true) (call : Call) :
    Kept ({ s.update entry f with history := note :: s.history }.put t
      (.writing none stage call)) := by
  have hlt := lt_of_task ht
  have hupdate : ∀ id, ({ s.update entry f with history := note :: s.history }.put t
      (.writing none stage call)).record id =
        if Maps.get s.entries id = some entry then (s.record id).map f else s.record id :=
    fun id => record_update (s := s) f
  have hcount : ∀ id, count (note :: s.history) id = count s.history id := by
    rcases hn with rfl | rfl <;> exact fun _ => rfl
  constructor
  · have hx := extends_update s entry f fun work => (hf work).1
    refine h.placed.extend ⟨hx.length, hx.entries, hx.ids⟩ h.placed.nodup fun k hk => ?_
    rcases mem_set_or hk with hk | rfl
    · exact .inl hk
    · exact .inr (hs' call)
  · intro id
    by_cases hid : i = id
    · subst hid
      obtain ⟨p, hp⟩ := Option.ne_none_iff_exists'.mp hp
      obtain ⟨work, hw, -, -⟩ := h.placed.record hget
      have hnew : _ = some (f work) := (hupdate i).trans (by rw [if_pos hget, hw]; rfl)
      have hphase := phase_of_set s
        ({ s.update entry f with history := note :: s.history }.put t
          (.writing none stage call)) i rfl hlt rfl
      have hunmarked : ∀ u, s.phase i u ≠ some .marking := by
        intro u hu
        obtain rfl := (h.sound i).single t u p _ hp hu
        exact hm hu
      refine Sound.turn (s := s) (t := t) (p := .closing) (fun u => by rw [hphase, hs]; simp)
        (fun u q hq => (h.sound i).single t u p q hp hq) ((h.sound i).flying t p hp)
        (fun hne => absurd rfl hne) (fun _ w hw' => ?_) (fun hne => by cases hne)
        (fun _ => by rw [hnew]; rfl) (fun w hw' hc => ?_)
      · cases hnew.symm.trans hw'
        rw [(hf work).2.1]
        exact ((h.sound i).counted work hw hunmarked).trans (hcount i).symm
      · cases hnew.symm.trans hw'
        obtain rfl := (hf work).2.2 hc
        simp [Inbox.put, owed]
    · have hne : Maps.get s.entries id ≠ some entry := fun he =>
        hid (h.placed.injective hget he)
      refine (h.sound id).leave rfl hlt rfl (by simp [ho id hid]) (by rw [hs, if_neg hid])
        (by rw [hupdate, if_neg hne]) (.inl rfl) (hcount id) ?_
      rcases hn with rfl | rfl
      · simp [Inbox.put, owed, hid]
      · rfl

/-- Fields that no invariant is about. -/
theorem Kept.of_same (h : Kept s) (hobjects : s'.objects = s.objects)
    (hentries : s'.entries = s.entries) (hflight : s'.inFlight = s.inFlight)
    (htasks : s'.tasks = s.tasks) (hhistory : s'.history = s.history) : Kept s' := by
  obtain ⟨objects, entries, inFlight, _, _, _, _, _, _, tasks, history⟩ := s'
  obtain rfl : objects = s.objects := hobjects
  obtain rfl : entries = s.entries := hentries
  obtain rfl : inFlight = s.inFlight := hflight
  obtain rfl : tasks = s.tasks := htasks
  obtain rfl : history = s.history := hhistory
  exact ⟨{ h.placed with }, fun id => { h.sound id with }⟩

theorem Kept.fails (h : Kept s) (ht : s.tasks[t]? = some task)
    (hp : s.phase i t ≠ none) (hm : s.phase i t ≠ some .marking)
    (ho : ∀ id, i ≠ id → s.phase id t = none) (execution : ℕ) (error : Value) (now : JsString)
    (call : Call) : Kept (failWork s t i execution error now call) := by
  unfold failWork
  split
  · exact h.release ht hp hm ho execution call
  · next entry hget =>
    exact (h.settles (Work.fail (serializedError error) now) (.failing i execution)
      (.failed i) ht hp hm ho hget (fun _ => ⟨rfl, rfl, fun hc => by cases hc⟩) (.inr rfl)
      (fun _ _ _ => rfl) (fun _ => rfl) call).of_same rfl rfl rfl rfl rfl

theorem Kept.completes (H : Host) (h : Kept s) (ht : s.tasks[t]? = some task)
    (hp : s.phase i t ≠ none) (hm : s.phase i t ≠ some .marking)
    (ho : ∀ id, i ≠ id → s.phase id t = none) (execution : ℕ) (result : Value) (now : JsString)
    (call : Call) : Kept (completeWork H s t i execution result now call) := by
  unfold completeWork
  split
  · exact h.release ht hp hm ho execution call
  · next entry hget =>
    have hdone := h.settles (Work.complete result now) (.completing i execution)
      (.completed i) ht hp hm ho hget (fun _ => ⟨rfl, rfl, fun _ => rfl⟩) (.inl rfl)
      (fun _ _ _ => rfl) (fun _ => rfl) call
    exact (hdone.trim H).of_same rfl rfl rfl rfl rfl

end Truyn.Accepted
