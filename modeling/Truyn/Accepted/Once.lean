import Truyn.Accepted.Executions

/-! accepted:once | accepted work is kept, and its handler runs once at a time

    What is wanted of an inbox holds in every run in which `load` takes nothing away, and an execution
    goes on to the handler just when it counts on the record of the map (`at_most_once`). `run` on
    work that no call has accepted before counts on a copy, and does not look again. -/

namespace Truyn.Accepted
open Relation
open Trust (Value)

variable {H : Host} {s s' : Inbox} {id i j : JsString} {t u entry : ℕ} {task task' : Task}

/-! ### Loading -/

/-- The last of the entries with this id. -/
def lastOf (l : List Work) (id : JsString) : Option Work := l.reverse.find? fun work => work.id = id

variable {l : List Work} {stage : Stage} {ok : Bool} {call : Call} {ev : Event} {evs : List Event}

theorem lastOf_cons {work : Work} : lastOf (work :: l) id =
    (lastOf l id).or (if work.id = id then some work else none) := by
  rw [lastOf, List.reverse_cons, List.find?_append, lastOf]
  by_cases h : work.id = id <;> simp [h]

/-- What the loop of `load` makes of a state: an entry of the file for each id that is among them. -/
structure ReadFrom (s : Inbox) (l : List Work) (s' : Inbox) : Prop where
  tasks : s'.tasks = s.tasks
  inFlight : s'.inFlight = s.inFlight
  objects : s.objects.length ≤ s'.objects.length ∧
    ∀ (entry : ℕ) (work : Work), s.objects[entry]? = some work → s'.objects[entry]? = some work
  nodup : (s.entries.map Prod.fst).Nodup → (s'.entries.map Prod.fst).Nodup
  found : ∀ id work, lastOf l id = some work →
    (∃ entry, Maps.get s'.entries id = some entry ∧ s.objects.length ≤ entry ∧
      s'.objects[entry]? = some work) ∧
    count s'.history id = work.attempts ∧ owed s'.history id = decide (work.status ≠ .completed)
  other : ∀ id, lastOf l id = none → Maps.get s'.entries id = Maps.get s.entries id ∧
    count s'.history id = count s.history id ∧ owed s'.history id = owed s.history id

theorem readInto_from (s : Inbox) (l : List (Option Work)) :
    ReadFrom s (l.takeWhile Option.isSome).reduceOption (readInto s l).1 := by
  induction l generalizing s with
  | nil => exact ⟨rfl, rfl, ⟨le_refl _, fun _ _ h => h⟩, id, fun _ _ h => by simp [lastOf] at h,
      fun _ _ => ⟨rfl, rfl, rfl⟩⟩
  | cons item l ih =>
    cases item with
    | none => exact ⟨rfl, rfl, ⟨le_refl _, fun _ _ h => h⟩, id, fun _ _ h => by simp [lastOf] at h,
        fun _ _ => ⟨rfl, rfl, rfl⟩⟩
    | some work =>
      have hrest := ih (s.add work)
      have hlist : ((some work :: l).takeWhile Option.isSome).reduceOption =
          work :: (l.takeWhile Option.isSome).reduceOption := by simp
      have hlength : s.objects.length + 1 ≤ (readInto (s.add work) l).1.objects.length := by
        simpa [Inbox.add] using hrest.objects.1
      rw [hlist, readInto]
      exact {
        tasks := hrest.tasks
        inFlight := hrest.inFlight
        objects := ⟨by omega, fun entry w hw => hrest.objects.2 entry w (by
          rw [← hw]
          exact List.getElem?_append_left (List.getElem_of_getElem? hw).1)⟩
        nodup := fun h => hrest.nodup (Maps.nodup_set h)
        found := fun id w hw => by
          rw [lastOf_cons] at hw
          cases hlast : lastOf (l.takeWhile Option.isSome).reduceOption id with
          | some w' =>
            obtain rfl : w' = w := by simpa [hlast] using hw
            obtain ⟨⟨entry, hget, hle, hobject⟩, hcounts⟩ := hrest.found id w' hlast
            simp only [Inbox.add, List.length_append, List.length_singleton] at hle
            exact ⟨⟨entry, hget, by omega, hobject⟩, hcounts⟩
          | none =>
            obtain ⟨hget, hcount, howed⟩ := hrest.other id hlast
            rw [hlast, Option.none_or] at hw
            split at hw
            · next hid =>
              cases hw
              refine ⟨⟨s.objects.length, hget.trans (by simp [Inbox.add, hid]), le_refl _, ?_⟩,
                hcount.trans (by simp [Inbox.add, count, hid]),
                howed.trans (by simp [Inbox.add, owed, hid])⟩
              exact hrest.objects.2 _ _ (by simp [Inbox.add])
            · cases hw
        other := fun id hnone => by
          rw [lastOf_cons] at hnone
          obtain ⟨hlast, hid⟩ := Option.or_eq_none_iff.mp hnone
          have hid : work.id ≠ id := by simpa using hid
          obtain ⟨hget, hcount, howed⟩ := hrest.other id hlast
          exact ⟨hget.trans (Maps.get_set_ne hid), hcount.trans (by simp [Inbox.add, count, hid]),
            howed.trans (by simp [Inbox.add, owed, hid])⟩ }

/-- The map is read again: it has the same records, or had none. -/
theorem Kept.reads (h : Kept s) (hr : ReadFrom { s with entries := [] } l s')
    (hsame : s.entries = [] ∨ (∀ id, lastOf l id = s.record id) ∧
      ∀ id, ∀ task ∈ s.tasks, ¬Marks s id task) : Kept s' := by
  have hunmarked : ∀ id, ∀ task ∈ s.tasks, task.phase s.entries id ≠ some .marking := by
    intro id task htask hphase
    have hmarks : Marks s id task := marks_of_phase hphase
    rcases hsame with hempty | ⟨-, hno⟩
    · obtain ⟨-, entry, -, -, -, -, hget⟩ := hmarks
      rw [hempty] at hget
      cases hget
    · exact hno id task htask hmarks
  -- the places of what has been read are new, so no task marks it
  have hfresh : ∀ id entry, Maps.get s'.entries id = some entry → s.objects.length ≤ entry := by
    intro id entry hget
    cases hlast : lastOf l id with
    | some work =>
      obtain ⟨⟨e, he, hle, -⟩, -⟩ := hr.found id work hlast
      obtain rfl : e = entry := by simpa [hget] using he.symm
      exact hle
    | none =>
      rw [(hr.other id hlast).1] at hget
      cases hget
  have hphase : ∀ id t, s'.phase id t = s.phase id t := by
    intro id t
    rw [Inbox.phase, hr.tasks]
    refine Option.bind_congr fun task ht => ?_
    have hmem := List.mem_of_getElem? ht
    cases task with
    | writing written stage call =>
      cases stage with
      | marking i entry recovered execution =>
        have hold := hunmarked id _ hmem
        have hlt := h.placed.marked _ _ _ _ _ _ hmem
        have hnew : ¬(i = id ∧ Maps.get s'.entries i = some entry) := by
          rintro ⟨-, hget⟩
          have := hfresh i entry hget
          omega
        simp only [Task.phase, if_neg hnew]
        simp only [Task.phase] at hold
        split at hold
        · exact absurd rfl hold
        · next hi => exact (if_neg hi).symm
      | _ => rfl
    | _ => rfl
  constructor
  · exact {
      nodup := hr.nodup List.nodup_nil
      objects := fun id entry hget => by
        cases hlast : lastOf l id with
        | some work =>
          obtain ⟨⟨e, he, -, hobject⟩, -⟩ := hr.found id work hlast
          obtain rfl : e = entry := by simpa [hget] using he.symm
          exact ⟨work, hobject, by simpa using List.find?_some hlast⟩
        | none =>
          rw [(hr.other id hlast).1] at hget
          cases hget
      marked := fun written id entry recovered execution call hmem =>
        lt_of_lt_of_le (h.placed.marked _ _ _ _ _ _ (hr.tasks ▸ hmem)) hr.objects.1
      copies := fun copy call hmem => by
        obtain ⟨hlt, -⟩ := h.placed.copies copy call (hr.tasks ▸ hmem)
        refine ⟨lt_of_lt_of_le hlt hr.objects.1, fun id hget => ?_⟩
        have := hfresh id copy hget
        omega }
  · intro id
    cases hlast : lastOf l id with
    | none =>
      obtain ⟨hget, hcount, howed⟩ := hr.other id hlast
      have hnone : s.record id = none := by
        rcases hsame with hempty | ⟨hrecords, -⟩
        · simp [Inbox.record, hempty]
        · exact (hrecords id).symm.trans hlast
      have hgone : s'.record id = none := by simp [Inbox.record, hget]
      exact (h.sound id).of (hgone.trans hnone.symm) (fun t => .inl (hphase id t))
        (fun t p hp => hr.inFlight ▸ (h.sound id).flying t p (hphase id t ▸ hp)) hcount howed
    | some work =>
      obtain ⟨⟨entry, hget, -, hobject⟩, hcount, howed⟩ := hr.found id work hlast
      have hrecord : s'.record id = some work := by simp [Inbox.record, hget, hobject]
      have hnomark : ∀ t, s'.phase id t ≠ some .marking := by
        intro t hp
        rw [hphase] at hp
        obtain ⟨task, ht, hp⟩ := Option.bind_eq_some_iff.mp hp
        exact hunmarked id task (List.mem_of_getElem? ht) hp
      exact {
        single := fun t u p q hp hq =>
          (h.sound id).single t u p q (hphase id t ▸ hp) (hphase id u ▸ hq)
        flying := fun t p hp => hr.inFlight ▸ (h.sound id).flying t p (hphase id t ▸ hp)
        unsettled := fun t p hp hne => by
          obtain ⟨w, hw, hpending⟩ := (h.sound id).unsettled t p (hphase id t ▸ hp) hne
          rcases hsame with hempty | ⟨hrecords, -⟩
          · simp [Inbox.record, hempty] at hw
          · obtain rfl : work = w := by simpa [← hrecords id, hlast] using hw
            exact ⟨work, hrecord, hpending⟩
        counted := fun w hw _ => by
          obtain rfl : work = w := by simpa [hrecord] using hw
          exact hcount.symm
        ahead := fun t w _ hp => absurd hp (hnomark t)
        kept := fun _ => by rw [hrecord]; rfl
        closed := fun w hw hc => by
          obtain rfl : work = w := by simpa [hrecord] using hw
          simp [howed, hc] }

theorem phase_idle (ht : s.tasks[t]? = some task) (hi : task.idle = true) (id : JsString) :
    s.phase id t = none := by
  rw [phase_eq ht, Task.phase_of_idle hi]

theorem unmarked (ht : s.tasks[t]? = some task) (hi : task.idle = true) (id : JsString) :
    s.phase id t ≠ some .marking := by
  rw [phase_idle ht hi]
  exact nofun

theorem Kept.load {content : Content} {call : Call} (h : Kept s)
    (ht : s.tasks[t]? = some (.read content call)) (hr : Restores s content) :
    Kept (load s t content call) := by
  cases content with
  | invalid => exact h.finish ht (unmarked ht rfl) call
  | missing =>
    have hread : ReadFrom { s with entries := [] } [] { s with entries := [] } := {
      tasks := rfl
      inFlight := rfl
      objects := ⟨le_refl _, fun _ _ hw => hw⟩
      nodup := fun hn => hn
      found := fun _ _ hw => by simp [lastOf] at hw
      other := fun _ _ => ⟨rfl, rfl, rfl⟩ }
    have hkept : Kept { s with entries := [] } :=
      h.reads hread (hr.imp (fun h => h) fun hr => hr.resolve_left (by simp))
    have hput : Kept (Inbox.put { s with entries := [] } t (.loaded call)) :=
      hkept.rest ht (unmarked ht rfl) rfl
    exact hput.of_same rfl rfl rfl rfl rfl
  | entries l =>
    have hread := readInto_from { s with entries := [] } l
    have hkept : Kept (readInto { s with entries := [] } l).1 :=
      h.reads hread (hr.imp (fun h => h) fun hr => hr.resolve_left (by simp))
    have ht' : (readInto { s with entries := [] } l).1.tasks[t]? =
        some (.read (.entries l) call) := by
      rw [hread.tasks]
      exact ht
    simp only [Accepted.load]
    split
    next s' heq =>
      rw [heq] at hkept ht'
      exact hkept.finish ht' (unmarked ht' rfl) call
    next s' heq =>
      rw [heq] at hkept ht'
      have hput : Kept (s'.put t (.loaded call)) := hkept.rest ht' (unmarked ht' rfl) rfl
      exact hput.of_same rfl rfl rfl rfl rfl

/-! ### Steps -/

theorem entering_idle (s : Inbox) (call : Call) : (s.entering call).idle = true := by
  unfold Inbox.entering
  split <;> rfl

theorem Kept.accepts (h : Kept s) (ht : s.tasks[t]? = some task) (hi : task.idle = true)
    (envelope : Envelope) (context : Value) (now : JsString) (call : Call) :
    Kept (accept s t envelope context now call) := by
  unfold accept
  split
  · exact h.finish ht (unmarked ht hi) call
  · split
    · exact h.copy ht (unmarked ht hi) _ call
    · next hnone => exact h.accepted ht (phase_idle ht hi) _ hnone rfl call

theorem Kept.runs (h : Kept s) (ht : s.tasks[t]? = some task) (hi : task.idle = true)
    (envelope : Envelope) (context : Value) (rest : List (Envelope × Value)) (now : JsString) :
    Kept (run s t envelope context rest now) := by
  unfold run
  dsimp only
  split
  · exact h.finish ht (unmarked ht hi) _
  · exact h.finish ht (unmarked ht hi) _
  · next hc hf =>
    split
    · exact h.rest ht (unmarked ht hi) rfl
    · next entry hflight hget =>
      obtain ⟨work, hw, -, -⟩ := h.placed.record hget
      refine h.executes ht (phase_idle ht hi) (h.placed.lt hget)
        (fun id he => ⟨h.placed.injective he hget, hflight, work, hw, ?_⟩) true now _
      cases hstatus : work.status with
      | pending => rfl
      | completed => exact absurd (by simp [hw, hstatus]) hc
      | failed => exact absurd (by simp [hw, hstatus]) hf
    · exact h.rest ht (unmarked ht hi) (entering_idle s _)

theorem Kept.recovers (H : Host) (h : Kept s) (ht : s.tasks[t]? = some task)
    (hi : task.idle = true) : Kept (recover H s t) := by
  unfold recover
  split
  · exact h.rest ht (unmarked ht hi) rfl
  · exact h.rest ht (unmarked ht hi) (entering_idle s _)

/-- A write has ended for a stage of which the task knows nothing yet. -/
theorem Kept.settle (h : Kept s) (ht : s.tasks[t]? = some (.writing (some ok) stage call))
    (now : JsString)
    (ho : ∀ id entry recovered execution, stage = .marking id entry recovered execution →
      (ok = true ↔ Maps.get s.entries id = some entry)) :
    Kept (settle s t now ok call stage) := by
  cases stage with
  | accepted entry =>
    simp only [Accepted.settle]
    split
    · exact h.copy ht (unmarked ht rfl) _ call
    · exact h.finish ht (unmarked ht rfl) call
  | marking id entry recovered execution =>
    have hlive := ho id entry recovered execution rfl
    simp only [Accepted.settle]
    split
    · exact h.starts ht (hlive.mp rfl) _
    · next hno =>
      have hdead : Maps.get s.entries id ≠ some entry := by
        intro hget
        obtain ⟨work, -, -, hobject⟩ := h.placed.record hget
        exact hno work (hlive.mpr hget) hobject
      have hkept : Kept { s with executions := s.executions.set execution true } :=
        h.of_same rfl rfl rfl rfl rfl
      refine hkept.finish ht (fun i => ?_) call
      show s.phase i t ≠ some .marking
      rw [phase_eq ht]
      simp only [Task.phase]
      rw [if_neg]
      · simp
      · rintro ⟨-, hget⟩
        exact hdead hget
  | completing id execution =>
    have hp : s.phase id t = some .closing := by rw [phase_eq ht]; simp [Task.phase]
    have ho : ∀ i, id ≠ i → s.phase i t = none := fun i hi => by
      rw [phase_eq ht]
      simp [Task.phase, hi]
    simp only [Accepted.settle]
    split
    · exact h.release ht (by simp [hp]) (by simp [hp]) ho execution call
    · exact h.fails ht (by simp [hp]) (by simp [hp]) ho execution _ now call
  | failing id execution =>
    have hp : s.phase id t = some .closing := by rw [phase_eq ht]; simp [Task.phase]
    have ho : ∀ i, id ≠ i → s.phase i t = none := fun i hi => by
      rw [phase_eq ht]
      simp [Task.phase, hi]
    exact h.release ht (by simp [hp]) (by simp [hp]) ho execution call

theorem Kept.resume {H : Host} {now : JsString} (h : Kept s) (ht : s.tasks[t]? = some task)
    (ho : InOrder s (.resume t now)) (hs : resume H s t now task = some s') : Kept s' := by
  cases task with
  | read content call => exact Option.some.inj hs ▸ h.load ht (ho.1 content call ht)
  | loaded call =>
    cases call with
    | load => exact Option.some.inj hs ▸ h.rest ht (unmarked ht rfl) rfl
    | accept envelope context => exact Option.some.inj hs ▸ h.accepts ht rfl _ _ now _
    | run envelope context rest => exact Option.some.inj hs ▸ h.runs ht rfl _ _ rest now
    | runAccept envelope context rest => exact Option.some.inj hs ▸ h.accepts ht rfl _ _ now _
    | recover => exact Option.some.inj hs ▸ h.recovers H ht rfl
  | returned copy call =>
    have hold : ∀ id, s.phase id t = none := fun id => by rw [phase_eq ht]; rfl
    obtain ⟨hlt, hne⟩ := h.placed.copies copy call (List.mem_of_getElem? ht)
    cases call with
    | runAccept envelope context rest =>
      exact Option.some.inj hs ▸ h.executes ht hold hlt (fun id he => absurd he (hne id)) false now _
    | _ => exact Option.some.inj hs ▸ h.rest ht (fun id => by simp [hold]) rfl
  | writing written stage call =>
    cases written with
    | none => cases hs
    | some ok =>
      refine Option.some.inj hs ▸ h.settle ht now fun id entry recovered execution hstage => ?_
      subst hstage
      exact ho.2 ok id entry recovered execution call ht
  | joined execution call =>
    simp only [Accepted.resume] at hs
    split at hs
    · exact Option.some.inj hs ▸ h.finish ht (unmarked ht rfl) call
    · cases hs
  | _ => cases hs

/-- A write ends: the task that waits for it knows how, and does what it did. -/
theorem Kept.written (h : Kept s) (ht : s.tasks[t]? = some (.writing none stage call)) (ok : Bool) :
    Kept { s with tasks := s.tasks.set t (.writing (some ok) stage call) } := by
  have hphase : ∀ id u, ({ s with
      tasks := s.tasks.set t (.writing (some ok) stage call) } : Inbox).phase id u =
        s.phase id u := by
    intro id u
    refine (phase_of_set s { s with
      tasks := s.tasks.set t (.writing (some ok) stage call) } id rfl (lt_of_task ht)
      rfl u).trans ?_
    by_cases htu : t = u
    · subst htu
      rw [if_pos rfl, phase_eq ht]
      cases stage <;> rfl
    · exact if_neg htu
  constructor
  · exact {
      nodup := h.placed.nodup
      objects := h.placed.objects
      marked := fun written id entry recovered execution call hmem => by
        rcases mem_set_or hmem with hmem | heq
        · exact h.placed.marked _ _ _ _ _ _ hmem
        · obtain ⟨-, rfl, -⟩ := Task.writing.inj heq
          exact h.placed.marked _ _ _ _ _ _ (List.mem_of_getElem? ht)
      copies := fun copy call hmem => by
        rcases mem_set_or hmem with hmem | heq
        · exact h.placed.copies copy call hmem
        · cases heq }
  · exact fun id => (h.sound id).of rfl (fun u => .inl (hphase id u))
      (fun u p hp => (h.sound id).flying u p (hphase id u ▸ hp)) rfl rfl

theorem Kept.writes (h : Kept s) (hs : writeNext s ok = some s') : Kept s' := by
  unfold writeNext at hs
  split at hs
  · cases hs
  · next write rest _ =>
    dsimp only at hs
    split at hs
    · cases hs
      split
      · next ht => exact (h.written ht true).of_same rfl rfl rfl rfl rfl
      · exact h.of_same rfl rfl rfl rfl rfl
    · cases hs
    · cases hs
      split
      · next ht => exact (h.written ht false).of_same rfl rfl rfl rfl rfl
      · exact h.of_same rfl rfl rfl rfl rfl

/-- STEP: a step in order keeps a state sound. -/
theorem Kept.step {H : Host} (h : Kept s) (ho : InOrder s ev) (hs : step H s ev = some s') :
    Kept s' := by
  cases ev with
  | callLoad => exact Option.some.inj hs ▸ h.call _
  | callAccept envelope context => exact Option.some.inj hs ▸ h.call _
  | callRun envelope context => exact Option.some.inj hs ▸ h.call _
  | callRecover => exact Option.some.inj hs ▸ h.call _
  | readFile t =>
    simp only [Accepted.step] at hs
    split at hs
    · next call ht => exact Option.some.inj hs ▸ h.rest ht (unmarked ht rfl) rfl
    · cases hs
  | readFails t =>
    simp only [Accepted.step] at hs
    split at hs
    · next call ht => exact Option.some.inj hs ▸ h.finish ht (unmarked ht rfl) call
    · cases hs
  | resume t now =>
    obtain ⟨task, ht, hs⟩ := Option.bind_eq_some_iff.mp hs
    exact h.resume ht ho hs
  | stringify =>
    simp only [Accepted.step, stringify] at hs
    split at hs
    · exact Option.some.inj hs ▸ h.of_same rfl rfl rfl rfl rfl
    · cases hs
  | write ok => exact h.writes hs
  | handled t outcome now =>
    simp only [Accepted.step] at hs
    split at hs
    · next id input execution call result ht =>
      have hp : s.phase id t = some .handling := by rw [phase_eq ht]; simp [Task.phase]
      exact Option.some.inj hs ▸ h.completes H ht (by simp [hp]) (by simp [hp])
        (fun i hi => by rw [phase_eq ht]; simp [Task.phase, hi]) execution result now call
    · next id input execution call error ht =>
      have hp : s.phase id t = some .handling := by rw [phase_eq ht]; simp [Task.phase]
      exact Option.some.inj hs ▸ h.fails ht (by simp [hp]) (by simp [hp])
        (fun i hi => by rw [phase_eq ht]; simp [Task.phase, hi]) execution error now call
    · cases hs

theorem Kept.run {H : Host} (h : Kept s) (hrun : ReflTransGen (Orderly H) s s') : Kept s' := by
  induction hrun with
  | refl => exact h
  | tail _ hstep ih =>
    obtain ⟨ev, ho, hev⟩ := hstep
    exact ih.step ho hev

/-- A new instance, on whatever its file holds. -/
theorem Kept.start (file : Content) : Kept { file } where
  placed := {
    nodup := List.nodup_nil
    objects := fun _ _ hget => by cases hget
    marked := fun _ _ _ _ _ _ hmem => by cases hmem
    copies := fun _ _ hmem => by cases hmem }
  sound := fun _ => {
    single := fun t u p q hp => by simp [Inbox.phase] at hp
    flying := fun t p hp => by simp [Inbox.phase] at hp
    unsettled := fun t p hp => by simp [Inbox.phase] at hp
    counted := fun work hw => by cases hw
    ahead := fun t work hw => by cases hw
    kept := fun ho => by cases ho
    closed := fun work hw => by cases hw }

def Stepped (H : Host) (s s' : Inbox) : Prop := ∃ ev, step H s ev = some s'

/-- The steps of the list, one after the other. -/
def replay (H : Host) (s : Inbox) : List Event → Option Inbox
  | [] => some s
  | ev :: evs => (step H s ev).bind fun s' => replay H s' evs

/-- Enough for a step to be in order: `load` finds no entries, and what was marked is the record. -/
def tidy (s : Inbox) : Event → Bool
  | .resume t _ =>
    match s.tasks[t]? with
    | some (.read _ _) => s.entries.isEmpty
    | some (.writing (some ok) (.marking id entry _ _) _) =>
      ok && decide (Maps.get s.entries id = some entry)
    | _ => true
  | _ => true

def tidyAll (H : Host) (s : Inbox) : List Event → Bool
  | [] => true
  | ev :: evs => tidy s ev && ((step H s ev).map fun s' => tidyAll H s' evs).getD false

theorem inOrder_of_tidy (h : tidy s ev = true) : InOrder s ev := by
  cases ev with
  | resume t now =>
    refine ⟨fun content call ht => ?_, fun ok id entry recovered execution call ht => ?_⟩
    · simp only [tidy, ht] at h
      exact .inl (List.isEmpty_iff.mp h)
    · simp only [tidy, ht, Bool.and_eq_true, decide_eq_true_eq] at h
      exact ⟨fun _ => h.2, fun _ => h.1⟩
  | _ => trivial

theorem stepped_of_replay (h : replay H s evs = some s') :
    ReflTransGen (Stepped H) s s' := by
  induction evs generalizing s with
  | nil =>
    cases h
    exact .refl
  | cons ev evs ih =>
    obtain ⟨k, hk, h⟩ := Option.bind_eq_some_iff.mp h
    exact .head ⟨ev, hk⟩ (ih h)

theorem orderly_of_replay (h : replay H s evs = some s') (ht : tidyAll H s evs = true) :
    ReflTransGen (Orderly H) s s' := by
  induction evs generalizing s with
  | nil =>
    cases h
    exact .refl
  | cons ev evs ih =>
    obtain ⟨k, hk, h⟩ := Option.bind_eq_some_iff.mp h
    simp only [tidyAll, hk, Bool.and_eq_true] at ht
    exact .head ⟨ev, inOrder_of_tidy ht.1, hk⟩ (ih h ht.2)

def plainHost : Host := ⟨⟨unitsLe, unitsLe_trans, unitsLe_total⟩, 10, by decide⟩

def job : Envelope := ⟨js "job", .null⟩

def handles (s : Inbox) (t : ℕ) (id : JsString) : Bool :=
  match s.tasks[t]? with
  | some (.handling i _ _ _) => i = id
  | _ => false

/-- Work is accepted, and then run. -/
def acceptRun : List Event :=
  [.callAccept job .null, .readFile 0, .resume 0 [], .resume 0 [], .stringify, .write true,
    .resume 0 [], .resume 0 [], .callRun job .null, .resume 1 [], .stringify, .write true,
    .resume 1 []]

/-- Two calls run work that no call has accepted; the second one finds what the first has recorded. -/
def runTwice : List Event :=
  [.callRun job .null, .readFile 0, .resume 0 [], .resume 0 [], .resume 0 [], .callRun job .null,
    .resume 1 [], .stringify, .write true, .stringify, .write true, .resume 1 [], .resume 0 [],
    .resume 0 [], .stringify, .write true, .resume 0 []]

end Truyn.Accepted
