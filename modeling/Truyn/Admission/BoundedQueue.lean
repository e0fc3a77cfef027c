import Truyn.Schemes.Along
import Truyn.Schemes.Leases

/-! admission:bounded-queue | `BoundedAdmissionQueue.run`, from one await to the next

    A caller that finds a free slot starts its task at once; otherwise it is queued. A task that ends
    gives its slot back and wakes the caller at the head of the queue, which takes a slot only when it
    resumes, in a later microtask. Woken callers resume in the order in which they were woken; other
    callers may arrive before. -/

namespace Truyn.Admission.Bounded

/-- The options the constructor accepts. -/
structure Options where
  maxInFlight : ℕ
  maxQueued : ℕ
  maxInFlight_pos : 1 ≤ maxInFlight

/-- Where a call of `run` is. -/
inductive Call
  | queued
  | woken
  | running
  | completed
  | failed
  | rejected
  deriving DecidableEq

def Call.runs : Call → Bool
  | .running => true
  | _ => false

def Call.waits : Call → Bool
  | .queued | .woken => true
  | _ => false

/-- `woken` are the callers whose promise is resolved and that have not resumed. `waited` logs the
    callers that were queued and `resumed` those of them whose task was started. -/
structure Queue where
  inFlight : ℕ
  queue : List ℕ
  admitted : ℕ
  rejected : ℕ
  completed : ℕ
  failed : ℕ
  calls : List Call
  woken : List ℕ
  waited : List ℕ
  resumed : List ℕ

namespace Queue

def new : Queue := ⟨0, [], 0, 0, 0, 0, [], [], [], []⟩

/-- `run` is called, with a function or not; the head of the woken callers resumes; a task ends. -/
inductive Event
  | run (isFunction : Bool)
  | resume
  | settle (call : ℕ) (ok : Bool)

variable (o : Options) (q : Queue)

def arrive : Queue :=
  let call := q.calls.length
  if o.maxInFlight ≤ q.inFlight then
    if o.maxQueued ≤ q.queue.length then
      { q with rejected := q.rejected + 1, calls := q.calls ++ [.rejected] }
    else
      { q with
        admitted := q.admitted + 1
        queue := q.queue ++ [call]
        calls := q.calls ++ [.queued]
        waited := q.waited ++ [call] }
  else
    { q with
      admitted := q.admitted + 1
      inFlight := q.inFlight + 1
      calls := q.calls ++ [.running] }

def resume : Queue :=
  match q.woken with
  | [] => q
  | call :: rest =>
    { q with
      inFlight := q.inFlight + 1
      calls := q.calls.set call .running
      woken := rest
      resumed := q.resumed ++ [call] }

/-- `this.queue.shift()`, and the caller is woken. -/
def wake : Queue :=
  match q.queue with
  | [] => q
  | call :: rest =>
    { q with queue := rest, calls := q.calls.set call .woken, woken := q.woken ++ [call] }

def settle (call : ℕ) (ok : Bool) : Queue :=
  if q.calls[call]? = some .running then
    wake { q with
      completed := if ok then q.completed + 1 else q.completed
      failed := if ok then q.failed else q.failed + 1
      inFlight := q.inFlight - 1
      calls := q.calls.set call (if ok then .completed else .failed) }
  else q

def step : Event → Queue
  | .run true => q.arrive o
  | .run false => q
  | .resume => q.resume
  | .settle call ok => q.settle call ok

def run (es : List Event) : Queue := es.foldl (step o) .new

/-! ### What is bounded -/

/-- The callers whose task runs, and those that wait for theirs to be started. -/
def running : ℕ := q.calls.countP Call.runs

def waiting : ℕ := q.calls.countP Call.waits

/-- Callers that were queued are started in the order in which they came, and when no task runs and
    nobody was woken, nobody waits. -/
structure Orderly : Prop where
  running : q.running ≤ o.maxInFlight
  waiting : q.waiting ≤ o.maxQueued
  order : q.waited.Pairwise (· < ·) ∧ q.resumed <+: q.waited
  idle : (∀ call ∈ q.calls, call ≠ .running ∧ call ≠ .woken) →
    q.inFlight = 0 ∧ q.queue = [] ∧ q.waiting = 0

/-- No caller arrives who would take the slot of a woken caller. -/
def Fits : Event → Prop
  | .run true => ¬(q.inFlight < o.maxInFlight ∧ o.maxInFlight ≤ q.inFlight + q.woken.length)
  | _ => True

variable {o q} {i : ℕ} {c d : Call}

/-! ### In every run -/

/-- What is counted and logged is what the calls are doing. -/
structure Kept (q : Queue) : Prop where
  inFlight : q.inFlight = q.running
  queued : ∀ i ∈ q.queue, q.calls[i]? = some .queued
  woken : ∀ i ∈ q.woken, q.calls[i]? = some .woken
  waiting : q.waiting = q.queue.length + q.woken.length
  waited : q.waited = q.resumed ++ (q.woken ++ q.queue)
  sorted : q.waited.Pairwise (· < ·)
  arrived : ∀ i ∈ q.waited, i < q.calls.length

theorem kept_new : Kept new where
  inFlight := rfl
  queued := by simp [new]
  woken := by simp [new]
  waiting := rfl
  waited := rfl
  sorted := .nil
  arrived := by simp [new]

theorem Kept.nodup (h : Kept q) : (q.woken ++ q.queue).Nodup := by
  have hsorted := h.sorted
  rw [h.waited, List.pairwise_append] at hsorted
  exact hsorted.2.1.imp ne_of_lt

theorem running_set (hc : q.calls[i]? = some c) :
    (q.calls.set i d).countP Call.runs + c.runs.toNat = q.running + d.runs.toNat :=
  Leases.countP_set hc

theorem waiting_set (hc : q.calls[i]? = some c) :
    (q.calls.set i d).countP Call.waits + c.waits.toNat = q.waiting + d.waits.toNat :=
  Leases.countP_set hc

theorem running_concat : (q.calls ++ [d]).countP Call.runs = q.running + d.runs.toNat := by
  rw [List.countP_append, running]
  cases d <;> rfl

theorem waiting_concat : (q.calls ++ [d]).countP Call.waits = q.waiting + d.waits.toNat := by
  rw [List.countP_append, waiting]
  cases d <;> rfl

/-- Who came earlier is still there. -/
theorem get_concat (h : q.calls[i]? = some c) : (q.calls ++ [d])[i]? = some c := by
  rw [List.getElem?_append_left (List.getElem_of_getElem? h).1]
  exact h

theorem Kept.arrive (h : Kept q) : Kept (q.arrive o) := by
  have harrived : ∀ {d : Call}, ∀ i ∈ q.waited, i < (q.calls ++ [d]).length := fun i hi =>
    (h.arrived i hi).trans (by simp)
  simp only [Queue.arrive]
  split
  · split
    · exact ⟨h.inFlight.trans (running_concat (d := .rejected)).symm, fun i hi => get_concat (h.queued i hi),
        fun i hi => get_concat (h.woken i hi), waiting_concat.trans h.waiting, h.waited, h.sorted,
        harrived⟩
    · refine ⟨h.inFlight.trans (running_concat (d := .queued)).symm, fun i hi => ?_,
        fun i hi => get_concat (h.woken i hi), waiting_concat.trans ?_, ?_, ?_, fun i hi => ?_⟩
      · rcases List.mem_append.mp hi with hi | hi
        · exact get_concat (h.queued i hi)
        · obtain rfl := List.mem_singleton.mp hi
          simp
      · rw [h.waiting, List.length_append]
        exact Nat.add_right_comm _ _ _
      · simp [h.waited]
      · refine List.pairwise_append.mpr ⟨h.sorted, List.pairwise_singleton _ _, fun i hi j hj => ?_⟩
        obtain rfl := List.mem_singleton.mp hj
        exact h.arrived i hi
      · rcases List.mem_append.mp hi with hi | hi
        · exact harrived i hi
        · obtain rfl := List.mem_singleton.mp hi
          simp
  · refine ⟨?_, fun i hi => get_concat (h.queued i hi), fun i hi => get_concat (h.woken i hi),
      waiting_concat.trans h.waiting, h.waited, h.sorted, harrived⟩
    rw [h.inFlight]
    exact (running_concat (d := .running)).symm

/-- One call goes on, and the others stay where they are. -/
theorem get_set_ne (h : q.calls[i]? = some c) {j : ℕ} (hne : j ≠ i) :
    (q.calls.set j d)[i]? = some c := by
  rw [List.getElem?_set_ne hne]
  exact h

theorem Kept.resume (h : Kept q) : Kept q.resume := by
  unfold Queue.resume
  split
  · exact h
  · next call rest hwoken =>
    have hcall : q.calls[call]? = some .woken := h.woken call (by simp [hwoken])
    have hnodup := h.nodup
    rw [hwoken, List.cons_append, List.nodup_cons, List.mem_append, not_or] at hnodup
    obtain ⟨⟨hrest, hqueue⟩, -⟩ := hnodup
    have hin := h.inFlight
    have hrunning := running_set (d := .running) hcall
    have hwaiting := waiting_set (d := .running) hcall
    simp only [Call.runs, Call.waits, Bool.toNat_true, Bool.toNat_false] at hrunning hwaiting
    refine ⟨?_, fun i hi => get_set_ne (h.queued i hi) fun heq => hqueue (heq ▸ hi),
      fun i hi => get_set_ne (h.woken i (by simp [hwoken, hi])) fun heq => hrest (heq ▸ hi),
      ?_, ?_, h.sorted, fun i hi => ?_⟩
    · simp only [running] at hrunning hin ⊢
      omega
    · have hsize := h.waiting
      rw [hwoken, List.length_cons] at hsize
      simp only [Queue.waiting] at hwaiting hsize ⊢
      omega
    · simp [h.waited, hwoken]
    · simpa using h.arrived i hi

theorem Kept.wake (h : Kept q) : Kept q.wake := by
  unfold Queue.wake
  split
  · exact h
  · next call rest hqueue =>
    have hcall : q.calls[call]? = some .queued := h.queued call (by simp [hqueue])
    have hnodup := h.nodup
    rw [hqueue, List.nodup_append, List.nodup_cons] at hnodup
    obtain ⟨-, ⟨hrest, -⟩, hwoken⟩ := hnodup
    have hrunning := running_set (d := .woken) hcall
    have hwaiting := waiting_set (d := .woken) hcall
    simp only [Call.runs, Call.waits, Bool.toNat_true, Bool.toNat_false] at hrunning hwaiting
    refine ⟨h.inFlight.trans hrunning.symm,
      fun i hi => get_set_ne (h.queued i (by simp [hqueue, hi])) fun heq => hrest (heq ▸ hi),
      fun i hi => ?_, ?_, ?_, h.sorted, fun i hi => ?_⟩
    · rcases List.mem_append.mp hi with hi | hi
      · exact get_set_ne (h.woken i hi) fun heq =>
          hwoken i hi call List.mem_cons_self heq.symm
      · obtain rfl := List.mem_singleton.mp hi
        exact List.getElem?_set_self (List.getElem_of_getElem? hcall).1
    · have hsize := h.waiting
      rw [hqueue, List.length_cons] at hsize
      simp only [Queue.waiting, List.length_append, List.length_singleton] at hwaiting hsize ⊢
      omega
    · simp [h.waited, hqueue]
    · simpa using h.arrived i hi

/-- A task has ended, and its slot is free. -/
def ended (call : ℕ) (ok : Bool) : Queue :=
  { q with
    completed := if ok then q.completed + 1 else q.completed
    failed := if ok then q.failed else q.failed + 1
    inFlight := q.inFlight - 1
    calls := q.calls.set call (if ok then .completed else .failed) }

theorem settle_eq {call : ℕ} {ok : Bool} (hcall : q.calls[call]? = some .running) :
    q.settle call ok = (q.ended call ok).wake := if_pos hcall

theorem Kept.ended (h : Kept q) {call : ℕ} {ok : Bool} (hcall : q.calls[call]? = some .running) :
    Kept (q.ended call ok) := by
  have hrunning := running_set (d := if ok then .completed else .failed) hcall
  have hwaiting := waiting_set (d := if ok then .completed else .failed) hcall
  have hquiet : (if ok then Call.completed else Call.failed).runs = false ∧
      (if ok then Call.completed else Call.failed).waits = false := by cases ok <;> exact ⟨rfl, rfl⟩
  rw [hquiet.1] at hrunning
  rw [hquiet.2] at hwaiting
  simp only [Call.runs, Call.waits, Bool.toNat_true, Bool.toNat_false] at hrunning hwaiting
  have hne : ∀ {i : ℕ} {c : Call}, q.calls[i]? = some c → c ≠ .running → call ≠ i := by
    rintro i c hi hc rfl
    rw [hcall] at hi
    exact hc (Option.some.inj hi).symm
  refine ⟨?_, fun i hi => get_set_ne (h.queued i hi) (hne (h.queued i hi) (by simp)),
    fun i hi => get_set_ne (h.woken i hi) (hne (h.woken i hi) (by simp)),
    hwaiting.trans h.waiting, h.waited, h.sorted, fun i hi => ?_⟩
  · have hin := h.inFlight
    simp only [Queue.ended, running] at hin hrunning ⊢
    omega
  · simpa [Queue.ended] using h.arrived i hi

theorem Kept.settle (h : Kept q) (call : ℕ) (ok : Bool) : Kept (q.settle call ok) := by
  by_cases hcall : q.calls[call]? = some .running
  · rw [settle_eq hcall]
    exact (h.ended hcall).wake
  · rw [Queue.settle, if_neg hcall]
    exact h

theorem Kept.step (h : Kept q) (e : Event) : Kept (q.step o e) := by
  cases e with
  | run isFunction =>
    cases isFunction with
    | true => exact h.arrive
    | false => exact h
  | resume => exact h.resume
  | settle call ok => exact h.settle call ok

/-- While callers are queued, every slot is taken or promised to a woken caller. -/
def Full (o : Options) (q : Queue) : Prop :=
  q.queue ≠ [] → o.maxInFlight ≤ q.inFlight + q.woken.length

theorem Full.step (hk : Kept q) (h : Full o q) (e : Event) : Full o (q.step o e) := by
  cases e with
  | run isFunction =>
    cases isFunction with
    | true =>
      simp only [Queue.step, Queue.arrive]
      split
      · next hbusy =>
        split
        · exact h
        · exact fun _ => Nat.le_add_right_of_le hbusy
      · intro hne
        have hfull := h hne
        dsimp only
        omega
    | false => exact h
  | resume =>
    simp only [Queue.step, Queue.resume]
    split
    · exact h
    · next call rest hwoken =>
      intro hne
      have hfull := h hne
      rw [hwoken, List.length_cons] at hfull
      dsimp only
      omega
  | settle call ok =>
    by_cases hcall : q.calls[call]? = some .running
    · simp only [Queue.step, settle_eq hcall, wake]
      split
      · next hqueue => exact fun hne => (hne hqueue).elim
      · next next rest hqueue =>
        intro _
        have hfull := h (by
          rw [show q.queue = next :: rest from hqueue]
          simp)
        have hpos : 0 < q.running :=
          List.countP_pos_iff.mpr ⟨_, List.mem_of_getElem? hcall, rfl⟩
        have hin := hk.inFlight
        simp only [Queue.ended, List.length_append, List.length_singleton]
        omega
    · simp only [Queue.step, settle, if_neg hcall]
      exact h

/-! ### Where no arriving caller takes a promised slot -/

/-- The slots that are taken or promised, and the callers that wait, are within the limits. -/
structure Room (o : Options) (q : Queue) : Prop where
  slots : q.inFlight + q.woken.length ≤ o.maxInFlight
  places : q.queue.length + q.woken.length ≤ o.maxQueued

theorem Room.step (hk : Kept q) (h : Room o q) {e : Event} (hfits : q.Fits o e) :
    Room o (q.step o e) := by
  cases e with
  | run isFunction =>
    cases isFunction with
    | true =>
      have hslots := h.slots
      have hplaces := h.places
      simp only [Fits] at hfits
      simp only [Queue.step, Queue.arrive]
      split
      · split
        · exact ⟨hslots, hplaces⟩
        · refine ⟨hslots, ?_⟩
          simp only [List.length_append, List.length_singleton]
          omega
      · refine ⟨?_, hplaces⟩
        dsimp only
        omega
    | false => exact h
  | resume =>
    simp only [Queue.step, Queue.resume]
    split
    · exact h
    · next call rest hwoken =>
      have hslots := h.slots
      have hplaces := h.places
      rw [hwoken, List.length_cons] at hslots hplaces
      refine ⟨?_, ?_⟩
      all_goals dsimp only
      all_goals omega
  | settle call ok =>
    by_cases hcall : q.calls[call]? = some .running
    · have hpos : 0 < q.running :=
        List.countP_pos_iff.mpr ⟨_, List.mem_of_getElem? hcall, rfl⟩
      have hin := hk.inFlight
      have hslots := h.slots
      have hplaces := h.places
      simp only [Queue.step, settle_eq hcall, wake]
      split
      · refine ⟨?_, hplaces⟩
        simp only [Queue.ended]
        omega
      · next next rest hqueue =>
        rw [show q.queue = next :: rest from hqueue, List.length_cons] at hplaces
        constructor
        all_goals simp only [Queue.ended, List.length_append, List.length_singleton]
        all_goals omega
    · simp only [Queue.step, settle, if_neg hcall]
      exact h

structure Inv (o : Options) (q : Queue) : Prop where
  kept : Kept q
  full : Full o q
  room : Room o q

theorem Inv.orderly (h : Inv o q) : Orderly o q := by
  obtain ⟨hk, hfull, hroom⟩ := h
  refine ⟨?_, ?_, ⟨hk.sorted, ?_⟩, fun hsettled => ?_⟩
  · exact hk.inFlight ▸ (Nat.le_add_right _ _).trans hroom.slots
  · exact hk.waiting.trans_le hroom.places
  · exact hk.waited ▸ List.prefix_append _ _
  · have hidle : q.inFlight = 0 := by
      rw [hk.inFlight]
      refine List.countP_eq_zero.mpr fun call hcall hruns => (hsettled call hcall).1 ?_
      cases call <;> simp_all [Call.runs]
    have hwoken : q.woken = [] := by
      refine List.eq_nil_iff_forall_not_mem.mpr fun i hi => ?_
      have hcall := hk.woken i hi
      exact (hsettled _ (List.mem_of_getElem? hcall)).2 rfl
    have hqueue : q.queue = [] := by
      by_contra hne
      have hslots := hfull hne
      rw [hidle, hwoken] at hslots
      exact absurd o.maxInFlight_pos (by simpa using hslots)
    exact ⟨hidle, hqueue, by rw [hk.waiting, hqueue, hwoken]; rfl⟩

/-- In every run in which no caller arrives who takes the slot of a woken one, the limits hold,
    queued callers are started in the order in which they came, and nothing stays counted. -/
theorem bounded (o : Options) (es : List Event) (h : Runs.Along (step o) (Fits o) new es) :
    Orderly o (run o es) := by
  have hinit : Inv o new := ⟨kept_new, fun hne => (hne rfl).elim, ⟨Nat.zero_le _, Nat.zero_le _⟩⟩
  refine Inv.orderly (h.keeps hinit fun q e hq hfits => ?_)
  exact ⟨hq.kept.step e, hq.full.step hq.kept e, hq.room.step hq.kept hfits⟩

/-! ### A caller between a release and the resumption of a woken waiter -/

def one : Options := ⟨1, 1, Nat.le_refl 1⟩

/-- A task runs and a caller waits; the task ends, a third caller comes, and the waiter resumes. -/
def overtaken : List Event := [.run true, .run true, .settle 0 true, .run true, .resume]

theorem overtaken_not_bounded : ¬∀ (o : Options) (es : List Event), Orderly o (run o es) := by
  intro h
  exact absurd (h one overtaken).running (by decide)

/-- Without the third caller. -/
theorem bounded_waiter : Orderly one (run one [.run true, .run true, .settle 0 true, .resume]) :=
  bounded one _ (by simp only [Runs.Along, Fits]; decide)

end Queue

end Truyn.Admission.Bounded
