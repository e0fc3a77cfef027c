import Mathlib

/-! scheme:pools | lists of tasks that a bounded number of workers take in turn

    A call has a list of tasks. So many of them as there are workers begin at once; a worker whose task
    has ended well takes the next one, and a worker whose task has failed stops and the call has failed,
    though the others go on. A call that is resolved has done all of its tasks (`Sound.resolved`). -/

namespace Pools

variable {ω : Type*}

/-- The tasks of a call, and how many of them have begun. -/
structure Pool (ω : Type*) where
  work : List ω
  next : ℕ
  failed : Bool

/-- A task that has begun, how it ended, and whether its worker knows. -/
structure Task (ω : Type*) where
  owner : ℕ
  work : ω
  outcome : Option Bool := none
  returned : Bool := false

structure Calls (ω : Type*) where
  pools : List (Pool ω) := []
  tasks : List (Task ω) := []

namespace Calls

variable {s : Calls ω} {limit c t : ℕ} {work : List ω} {ok : Bool}

def call (s : Calls ω) (limit : ℕ) (work : List ω) : Calls ω where
  pools := s.pools ++ [⟨work, min limit work.length, false⟩]
  tasks := s.tasks ++ (work.take limit).map fun w => { owner := s.pools.length, work := w }

def settle (s : Calls ω) (t : ℕ) (ok : Bool) : Calls ω :=
  { s with tasks := s.tasks.modify t fun x => { x with outcome := some ok } }

/-- What a worker does that has learned of the end of its task, and the task that begins. -/
def takeNext (p : Pool ω) (ok : Bool) : Pool ω × Option ω :=
  if ok then
    match p.work[p.next]? with
    | some w => ({ p with next := p.next + 1 }, some w)
    | none => (p, none)
  else ({ p with failed := true }, none)

def resume (s : Calls ω) (t : ℕ) : Option (Calls ω × Option ω) :=
  match s.tasks[t]? with
  | some ⟨owner, _, some ok, false⟩ =>
    s.pools[owner]?.map fun p =>
      let (p', begun) := takeNext p ok
      (⟨s.pools.set owner p', s.tasks.modify t (fun x => { x with returned := true }) ++
        begun.toList.map fun w => { owner := owner, work := w }⟩, begun)
  | _ => none

/-- The tasks of a call. -/
def works (s : Calls ω) (c : ℕ) : Option (List ω) := s.pools[c]?.map Pool.work

/-- What has begun of a call. -/
def begun (s : Calls ω) (c : ℕ) : List ω := (s.tasks.filter fun x => x.owner = c).map Task.work

structure Resolved (s : Calls ω) (c : ℕ) : Prop where
  pool : ∃ p, s.pools[c]? = some p ∧ p.failed = false ∧ p.work.length ≤ p.next
  returned : ∀ x ∈ s.tasks, x.owner = c → x.returned = true

structure Sound (s : Calls ω) : Prop where
  begun (c : ℕ) (p : Pool ω) : s.pools[c]? = some p → s.begun c = p.work.take p.next
  owned : ∀ x ∈ s.tasks, x.owner < s.pools.length
  returned : ∀ x ∈ s.tasks, x.returned = true → ∃ ok, x.outcome = some ok ∧
    (ok = false → ∃ p, s.pools[x.owner]? = some p ∧ p.failed = true)

/-- RESOLVED: every task of the call has been done, and well. -/
theorem Sound.resolved (h : s.Sound) (hc : s.Resolved c) (hworks : s.works c = some work) {w : ω}
    (hw : w ∈ work) : ∃ x ∈ s.tasks, x.owner = c ∧ x.work = w ∧ x.outcome = some true := by
  obtain ⟨p, hp, hfailed, hall⟩ := hc.pool
  obtain rfl : p.work = work := by simpa [works, hp] using hworks
  have hmem : w ∈ s.begun c := by
    rw [h.begun c p hp, List.take_of_length_le hall]
    exact hw
  obtain ⟨x, hx, rfl⟩ := List.mem_map.mp hmem
  obtain ⟨hx, howner⟩ := List.mem_filter.mp hx
  rw [decide_eq_true_eq] at howner
  obtain ⟨ok, hok, hfail⟩ := h.returned x hx (hc.returned x hx howner)
  cases ok with
  | true => exact ⟨x, hx, howner, rfl, hok⟩
  | false =>
    obtain ⟨q, hq, hqfailed⟩ := hfail rfl
    rw [howner, hp] at hq
    cases hq
    rw [hfailed] at hqfailed
    cases hqfailed

theorem Sound.mem_works (h : s.Sound) {x : Task ω} (hx : x ∈ s.tasks) :
    ∃ l, s.works x.owner = some l ∧ x.work ∈ l := by
  have hp := List.getElem?_eq_getElem (h.owned x hx)
  refine ⟨_, by rw [works, hp, Option.map_some], ?_⟩
  have hmem : x.work ∈ s.begun x.owner :=
    List.mem_map_of_mem (List.mem_filter.mpr ⟨hx, decide_eq_true rfl⟩)
  rw [h.begun _ _ hp] at hmem
  exact List.mem_of_mem_take hmem

theorem sound_empty : ({} : Calls ω).Sound where
  begun _ _ h := by cases h
  owned _ h := by cases h
  returned _ h := by cases h

/-- Who began what does not change with how it ends. -/
theorem begun_modify {f : Task ω → Task ω} (hf : ∀ x, (f x).owner = x.owner ∧ (f x).work = x.work)
    (pools : List (Pool ω)) : begun ⟨pools, s.tasks.modify t f⟩ c = s.begun c := by
  obtain ⟨_, tasks⟩ := s
  rw [begun, begun]
  induction tasks generalizing t with
  | nil => simp
  | cons x tasks ih =>
    cases t with
    | zero =>
      obtain ⟨howner, hwork⟩ := hf x
      by_cases hx : x.owner = c <;> simp [hx, howner, hwork]
    | succ t =>
      have htail := ih (t := t)
      by_cases hx : x.owner = c <;> simpa [hx] using htail

theorem begun_append {pools : List (Pool ω)} {tasks more : List (Task ω)} :
    begun ⟨pools, tasks ++ more⟩ c = begun ⟨pools, tasks⟩ c ++ begun ⟨pools, more⟩ c := by
  simp [begun]

/-- New tasks of one call are all its own. -/
theorem begun_map {pools : List (Pool ω)} {owner : ℕ} : begun ⟨pools, work.map fun w =>
    ({ owner := owner, work := w } : Task ω)⟩ c = if owner = c then work else [] := by
  by_cases h : owner = c
  · have hall : (work.map fun w => ({ owner := owner, work := w } : Task ω)).filter
        (fun x => x.owner = c) = work.map fun w => { owner := owner, work := w } := by
      refine List.filter_eq_self.mpr fun x hx => ?_
      obtain ⟨w, -, rfl⟩ := List.mem_map.mp hx
      simpa using h
    rw [begun, hall, List.map_map, if_pos h]
    exact List.map_id _
  · rw [if_neg h, begun, List.map_eq_nil_iff, List.filter_eq_nil_iff]
    intro x hx
    obtain ⟨w, -, rfl⟩ := List.mem_map.mp hx
    simpa using h

theorem Sound.begun_none (h : s.Sound) (hc : s.pools.length ≤ c) : s.begun c = [] := by
  rw [Calls.begun, List.map_eq_nil_iff, List.filter_eq_nil_iff]
  intro x hx
  have hlt := h.owned x hx
  rw [decide_eq_true_eq]
  omega

theorem Sound.call (h : s.Sound) (limit : ℕ) (work : List ω) : (s.call limit work).Sound where
  begun d p hp := by
    rw [Calls.call, begun_append, begun_map]
    simp only [Calls.call] at hp
    rcases Nat.lt_trichotomy d s.pools.length with hlt | rfl | hgt
    · rw [List.getElem?_append_left hlt] at hp
      rw [if_neg hlt.ne', List.append_nil]
      exact h.begun d p hp
    · rw [List.getElem?_concat_length] at hp
      cases hp
      have hold := h.begun_none le_rfl
      rw [Calls.begun] at hold
      rw [if_pos rfl, Calls.begun, hold, List.nil_append, List.take_eq_take_min]
    · rw [List.getElem?_eq_none (by simp; omega)] at hp
      cases hp
  owned x hx := by
    simp only [Calls.call, List.length_append, List.length_singleton]
    rcases List.mem_append.mp hx with hx | hx
    · exact Nat.lt_succ_of_lt (h.owned x hx)
    · obtain ⟨w, -, rfl⟩ := List.mem_map.mp hx
      exact Nat.lt_succ_self _
  returned x hx hreturned := by
    rcases List.mem_append.mp hx with hx | hx
    · obtain ⟨ok, hok, hfail⟩ := h.returned x hx hreturned
      refine ⟨ok, hok, fun hfalse => ?_⟩
      obtain ⟨p, hp, hfailed⟩ := hfail hfalse
      exact ⟨p, by rw [Calls.call, List.getElem?_append_left (h.owned x hx), hp], hfailed⟩
    · obtain ⟨w, -, rfl⟩ := List.mem_map.mp hx
      cases hreturned

theorem call_work (s : Calls ω) (limit : ℕ) (work : List ω) :
    (s.call limit work).tasks.map Task.work = s.tasks.map Task.work ++ work.take limit := by
  rw [Calls.call, List.map_append, List.map_map]
  exact congrArg _ (List.map_id _)

theorem call_outcome (s : Calls ω) (limit : ℕ) (work : List ω) :
    (s.call limit work).tasks.map Task.outcome =
      s.tasks.map Task.outcome ++ (work.take limit).map fun _ => none := by
  rw [Calls.call, List.map_append, List.map_map]
  rfl

theorem works_call (s : Calls ω) (limit : ℕ) (work : List ω) (c : ℕ) :
    (s.call limit work).works c = if c = s.pools.length then some work else s.works c := by
  simp only [works, Calls.call]
  rcases Nat.lt_trichotomy c s.pools.length with hlt | rfl | hgt
  · rw [List.getElem?_append_left hlt, if_neg hlt.ne]
  · rw [List.getElem?_concat_length, if_pos rfl, Option.map_some]
  · rw [List.getElem?_eq_none (by simp; omega), List.getElem?_eq_none (by omega), if_neg hgt.ne']

/-! ### The end of a task -/

/-- A task of the list with one changed is the changed one, or was there. -/
theorem mem_modify {tasks : List (Task ω)} {f : Task ω → Task ω} {y : Task ω}
    (h : y ∈ tasks.modify t f) : (∃ x, tasks[t]? = some x ∧ y = f x) ∨ y ∈ tasks := by
  obtain ⟨i, hi⟩ := List.mem_iff_getElem?.mp h
  rw [List.getElem?_modify] at hi
  obtain ⟨x, hx, rfl⟩ := Option.map_eq_some_iff.mp hi
  split
  · next heq => exact .inl ⟨x, heq ▸ hx, rfl⟩
  · exact .inr (List.mem_of_getElem? hx)

theorem Sound.settle (h : s.Sound) {x : Task ω} (hx : s.tasks[t]? = some x) (hopen : x.outcome = none) :
    (s.settle t ok).Sound where
  begun d p hp := (begun_modify (f := fun x => { x with outcome := some ok }) (fun _ => ⟨rfl, rfl⟩)
    s.pools).trans (h.begun d p hp)
  owned y hy := by
    rcases mem_modify hy with ⟨x', hx', rfl⟩ | hy
    · exact h.owned x' (List.mem_of_getElem? hx')
    · exact h.owned y hy
  returned y hy hreturned := by
    rcases mem_modify hy with ⟨x', hx', rfl⟩ | hy
    · cases hx.symm.trans hx'
      obtain ⟨ok', hok', -⟩ := h.returned x (List.mem_of_getElem? hx) hreturned
      rw [hopen] at hok'
      cases hok'
    · exact h.returned y hy hreturned

theorem takeNext_work (p : Pool ω) (ok : Bool) : (takeNext p ok).1.work = p.work := by
  unfold takeNext
  split
  · split <;> rfl
  · rfl

theorem takeNext_failed (p : Pool ω) (ok : Bool) : (takeNext p ok).1.failed = (p.failed || !ok) := by
  unfold takeNext
  split
  · next h =>
    subst h
    split <;> simp
  · next h =>
    rw [Bool.not_eq_true] at h
    simp [h]

/-- What begins is the next part of the work. -/
theorem takeNext_next (p : Pool ω) (ok : Bool) : p.work.take (takeNext p ok).1.next =
    p.work.take p.next ++ (takeNext p ok).2.toList := by
  unfold takeNext
  split
  · split
    · next w hw => rw [List.take_add_one, hw]
    · simp
  · simp

variable {s' : Calls ω} {begun : Option ω}

theorem resume_cases (h : s.resume t = some (s', begun)) :
    ∃ x ok p, s.tasks[t]? = some x ∧ x.outcome = some ok ∧ x.returned = false ∧
      s.pools[x.owner]? = some p ∧ begun = (takeNext p ok).2 ∧
      s' = ⟨s.pools.set x.owner (takeNext p ok).1,
        s.tasks.modify t (fun x => { x with returned := true }) ++
          begun.toList.map fun w => { owner := x.owner, work := w }⟩ := by
  unfold resume at h
  split at h
  · next owner w ok hx =>
    obtain ⟨p, hp, heq⟩ := Option.map_eq_some_iff.mp h
    cases heq
    refine ⟨_, ok, p, hx, rfl, rfl, hp, rfl, ?_⟩
    cases (takeNext p ok).2 <;> rfl
  · cases h

/-- Whatever does not look at what changes. -/
theorem map_modify {β : Type*} {tasks : List (Task ω)} {f : Task ω → β} {g : Task ω → Task ω}
    (hf : ∀ x, f (g x) = f x) : (tasks.modify t g).map f = tasks.map f := by
  refine List.ext_getElem? fun i => ?_
  rw [List.getElem?_map, List.getElem?_map, List.getElem?_modify]
  cases tasks[i]? with
  | none => split <;> rfl
  | some x =>
    split
    · exact congrArg some (hf x)
    · rfl

theorem resume_work (h : s.resume t = some (s', begun)) :
    s'.tasks.map Task.work = s.tasks.map Task.work ++ begun.toList := by
  obtain ⟨x, ok, p, -, -, -, -, -, rfl⟩ := resume_cases h
  rw [List.map_append, map_modify (g := fun x => { x with returned := true }) fun _ => rfl]
  cases begun <;> rfl

theorem resume_outcome (h : s.resume t = some (s', begun)) :
    s'.tasks.map Task.outcome = s.tasks.map Task.outcome ++ begun.toList.map fun _ => none := by
  obtain ⟨x, ok, p, -, -, -, -, -, rfl⟩ := resume_cases h
  rw [List.map_append, map_modify (g := fun x => { x with returned := true }) fun _ => rfl]
  cases begun <;> rfl

theorem length_resume (h : s.resume t = some (s', begun)) :
    s'.pools.length = s.pools.length := by
  obtain ⟨x, ok, p, -, -, -, -, -, rfl⟩ := resume_cases h
  exact List.length_set

theorem works_resume (h : s.resume t = some (s', begun)) (c : ℕ) :
    s'.works c = s.works c := by
  obtain ⟨x, ok, p, -, -, -, hp, -, rfl⟩ := resume_cases h
  simp only [works]
  by_cases hc : x.owner = c
  · subst hc
    rw [List.getElem?_set_self (List.getElem_of_getElem? hp).1, hp, Option.map_some, takeNext_work]
    rfl
  · rw [List.getElem?_set_ne hc]

theorem Sound.resume (h : s.Sound) (hresume : s.resume t = some (s', begun)) : s'.Sound := by
  obtain ⟨x, ok, p, hx, hok, -, hp, hbegun, rfl⟩ := resume_cases hresume
  have hlt := (List.getElem_of_getElem? hp).1
  refine ⟨fun d q hq => ?_, fun y hy => ?_, fun y hy hreturned => ?_⟩
  · have hsame := begun_modify (s := s) (t := t) (c := d) (f := fun x => { x with returned := true })
      (fun _ => ⟨rfl, rfl⟩) (s.pools.set x.owner (takeNext p ok).1)
    rw [begun_append, hsame, begun_map]
    simp only [List.getElem?_set] at hq
    split at hq
    · next heq =>
      rw [Option.some.injEq] at hq
      subst hq heq
      rw [if_pos rfl, h.begun _ p hp, takeNext_work, takeNext_next, hbegun]
    · next hne =>
      rw [if_neg hne, List.append_nil]
      exact h.begun d q hq
  · rw [List.length_set]
    rcases List.mem_append.mp hy with hy | hy
    · rcases mem_modify hy with ⟨x', hx', rfl⟩ | hy
      · exact h.owned x' (List.mem_of_getElem? hx')
      · exact h.owned y hy
    · obtain ⟨w, -, rfl⟩ := List.mem_map.mp hy
      exact hlt
  · have hfails : ∀ (d : ℕ) (q : Pool ω), s.pools[d]? = some q → q.failed = true →
        ∃ q' : Pool ω, (s.pools.set x.owner (takeNext p ok).1)[d]? = some q' ∧ q'.failed = true := by
      intro d q hq hfailed
      by_cases hd : x.owner = d
      · subst hd
        cases hp.symm.trans hq
        refine ⟨_, List.getElem?_set_self hlt, ?_⟩
        rw [takeNext_failed, hfailed, Bool.true_or]
      · exact ⟨q, by rw [List.getElem?_set_ne hd, hq], hfailed⟩
    rcases List.mem_append.mp hy with hy | hy
    · rcases mem_modify hy with ⟨x', hx', rfl⟩ | hy
      · cases hx.symm.trans hx'
        refine ⟨ok, hok, fun hfalse => ⟨_, List.getElem?_set_self hlt, ?_⟩⟩
        rw [takeNext_failed, hfalse, Bool.not_false, Bool.or_true]
      · obtain ⟨ok', hok', hfail⟩ := h.returned y hy hreturned
        refine ⟨ok', hok', fun hfalse => ?_⟩
        obtain ⟨q, hq, hfailed⟩ := hfail hfalse
        exact hfails _ q hq hfailed
    · obtain ⟨w, -, rfl⟩ := List.mem_map.mp hy
      cases hreturned

end Calls
end Pools
