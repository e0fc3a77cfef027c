import Mathlib

/-! scheme:async | cooperative scheduling of handlers that suspend at `await`

    A single-threaded runtime executes one handler at a time, from one suspension point to the next,
    and may resume the suspended ones in any order. A machine is therefore one function `react`: it
    takes the shared memory, the task being resumed (`none` for a newly arrived event) and what the
    outside world supplies to this segment, and returns the new memory with the tasks the segment
    leaves suspended. A system is a memory with the suspended tasks.

    Three rules carry every proof about a machine: a plain invariant (`Runs.inv`), an invariant with
    an obligation for each suspended task that the other segments must not break (`Runs.sound`,
    rely/guarantee), and budgets of tokens that are held by tasks until they are spent
    (`Runs.within`, and `Runs.metered` where the invariant rests on the budgets). Each is stated for
    the runs whose segments all satisfy a guard. -/

namespace Truyn.Async

variable {σ τ ε : Type*}

/-- One segment of execution: memory, resumed task, outside input ↦ memory, suspended tasks. -/
abbrev Machine (σ τ ε : Type*) := σ → Option τ → ε → Option (σ × List τ)

/-- Memory and the tasks suspended in it. -/
structure Sys (σ τ : Type*) where
  shared : σ
  tasks : List τ

/-- Which task runs next (`none`: a new one) and the input it gets. -/
abbrev Label (ε : Type*) := Option ℕ × ε

/-- The task a label resumes, and the tasks that stay suspended; `none` if there is no such task. -/
def pick (ts : List τ) : Option ℕ → Option (Option τ × List τ)
  | none => some (none, ts)
  | some i => ts[i]?.map fun t => (some t, ts.eraseIdx i)

/-- One step: run the picked task's segment and suspend what it leaves. -/
def step (M : Machine σ τ ε) (s : Sys σ τ) (l : Label ε) : Option (Sys σ τ) :=
  (pick s.tasks l.1).bind fun p => (M s.shared p.1 l.2).map fun r => ⟨r.1, p.2 ++ r.2⟩

/-- Replaying a schedule whose segments all pass a check. -/
def replay (M : Machine σ τ ε) (ok : σ → Option τ → ε → Bool) :
    Sys σ τ → List (Label ε) → Option (Sys σ τ)
  | s, [] => some s
  | s, l :: ls =>
    if (pick s.tasks l.1).all fun p => ok s.shared p.1 l.2 then
      (step M s l).bind fun s' => replay M ok s' ls
    else none

/-- Runs whose segments all satisfy the guard `G`. -/
inductive Runs (M : Machine σ τ ε) (G : σ → Option τ → ε → Prop) : Sys σ τ → Sys σ τ → Prop
  | refl (s : Sys σ τ) : Runs M G s s
  | tail {s u v : Sys σ τ} {l : Label ε} : Runs M G s u →
      (∀ p, pick u.tasks l.1 = some p → G u.shared p.1 l.2) → step M u l = some v → Runs M G s v

/-- The guard that every segment satisfies. -/
def free : σ → Option τ → ε → Prop := fun _ _ _ => True

variable {M : Machine σ τ ε} {G : σ → Option τ → ε → Prop}

variable {s s' v : Sys σ τ} {spent cap : σ → ℕ} {w w' : σ} {ts : List τ} {t : Option τ}
  {l : Label ε} {f : τ → ℕ}

/-! ### What one step does -/

theorem pick_perm {rest : List τ} {o : Option ℕ} (h : pick ts o = some (t, rest)) :
    List.Perm ts (t.toList ++ rest) := by
  cases o with
  | none =>
    simp only [pick, Option.some.injEq, Prod.mk.injEq] at h
    obtain ⟨rfl, rfl⟩ := h
    exact List.Perm.refl _
  | some i =>
    simp only [pick, Option.map_eq_some_iff, Prod.mk.injEq] at h
    obtain ⟨x, hx, rfl, rfl⟩ := h
    obtain ⟨hi, rfl⟩ := List.getElem_of_getElem? hx
    exact (List.getElem_cons_eraseIdx_perm hi).symm

/-- A step picks a task `t`, keeps `rest` suspended and adds what the segment of `t` suspends. -/
theorem step_cases (h : step M s l = some s') :
    ∃ t rest w ts, pick s.tasks l.1 = some (t, rest) ∧ List.Perm s.tasks (t.toList ++ rest) ∧
      M s.shared t l.2 = some (w, ts) ∧ s' = ⟨w, rest ++ ts⟩ := by
  simp only [step, Option.bind_eq_some_iff, Option.map_eq_some_iff] at h
  obtain ⟨⟨t, rest⟩, hp, ⟨w, ts⟩, hM, rfl⟩ := h
  exact ⟨t, rest, w, ts, hp, pick_perm hp, hM, rfl⟩

/-! ### Runs -/

theorem Runs.head {u : Sys σ τ} (hG : ∀ p, pick s.tasks l.1 = some p → G s.shared p.1 l.2)
    (h : step M s l = some u) (hr : Runs M G u v) : Runs M G s v := by
  induction hr with
  | refl => exact .tail (.refl s) hG h
  | tail _ hG' h' ih => exact .tail ih hG' h'

theorem Runs.trans {u : Sys σ τ} (h : Runs M G s u) (h' : Runs M G u v) : Runs M G s v := by
  induction h' with
  | refl => exact h
  | tail _ hG hs ih => exact .tail ih hG hs

/-- A schedule that replays is a run. -/
theorem runs_of_replay {ok : σ → Option τ → ε → Bool} (hok : ∀ w t e, ok w t e → G w t e) :
    ∀ (ls : List (Label ε)) {s s' : Sys σ τ}, replay M ok s ls = some s' → Runs M G s s'
  | [], s, s', h => by
    simp only [replay, Option.some.injEq] at h
    exact h ▸ .refl s
  | l :: ls, s, s', h => by
    rw [replay] at h
    split at h
    · next hall =>
      obtain ⟨u, hu, hr⟩ := Option.bind_eq_some_iff.mp h
      refine .head (fun p hp => hok _ _ _ ?_) hu (runs_of_replay hok ls hr)
      rw [hp] at hall
      exact hall
    · cases h

/-- What a replayed schedule ends with, some run reaches. -/
theorem exists_run (ok : σ → Option τ → ε → Bool) (hok : ∀ w t e, ok w t e → G w t e)
    (ls : List (Label ε)) (P : Sys σ τ → Bool) (h : (replay M ok s ls).any P) :
    ∃ s', Runs M G s s' ∧ P s' := by
  obtain ⟨s', hs, hP⟩ := (Option.any_eq_true _ _).mp h
  exact ⟨s', runs_of_replay hok ls hs, hP⟩

/-- INVARIANT: what holds at the start and is kept by every guarded step holds after every run. -/
theorem Runs.inv {I : Sys σ τ → Prop}
    (hstep : ∀ s s' l, I s → (∀ p, pick s.tasks l.1 = some p → G s.shared p.1 l.2) →
      step M s l = some s' → I s') (h : Runs M G s s') (h0 : I s) : I s' := by
  induction h with
  | refl => exact h0
  | tail _ hg hs ih => exact hstep _ _ _ ih hg hs

/-! ### Rely/guarantee -/

/-- `I` is kept by every segment, every segment moves the memory along `R` and meets the obligation
    `T` of the tasks it suspends, and a move along `R` breaks no obligation. -/
structure Sound (M : Machine σ τ ε) (G : σ → Option τ → ε → Prop) (I : σ → Prop)
    (T : σ → τ → Prop) (R : σ → σ → Prop) : Prop where
  react : ∀ w t e w' ts, I w → (∀ x ∈ t, T w x) → G w t e → M w t e = some (w', ts) →
    I w' ∧ R w w' ∧ ∀ x ∈ ts, T w' x
  stable : ∀ w w' x, I w → R w w' → T w x → T w' x

/-- The memory satisfies `I` and every suspended task its obligation `T`. -/
def Holds (I : σ → Prop) (T : σ → τ → Prop) (s : Sys σ τ) : Prop :=
  I s.shared ∧ ∀ t ∈ s.tasks, T s.shared t

variable {I : σ → Prop} {T : σ → τ → Prop} {R : σ → σ → Prop}

theorem Sound.step (hS : Sound M G I T R) (h0 : Holds I T s)
    (hG : ∀ p, pick s.tasks l.1 = some p → G s.shared p.1 l.2) (h : step M s l = some s') :
    Holds I T s' ∧ R s.shared s'.shared := by
  obtain ⟨t, rest, w, ts, hp, hperm, hM, rfl⟩ := step_cases h
  have hT : ∀ x ∈ t.toList ++ rest, T s.shared x := fun x hx => h0.2 x (hperm.mem_iff.mpr hx)
  obtain ⟨hI, hR, hts⟩ := hS.react _ _ _ _ _ h0.1
    (fun x hx => hT x (List.mem_append_left _ (by simpa using hx))) (hG _ hp) hM
  refine ⟨⟨hI, ?_⟩, hR⟩
  intro x hx
  rcases List.mem_append.mp hx with hx | hx
  · exact hS.stable _ _ x h0.1 hR (hT x (List.mem_append_right _ hx))
  · exact hts x hx

/-- SOUND: invariant and obligations hold after every guarded run. -/
theorem Runs.sound (hS : Sound M G I T R) (h : Runs M G s s') (h0 : Holds I T s) : Holds I T s' :=
  h.inv (fun _ _ _ h0 hG hs => (hS.step h0 hG hs).1) h0

/-- A run moves the memory along any preorder that contains `R`. -/
theorem Runs.along (hS : Sound M G I T R) {Q : σ → σ → Prop} (hrefl : ∀ w, Q w w)
    (htrans : ∀ u v w, Q u v → R v w → Q u w) (h : Runs M G s s') (h0 : Holds I T s) :
    Q s.shared s'.shared := by
  induction h with
  | refl => exact hrefl _
  | tail hr hG hs ih => exact htrans _ _ _ ih (hS.step (hr.sound hS h0) hG hs).2

/-! ### Tokens -/

/-- The tokens held by the suspended tasks. -/
def held (f : τ → ℕ) (ts : List τ) : ℕ := (ts.map f).sum

@[simp] theorem held_nil (f : τ → ℕ) : held f [] = 0 := rfl

@[simp] theorem held_cons (f : τ → ℕ) (t : τ) (ts : List τ) :
    held f (t :: ts) = f t + held f ts := by simp [held]

@[simp] theorem held_append (f : τ → ℕ) (ts us : List τ) :
    held f (ts ++ us) = held f ts + held f us := by simp [held]

theorem held_perm {us : List τ} (h : List.Perm ts us) : held f ts = held f us :=
  (h.map f).sum_eq

/-- The tokens held by the resumed task, none for a new one. -/
def holds? (f : τ → ℕ) (t : Option τ) : ℕ := held f t.toList

@[simp] theorem holds?_none (f : τ → ℕ) : holds? f none = 0 := rfl

@[simp] theorem holds?_some (f : τ → ℕ) (t : τ) : holds? f (some t) = f t := by simp [holds?]

/-- What a segment spends and suspends is covered by what its task held and by the growth of the
    allowance `cap`. -/
def Covered (f : τ → ℕ) (spent cap : σ → ℕ) (w : σ) (t : Option τ) (w' : σ) (ts : List τ) : Prop :=
  spent w' + held f ts + cap w ≤ spent w + holds? f t + cap w'

theorem held_zero (h : ∀ x ∈ ts, f x = 0) : held f ts = 0 := by
  refine List.sum_eq_zero fun n hn => ?_
  obtain ⟨x, hx, rfl⟩ := List.mem_map.mp hn
  exact h x hx

/-- A segment that spends nothing and suspends no holder needs no token. -/
theorem covered_idle (hs : spent w' ≤ spent w) (hc : cap w ≤ cap w') (hts : ∀ x ∈ ts, f x = 0) :
    Covered f spent cap w t w' ts := by
  rw [Covered, held_zero hts]
  omega

/-- A part of a larger system, whose other parts have spent `n`: what covers the part covers all. -/
theorem Covered.lift {ρ υ : Type*} (h : Covered f spent cap w t w' ts) {g : υ → ℕ} {e : τ → υ}
    (hg : ∀ x, g (e x) = f x) {spent' cap' : ρ → ℕ} {v v' : ρ} (n : ℕ) (hs : spent' v = spent w + n)
    (hs' : spent' v' = spent w' + n) (hc : cap' v = cap w) (hc' : cap' v' = cap w') :
    Covered g spent' cap' v (t.map e) v' (ts.map e) := by
  have hheld : held g (ts.map e) = held f ts := by
    simp [held, List.map_map, Function.comp_def, hg]
  have hholds : holds? g (t.map e) = holds? f t := by cases t <;> simp [hg]
  rw [Covered] at h
  rw [Covered, hheld, hholds, hs, hs', hc, hc']
  omega

/-- Tokens spent and held stay within the allowance over one covered step. -/
theorem covered_step (f : τ → ℕ) (spent cap : σ → ℕ)
    (hc : ∀ t rest w ts, pick s.tasks l.1 = some (t, rest) → M s.shared t l.2 = some (w, ts) →
      Covered f spent cap s.shared t w ts) (h : step M s l = some s') :
    spent s'.shared + held f s'.tasks + cap s.shared ≤
      spent s.shared + held f s.tasks + cap s'.shared := by
  obtain ⟨t, rest, w, ts, hp, hperm, hM, rfl⟩ := step_cases h
  have hcov := hc t rest w ts hp hM
  have hs : held f s.tasks = holds? f t + held f rest := by
    rw [held_perm hperm, held_append, holds?]
  simp only [Covered, held_append] at hcov ⊢
  omega

/-- A sound system whose segments are covered, in tokens of every kind `k`; invariant, obligations
    and coverage may rest on the bounds. -/
structure Metered {κ : Type*} (M : Machine σ τ ε) (G : σ → Option τ → ε → Prop) (I : σ → Prop)
    (T : σ → τ → Prop) (R : σ → σ → Prop) (f : κ → τ → ℕ) (spent cap : κ → σ → ℕ) : Prop where
  react : ∀ w t e w' ts, I w → (∀ x ∈ t, T w x) →
    (∀ k, spent k w + holds? (f k) t ≤ cap k w) → G w t e → M w t e = some (w', ts) →
    (I w' ∧ R w w' ∧ ∀ x ∈ ts, T w' x) ∧ ∀ k, Covered (f k) (spent k) (cap k) w t w' ts
  stable : ∀ w w' x, I w → R w w' → T w x → T w' x

/-- The tokens spent and held are within the allowances. -/
def Within {κ : Type*} (f : κ → τ → ℕ) (spent cap : κ → σ → ℕ) (s : Sys σ τ) : Prop :=
  ∀ k, spent k s.shared + held (f k) s.tasks ≤ cap k s.shared

/-- METERED: invariant, obligations and bounds hold after every guarded run. -/
theorem Runs.metered {κ : Type*} {f : κ → τ → ℕ} {spent cap : κ → σ → ℕ}
    (hS : Metered M G I T R f spent cap) (h : Runs M G s s') (h0 : Holds I T s)
    (hcap : Within f spent cap s) : Holds I T s' ∧ Within f spent cap s' := by
  induction h with
  | refl => exact ⟨h0, hcap⟩
  | tail _ hG hs ih =>
    rename_i u v l _
    obtain ⟨hI, hcap⟩ := ih
    have hreact : ∀ t rest w ts, pick u.tasks l.1 = some (t, rest) →
        M u.shared t l.2 = some (w, ts) → (I w ∧ R u.shared w ∧ ∀ x ∈ ts, T w x) ∧
          ∀ k, Covered (f k) (spent k) (cap k) u.shared t w ts := by
      intro t rest w ts hp hM
      refine hS.react _ _ _ _ _ hI.1 (fun x hx => ?_) (fun k => ?_) (hG _ hp) hM
      · exact hI.2 x ((pick_perm hp).mem_iff.mpr (List.mem_append_left _ (by simpa using hx)))
      · have := hcap k
        rw [held_perm (pick_perm hp), held_append] at this
        rw [holds?]
        omega
    refine ⟨?_, fun k => ?_⟩
    · obtain ⟨t, rest, w, ts, hp, hperm, hM, rfl⟩ := step_cases hs
      obtain ⟨⟨hI', hR, hts⟩, -⟩ := hreact t rest w ts hp hM
      refine ⟨hI', fun x hx => ?_⟩
      rcases List.mem_append.mp hx with hx | hx
      · exact hS.stable _ _ x hI.1 hR
          (hI.2 x (hperm.mem_iff.mpr (List.mem_append_right _ hx)))
      · exact hts x hx
    · have hcov := covered_step (f k) (spent k) (cap k)
        (fun t rest w ts hp hM => (hreact t rest w ts hp hM).2 k) hs
      have := hcap k
      omega

/-- WITHIN: if every segment is covered, tokens spent and held never exceed the allowance. -/
theorem Runs.within (hS : Sound M G I T R) (f : τ → ℕ) (spent cap : σ → ℕ)
    (hc : ∀ w t e w' ts, I w → (∀ x ∈ t, T w x) → G w t e → M w t e = some (w', ts) →
      Covered f spent cap w t w' ts) (h : Runs M G s s') (h0 : Holds I T s)
    (hcap : spent s.shared + held f s.tasks ≤ cap s.shared) :
    spent s'.shared + held f s'.tasks ≤ cap s'.shared := by
  have hS' : Metered M G I T R (fun _ : Unit => f) (fun _ => spent) (fun _ => cap) :=
    ⟨fun w t e w' ts hI hT _ hG hM => ⟨hS.react w t e w' ts hI hT hG hM,
      fun _ => hc w t e w' ts hI hT hG hM⟩, hS.stable⟩
  exact (h.metered hS' h0 fun _ => hcap).2 ()

end Truyn.Async
