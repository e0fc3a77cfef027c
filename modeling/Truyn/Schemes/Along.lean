import Mathlib

/-! scheme:along | what holds of every step of a run

    A run is a list of steps that a function takes from a state. `Along f P s ts` is `P` of each step
    and of the state it is taken in; with an invariant, one such property gives another. -/

namespace Runs

variable {σ τ : Type*} {f : σ → τ → σ} {P Q : σ → τ → Prop} {I : σ → Prop} {s : σ}
  {ts us : List τ}

def Along (f : σ → τ → σ) (P : σ → τ → Prop) : σ → List τ → Prop
  | _, [] => True
  | s, t :: ts => P s t ∧ Along f P (f s t) ts

instance decidableAlong [∀ s t, Decidable (P s t)] :
    ∀ (s : σ) (ts : List τ), Decidable (Along f P s ts)
  | _, [] => .isTrue trivial
  | s, t :: ts =>
    have := decidableAlong (f s t) ts
    inferInstanceAs (Decidable (P s t ∧ Along f P (f s t) ts))

/-- `P` of the step after every part of the run. -/
theorem along_iff : Along f P s ts ↔
    ∀ past t rest, ts = past ++ t :: rest → P (past.foldl f s) t := by
  induction ts generalizing s with
  | nil =>
    refine iff_of_true trivial fun past t rest h => ?_
    simp at h
  | cons u ts ih =>
    rw [Along, ih]
    constructor
    · rintro ⟨hu, hrest⟩ past t rest h
      cases past with
      | nil =>
        obtain ⟨rfl, -⟩ := List.cons.inj h
        exact hu
      | cons v past =>
        obtain ⟨rfl, htail⟩ := List.cons.inj h
        exact hrest past t rest htail
    · intro h
      refine ⟨h [] u ts rfl, fun past t rest htail => ?_⟩
      exact h (u :: past) t rest (by rw [htail, List.cons_append])

theorem Along.append : Along f P s (ts ++ us) ↔ Along f P s ts ∧ Along f P (ts.foldl f s) us := by
  induction ts generalizing s with
  | nil => simp [Along]
  | cons t ts ih => simp [Along, ih, and_assoc]

theorem Along.and (hP : Along f P s ts) (hQ : Along f Q s ts) :
    Along f (fun s t => P s t ∧ Q s t) s ts := by
  induction ts generalizing s with
  | nil => trivial
  | cons t ts ih => exact ⟨⟨hP.1, hQ.1⟩, ih hP.2 hQ.2⟩

/-- What holds of every step of the list, in whatever state. -/
theorem along_of_forall {R : τ → Prop} (h : ∀ t ∈ ts, R t) : Along f (fun _ t => R t) s ts := by
  induction ts generalizing s with
  | nil => trivial
  | cons t ts ih =>
    exact ⟨h t List.mem_cons_self, ih fun u hu => h u (List.mem_cons_of_mem _ hu)⟩

/-- A property of each step, and an invariant that steps with it keep, give another property. -/
theorem Along.imp (hI : I s) (hkeep : ∀ s t, I s → P s t → I (f s t))
    (hPQ : ∀ s t, I s → P s t → Q s t) (h : Along f P s ts) : Along f Q s ts := by
  induction ts generalizing s with
  | nil => trivial
  | cons t ts ih => exact ⟨hPQ s t hI h.1, ih (hkeep s t hI h.1) h.2⟩

theorem Along.keeps (hI : I s) (hkeep : ∀ s t, I s → P s t → I (f s t)) (h : Along f P s ts) :
    I (ts.foldl f s) := by
  induction ts generalizing s with
  | nil => exact hI
  | cons t ts ih => exact ih (hkeep s t hI h.1) h.2

end Runs
