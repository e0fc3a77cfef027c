import Mathlib

/-! scheme:checks | computations that throw unless each check passes

    A result came through every check before it. -/

namespace Checks

universe u
variable {ε φ : Type*} {α β : Type u} {c : Prop} [Decidable c] {reason : ε} {r : α} {s : β}

theorem guard_ok {k : PUnit → Except ε α} :
    (if c then (throw reason >>= k) else k PUnit.unit) = .ok r ↔ ¬c ∧ k PUnit.unit = .ok r := by
  by_cases h : c
  · simp [h, bind, Except.bind, throw, throwThe, MonadExceptOf.throw]
  · simp [h]

theorem throw_ne : (throw reason : Except ε α) ≠ .ok r := by
  simp [throw, throwThe, MonadExceptOf.throw]

variable {a : α} {x : Except ε α} {f : α → Except ε β} {l : List α}

theorem last_guard_ok : (if c then throw reason else pure a : Except ε α) = .ok r ↔
    ¬c ∧ a = r := by
  by_cases h : c
  · simp [h, throw, throwThe, MonadExceptOf.throw]
  · simp [h, pure, Except.pure]

theorem throw_ok : (if c then throw reason else x) = .ok r ↔ ¬c ∧ x = .ok r := by
  by_cases h : c
  · simp [h, throw, throwThe, MonadExceptOf.throw]
  · simp [h]

theorem bind_ok {x : Except ε β} {k : β → Except ε α} :
    (x >>= k) = .ok r ↔ ∃ s, x = .ok s ∧ k s = .ok r := by
  cases x <;> simp [bind, Except.bind]

theorem error_ok : (if c then .error reason else x) = .ok r ↔ ¬c ∧ x = .ok r := by
  by_cases h : c <;> simp [h]

theorem map_ok {x : Except ε β} {f : β → α} : x.map f = .ok r ↔ ∃ s, x = .ok s ∧ f s = r := by
  cases x <;> simp [Except.map]

theorem pure_ok : (pure a : Except ε α) = .ok r ↔ a = r := by
  simp [pure, Except.pure]

theorem mapError_ok {x : Except ε β} {f : ε → φ} : x.mapError f = .ok s ↔ x = .ok s := by
  cases x <;> simp [Except.mapError]

theorem toOption_eq_some : x.toOption = some r ↔ x = .ok r := by
  cases x <;> simp [Except.toOption]

theorem ok_of_isOk (h : x.isOk = true) : ∃ r, x = .ok r := by
  cases x with
  | error e => cases h
  | ok r => exact ⟨r, rfl⟩

/-- What an item is turned into, and nothing else, is in the list. -/
theorem mem_mapM {m : List β} (h : l.mapM f = .ok m) {b : β} :
    b ∈ m ↔ ∃ a ∈ l, f a = .ok b := by
  induction l generalizing m with
  | nil =>
    cases h
    simp
  | cons a l ih =>
    simp only [List.mapM_cons, bind_ok, pure_ok] at h
    obtain ⟨b', hb', m', hm', rfl⟩ := h
    have hfirst : b = b' ↔ f a = .ok b := by
      rw [hb', Except.ok.injEq, eq_comm]
    simp only [List.mem_cons, exists_eq_or_imp, ih hm', hfirst]

theorem mapM_ok :
    (∃ m, l.mapM f = .ok m) ↔ ∀ a ∈ l, ∃ b, f a = .ok b := by
  induction l with
  | nil => exact ⟨by simp, fun _ => ⟨[], rfl⟩⟩
  | cons a l ih =>
    rw [List.mapM_cons, List.forall_mem_cons, ← ih]
    simp only [bind_ok, pure_ok]
    constructor
    · rintro ⟨m, b, hb, m', hm', -⟩
      exact ⟨⟨b, hb⟩, m', hm'⟩
    · rintro ⟨⟨b, hb⟩, m', hm'⟩
      exact ⟨_, b, hb, m', hm', rfl⟩

end Checks
