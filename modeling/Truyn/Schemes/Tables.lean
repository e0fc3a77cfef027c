import Mathlib.Data.List.Basic

/-! scheme:tables | rows that are found by their number

    A new row goes to the end, and a row is written over: what a number finds afterwards, said from
    what it finds and from what it found before. -/

namespace Tables

variable {α : Type*} {l : List α} {a b : α} {i j : ℕ}

/-- What is found after a row was added is an older row, or the new one at the end. -/
theorem get_push (h : (l ++ [a])[i]? = some b) : l[i]? = some b ∨ i = l.length ∧ b = a := by
  rcases Nat.lt_or_ge i l.length with hlt | hge
  · exact .inl (by rwa [List.getElem?_append_left hlt] at h)
  · rw [List.getElem?_append_right hge] at h
    obtain ⟨hlt, rfl⟩ := List.getElem_of_getElem? h
    rw [List.length_singleton] at hlt
    exact .inr ⟨by omega, by simp⟩

/-- Older rows keep their numbers. -/
theorem get_push_old (h : l[i]? = some b) : (l ++ [a])[i]? = some b := by
  rw [List.getElem?_append_left (List.getElem_of_getElem? h).1]
  exact h

/-- What is found after a row was written is the new row, or another one as it was. -/
theorem get_write (h : (l.set i a)[j]? = some b) : i = j ∧ b = a ∨ i ≠ j ∧ l[j]? = some b := by
  rcases eq_or_ne i j with rfl | hne
  · rw [List.getElem?_set_self'] at h
    obtain ⟨old, -, hold⟩ := Option.map_eq_some_iff.mp h
    exact .inl ⟨rfl, hold.symm⟩
  · exact .inr ⟨hne, by rwa [List.getElem?_set_ne hne] at h⟩

theorem get_write_self (h : l[i]? = some b) : (l.set i a)[i]? = some a := by
  rw [List.getElem?_set_self (List.getElem_of_getElem? h).1]

theorem get_write_other (hne : i ≠ j) (h : l[j]? = some b) : (l.set i a)[j]? = some b := by
  rwa [List.getElem?_set_ne hne]

/-- A row is the one that was written, or it was there. -/
theorem mem_write (h : b ∈ l.set i a) : b = a ∨ b ∈ l := (List.mem_or_eq_of_mem_set h).symm

end Tables
