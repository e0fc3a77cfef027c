import Mathlib

/-! scheme:best | the first `k` of a list, in an order

    Sorting by an order that tells the items apart forgets how they were listed, so the best `k` are
    a function of the set. One more item takes at most one place from the others (`best_cons`). -/

namespace Best

variable {α : Type*} (r : α → α → Prop) [DecidableRel r] {k : ℕ} {a x y : α} {l l' s : List α}

def best (k : ℕ) (l : List α) : List α := (l.insertionSort r).take k

variable {r}

theorem best_subset : best r k l ⊆ l := fun _ hx =>
  (List.mem_insertionSort r).mp (List.mem_of_mem_take hx)

theorem length_best : (best r k l).length = min k l.length := by
  rw [best, List.length_take, List.length_insertionSort]

/-- Items that the order tells apart have one order. -/
theorem best_perm [IsTrans α r] [Std.Total r] (h : l.Perm l')
    (hanti : ∀ x ∈ l, ∀ y ∈ l, r x y → r y x → x = y) : best r k l = best r k l' := by
  have hperm : (l.insertionSort r).Perm (l'.insertionSort r) :=
    (List.perm_insertionSort r l).trans (h.trans (List.perm_insertionSort r l').symm)
  have hsorted : l.insertionSort r = l'.insertionSort r := by
    refine hperm.eq_of_pairwise (fun x y hx hy => hanti x ?_ y ?_) (List.pairwise_insertionSort r l)
      (List.pairwise_insertionSort r l')
    · exact (List.mem_insertionSort r).mp hx
    · exact h.symm.subset ((List.mem_insertionSort r).mp hy)
  rw [best, best, hsorted]

/-- An item is inserted somewhere: the first `k` are then the same, or they have it, and the last of
    them has left. -/
theorem take_insert (p q : List α) (a : α) (k : ℕ) :
    (p ++ a :: q).take k = (p ++ q).take k ∨
      ∃ n, (p ++ a :: q).take k = p ++ a :: q.take n ∧
        (p ++ q).take k = p ++ q.take n ++ q[n]?.toList := by
  rcases Nat.lt_or_ge p.length k with hlt | hle
  · right
    obtain ⟨n, rfl⟩ := Nat.exists_eq_add_of_lt hlt
    refine ⟨n, ?_, ?_⟩
    · rw [Nat.add_assoc, List.take_length_add_append, List.take_succ_cons]
    · rw [Nat.add_assoc, List.take_length_add_append, List.take_add_one, List.append_assoc]
  · left
    rw [List.take_append_of_le_length hle, List.take_append_of_le_length hle]

/-- One more item: nobody else comes in, and at most one goes out. -/
theorem best_cons : (∀ x ∈ best r k (a :: l), x = a ∨ x ∈ best r k l) ∧
    ∀ x ∈ best r k l, x ∉ best r k (a :: l) → ∀ y ∈ best r k l, y ∉ best r k (a :: l) → x = y := by
  have hinsert : (a :: l).insertionSort r =
      ((l.insertionSort r).takeWhile fun b => ¬r a b) ++
        a :: (l.insertionSort r).dropWhile fun b => ¬r a b :=
    List.insertionSort_cons_eq_take_drop r a l
  have hold := List.takeWhile_append_dropWhile (p := fun b => ¬r a b) (l := l.insertionSort r)
  rw [best, best, hinsert]
  generalize (l.insertionSort r).takeWhile (fun b => ¬r a b) = p at hold ⊢
  generalize (l.insertionSort r).dropWhile (fun b => ¬r a b) = q at hold ⊢
  rw [← hold]
  rcases take_insert p q a k with hsame | ⟨n, hnew, hprior⟩
  · rw [hsame]
    exact ⟨fun x hx => .inr hx, fun x hx hout => (hout hx).elim⟩
  · rw [hnew, hprior]
    have hgone : ∀ x ∈ p ++ q.take n ++ q[n]?.toList, x ∉ p ++ a :: q.take n →
        q[n]? = some x := by
      intro x hx hout
      rcases List.mem_append.mp hx with hx | hx
      · refine absurd ?_ hout
        rcases List.mem_append.mp hx with hx | hx <;> simp [hx]
      · exact Option.mem_toList.mp hx
    refine ⟨fun x hx => ?_, fun x hx hout y hy hout' => ?_⟩
    · rcases List.mem_append.mp hx with hx | hx
      · simp [hx]
      · rcases List.mem_cons.mp hx with rfl | hx
        · exact .inl rfl
        · simp [hx]
    · exact Option.some.inj ((hgone x hx hout).symm.trans (hgone y hy hout'))

end Best
