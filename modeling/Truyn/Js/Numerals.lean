import Truyn.Js.Text

/-! js:numerals | whole numbers as JavaScript prints them

    A whole number is printed by its decimal digits, without a leading zero. Different numbers have
    different numerals (`numeral_injective`), and one more in value is at most one more in length
    (`length_numeral_succ`). -/

namespace Truyn

/-- The digits of a whole number. -/
def numeral (n : ℕ) : JsString := (Nat.toDigits 10 n).map fun c => UInt16.ofNat c.toNat

theorem js_of_digits {l : List Char} (h : ∀ c ∈ l, c.isDigit) :
    l.flatMap utf16 = l.map fun c => UInt16.ofNat c.toNat := by
  induction l with
  | nil => rfl
  | cons c l ih =>
    have hc : c.toNat < 0x10000 := by
      have h9 := h c List.mem_cons_self
      simp only [Char.isDigit, Bool.and_eq_true, decide_eq_true_eq, UInt32.le_iff_toNat_le] at h9
      have : c.toNat ≤ 57 := h9.2
      omega
    rw [List.flatMap_cons, ih fun x hx => h x (List.mem_cons_of_mem _ hx), utf16, if_pos hc]
    rfl

/-- A template literal prints a whole number by its numeral. -/
theorem decimal_natCast (n : ℕ) : decimal (some (n : ℤ)) = numeral n := by
  have hs : (toString (n : ℤ)).toList = Nat.toDigits 10 n := Nat.toList_repr
  rw [decimal, js, hs, numeral]
  exact js_of_digits fun c hc => Nat.isDigit_of_mem_toDigits (by decide) (by decide) hc

theorem code_digitChar {d : ℕ} (h : d < 10) :
    UInt16.ofNat d.digitChar.toNat = UInt16.ofNat (48 + d) := by
  rw [Nat.toNat_digitChar_of_lt_ten h]

/-- A numeral ends in its lowest digit. -/
theorem numeral_of_ge {n : ℕ} (h : 10 ≤ n) :
    numeral n = numeral (n / 10) ++ [UInt16.ofNat (48 + n % 10)] := by
  rw [numeral, Nat.toDigits_of_base_le (by decide) h, List.map_append, List.map_singleton,
    code_digitChar (Nat.mod_lt _ (by decide)), numeral]

theorem numeral_of_lt {n : ℕ} (h : n < 10) : numeral n = [UInt16.ofNat (48 + n)] := by
  rw [numeral, Nat.toDigits_of_lt_base h, List.map_singleton, code_digitChar h]

theorem digit_bounds {d : ℕ} (h : d < 10) :
    48 ≤ UInt16.ofNat (48 + d) ∧ UInt16.ofNat (48 + d) ≤ 57 := by
  rw [UInt16.le_iff_toNat_le, UInt16.le_iff_toNat_le, UInt16.toNat_ofNat']
  have : (48 + d) % 2 ^ 16 = 48 + d := Nat.mod_eq_of_lt (by omega)
  rw [this]
  constructor
  · show 48 ≤ 48 + d
    omega
  · show 48 + d ≤ 57
    omega

/-- A numeral is made of digits. -/
theorem numeral_digits (n : ℕ) : ∀ u ∈ numeral n, 48 ≤ u ∧ u ≤ 57 := by
  induction n using Nat.strongRecOn with
  | ind n ih =>
    intro u hu
    by_cases h : n < 10
    · rw [numeral_of_lt h, List.mem_singleton] at hu
      subst hu
      exact digit_bounds h
    · rw [numeral_of_ge (Nat.le_of_not_lt h), List.mem_append, List.mem_singleton] at hu
      rcases hu with hu | rfl
      · exact ih _ (by omega) u hu
      · exact digit_bounds (Nat.mod_lt _ (by decide))

theorem numeral_ne_nil (n : ℕ) : numeral n ≠ [] := by
  simp [numeral]

/-- Only the numeral of zero starts with a zero. -/
theorem numeral_head {n : ℕ} (h : 0 < n) : (numeral n).headD 0 ≠ 48 := by
  induction n using Nat.strongRecOn with
  | ind n ih =>
    by_cases h10 : n < 10
    · rw [numeral_of_lt h10, List.headD_cons]
      intro he
      have := congrArg UInt16.toNat he
      rw [UInt16.toNat_ofNat', Nat.mod_eq_of_lt (by omega)] at this
      have h48 : 48 + n = 48 := this
      omega
    · rw [numeral_of_ge (Nat.le_of_not_lt h10)]
      have hne := numeral_ne_nil (n / 10)
      have hd : (numeral (n / 10)).headD 0 ≠ 48 := ih _ (by omega) (by omega)
      cases hl : numeral (n / 10) with
      | nil => exact absurd hl hne
      | cons u l =>
        rw [hl] at hd
        exact hd

/-- The number that a run of digits denotes. -/
def numeralValue (s : JsString) : ℕ := s.foldl (fun v u => 10 * v + (u.toNat - 48)) 0

@[simp] theorem numeralValue_numeral (n : ℕ) : numeralValue (numeral n) = n := by
  induction n using Nat.strongRecOn with
  | ind n ih =>
    have hdigit : ∀ d < 10, (UInt16.ofNat (48 + d)).toNat - 48 = d := by
      intro d hd
      rw [UInt16.toNat_ofNat', Nat.mod_eq_of_lt (by omega)]
      omega
    by_cases h : n < 10
    · rw [numeral_of_lt h, numeralValue, List.foldl_cons, List.foldl_nil, hdigit n h]
      omega
    · have ih' := ih (n / 10) (by omega)
      rw [numeralValue] at ih' ⊢
      rw [numeral_of_ge (Nat.le_of_not_lt h), List.foldl_append, ih', List.foldl_cons, List.foldl_nil,
        hdigit _ (Nat.mod_lt _ (by decide))]
      omega

/-- Digits without a leading zero are the numeral of their value. -/
theorem numeral_numeralValue {s : JsString} (hne : s ≠ []) (hhead : s.head? ≠ some 48)
    (hdigits : ∀ u ∈ s, 48 ≤ u ∧ u ≤ 57) : numeral (numeralValue s) = s := by
  induction s using List.reverseRecOn with
  | nil => exact absurd rfl hne
  | append_singleton l u ih =>
    have hu := hdigits u (by simp)
    simp only [UInt16.le_iff_toNat_le, UInt16.reduceToNat] at hu
    have hunit : UInt16.ofNat (48 + (u.toNat - 48)) = u := by
      rw [Nat.add_sub_cancel' hu.1, UInt16.ofNat_toNat]
    rw [numeralValue, List.foldl_append, List.foldl_cons, List.foldl_nil, ← numeralValue]
    by_cases hl : l = []
    · subst hl
      rw [numeralValue, List.foldl_nil, numeral_of_lt (by omega), Nat.mul_zero, Nat.zero_add, hunit,
        List.nil_append]
    · have hih := ih hl (by rwa [List.head?_append_of_ne_nil _ hl] at hhead)
        fun v hv => hdigits v (List.mem_append_left _ hv)
      have hpos : numeralValue l ≠ 0 := by
        intro hzero
        rw [hzero] at hih
        simp [← hih, numeral_of_lt] at hhead
      rw [numeral_of_ge (by omega)]
      have hdiv : (10 * numeralValue l + (u.toNat - 48)) / 10 = numeralValue l := by omega
      have hmod : (10 * numeralValue l + (u.toNat - 48)) % 10 = u.toNat - 48 := by omega
      rw [hdiv, hmod, hih, hunit]

theorem numeral_injective : Function.Injective numeral :=
  Function.LeftInverse.injective numeralValue_numeral

theorem length_numeral_le {n k : ℕ} (hk : 0 < k) : (numeral n).length ≤ k ↔ n < 10 ^ k := by
  rw [numeral, List.length_map]
  exact Nat.length_toDigits_le_iff (by decide) hk

theorem length_numeral_pos (n : ℕ) : 0 < (numeral n).length :=
  List.length_pos_iff.mpr (numeral_ne_nil n)

/-- Counting on by one makes a numeral at most one digit longer. -/
theorem length_numeral_succ (n : ℕ) : (numeral (n + 1)).length ≤ (numeral n).length + 1 := by
  have hn := (length_numeral_le (length_numeral_pos n)).mp (Nat.le_refl _)
  refine (length_numeral_le (Nat.succ_pos _)).mpr ?_
  rw [Nat.pow_succ]
  omega

end Truyn
