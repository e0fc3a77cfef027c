import Truyn.Js.Json

/-! js:dates | instants and the dates JavaScript prints for them

    An instant is a number of milliseconds since the epoch; `toISOString` prints it in the proleptic
    Gregorian calendar. A date of the years 0 to 9999 has 24 characters
    (`length_toISOString`); later years are printed with a sign and six digits. -/

namespace Truyn

/-- The last `k` decimal digits of a number. -/
def pad : ℕ → ℕ → JsString
  | 0, _ => []
  | k + 1, n => pad k (n / 10) ++ [UInt16.ofNat (48 + n % 10)]

structure CivilDate where
  year : ℤ
  month : ℕ
  day : ℕ
  deriving DecidableEq, Repr

/-- The date of a day since the epoch. Years are counted from March inside eras of 400 years, so
    that the leap day is the last of its year. -/
def civil (days : ℤ) : CivilDate :=
  let z := days + 719468
  let era := z / 146097
  let doe := (z % 146097).toNat
  let yoe := (doe - doe / 1460 + doe / 36524 - doe / 146096) / 365
  let doy := doe - (365 * yoe + yoe / 4 - yoe / 100)
  let mp := (5 * doy + 2) / 153
  let month := if mp < 10 then mp + 3 else mp - 9
  { year := yoe + era * 400 + (if month ≤ 2 then 1 else 0)
    month := month
    day := doy - (153 * mp + 2) / 5 + 1 }

/-- The year of an instant. -/
def yearOf (t : ℤ) : ℤ := (civil (t / 86400000)).year

def yearText (y : ℤ) : JsString :=
  if 0 ≤ y ∧ y ≤ 9999 then pad 4 y.toNat
  else if 0 ≤ y then 43 :: pad 6 y.toNat
  else 45 :: pad 6 (-y).toNat

/-- `new Date(t).toISOString()`. -/
def toISOString (t : ℤ) : JsString :=
  let d := civil (t / 86400000)
  let ms := (t % 86400000).toNat
  yearText d.year ++ [45] ++ pad 2 d.month ++ [45] ++ pad 2 d.day ++ [84] ++
    pad 2 (ms / 3600000) ++ [58] ++ pad 2 (ms / 60000 % 60) ++ [58] ++ pad 2 (ms / 1000 % 60) ++
    [46] ++ pad 3 (ms % 1000) ++ [90]

example : toISOString 951782399999 = js "2000-02-28T23:59:59.999Z" := by decide

example : toISOString 253402300800000 = js "+010000-01-01T00:00:00.000Z" := by decide

@[simp] theorem length_pad (k n : ℕ) : (pad k n).length = k := by
  induction k generalizing n with
  | zero => rfl
  | succ k ih => rw [pad, List.length_append, ih, List.length_singleton]

/-- Characters between `+` and `Z`: none of them needs an escape. -/
theorem plain_pad (k n : ℕ) : ∀ u ∈ pad k n, 43 ≤ u ∧ u ≤ 90 := by
  induction k generalizing n with
  | zero =>
    intro u hu
    cases hu
  | succ k ih =>
    intro u hu
    rw [pad, List.mem_append, List.mem_singleton] at hu
    rcases hu with hu | rfl
    · exact ih _ u hu
    · have hd := digit_bounds (Nat.mod_lt n (by decide : 0 < 10))
      exact ⟨UInt16.le_trans (by decide) hd.1, UInt16.le_trans hd.2 (by decide)⟩

theorem plain_yearText (y : ℤ) : ∀ u ∈ yearText y, 43 ≤ u ∧ u ≤ 90 := by
  intro u hu
  rw [yearText] at hu
  split at hu
  · exact plain_pad _ _ u hu
  split at hu
  · rcases List.mem_cons.mp hu with rfl | hu
    · decide
    · exact plain_pad _ _ u hu
  · rcases List.mem_cons.mp hu with rfl | hu
    · decide
    · exact plain_pad _ _ u hu

theorem plain_toISOString (t : ℤ) : ∀ u ∈ toISOString t, 43 ≤ u ∧ u ≤ 90 := by
  intro u hu
  simp only [toISOString, List.mem_append, List.mem_singleton] at hu
  rcases hu with
    ((((((((((((hu | rfl) | hu) | rfl) | hu) | rfl) | hu) | rfl) | hu) | rfl) | hu) | rfl) | hu) | rfl
  all_goals first | exact plain_yearText _ u hu | exact plain_pad _ _ u hu | decide

/-- A date of a year with four digits has 24 characters. -/
theorem length_toISOString {t : ℤ} (h : 0 ≤ yearOf t ∧ yearOf t ≤ 9999) :
    (toISOString t).length = 24 := by
  have hy : (yearText (civil (t / 86400000)).year).length = 4 := by
    rw [yearOf] at h
    rw [yearText, if_pos h, length_pad]
  simp only [toISOString, List.length_append, List.length_singleton, length_pad, hy]

/-- Such a date takes 26 bytes in a document, with its quotation marks. -/
theorem byteLength_date {t : ℤ} (h : 0 ≤ yearOf t ∧ yearOf t ≤ 9999) :
    byteLength (quote (toISOString t)) = 26 := by
  rw [byteLength_quote_plain (plain_toISOString t), length_toISOString h]

end Truyn
