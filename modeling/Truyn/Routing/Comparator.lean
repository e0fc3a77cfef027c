import Truyn.Routing.Directory
import Truyn.Dht.Values

/-! routing:comparator | the order in which the eligible offers are ranked

    Costs and utilizations are numbers that are not negative; a cost is `Infinity` where a price is
    not known. `compare` is the comparator with the numbers of the language: `Infinity - Infinity`
    is `NaN`, which is falsy and falls through to the next criterion. `rank` is the order that it
    stands for: `compare` is negative exactly where `rank` is less (`negative_compare`). -/

namespace Truyn.Routing
open Dht (Numeric)

inductive Mode
  | cost
  | latency
  deriving DecidableEq

/-- An offer with what is looked at when it is ranked. -/
structure Ranked where
  offer : Offer
  cost : WithTop ℚ
  utilization : WithTop ℚ
  saturated : Bool
  cooling : Bool
  degraded : Bool
  tie : ℚ

/-- `x - y`. Rounding keeps the sign of a difference, and no more of it is used. -/
def minus : WithTop ℚ → WithTop ℚ → Numeric
  | none, none => .nan
  | none, some _ => .infinity
  | some _, none => .minusInfinity
  | some x, some y => .finite (x - y)

theorem minus_top_top : minus ⊤ ⊤ = .nan := rfl
theorem minus_top_coe (y : ℚ) : minus ⊤ y = .infinity := rfl
theorem minus_coe_top (x : ℚ) : minus x ⊤ = .minusInfinity := rfl
theorem minus_coe_coe (x y : ℚ) : minus x y = .finite (x - y) := rfl

/-- `x || y`. -/
def orElse : Numeric → Numeric → Numeric
  | .nan, y => y
  | .finite x, y => if x = 0 then y else .finite x
  | x, _ => x

/-- `x < 0`. -/
def negative : Numeric → Bool
  | .minusInfinity => true
  | .finite x => x < 0
  | _ => false

/-- `(a, b) => …`, the comparator of `ranked.sort`. -/
def compare (mode : Mode) (a b : Ranked) : Numeric :=
  if a.degraded ≠ b.degraded then .finite (if a.degraded then 1 else -1)
  else if a.cooling ≠ b.cooling then .finite (if a.cooling then 1 else -1)
  else if a.saturated ≠ b.saturated then .finite (if a.saturated then 1 else -1)
  else if a.saturated ∨ mode = .latency then
    orElse (minus a.utilization b.utilization)
      (orElse (minus a.cost b.cost) (.finite (a.tie - b.tie)))
  else
    orElse (minus a.cost b.cost)
      (orElse (minus a.utilization b.utilization) (.finite (a.tie - b.tie)))

/-- `ranked.sort(…)`: a stable sort, for which only the sign of the comparator counts. -/
def sort (mode : Mode) (ranked : List Ranked) : List Ranked :=
  ranked.insertionSort fun a b => negative (compare mode b a) = false

/-! ### The order that the comparator stands for -/

/-- Detached, cooling and saturated providers come last, in this order of weight; then the cheaper
    of two costs with the utilization to decide, or the other way round. -/
def standing (mode : Mode) (a : Ranked) : Bool ×ₗ Bool ×ₗ Bool ×ₗ WithTop ℚ ×ₗ WithTop ℚ :=
  toLex (a.degraded, toLex (a.cooling, toLex (a.saturated,
    if a.saturated ∨ mode = .latency then toLex (a.utilization, a.cost)
    else toLex (a.cost, a.utilization))))

/-- The standing, and the random tie between equals. -/
def rank (mode : Mode) (a : Ranked) :
    (Bool ×ₗ Bool ×ₗ Bool ×ₗ WithTop ℚ ×ₗ WithTop ℚ) ×ₗ ℚ :=
  toLex (standing mode a, a.tie)

/-- `NaN`, of equal infinities, falls through as `0` does. -/
theorem negative_orElse_minus (x y : WithTop ℚ) (z : Numeric) :
    negative (orElse (minus x y) z) = true ↔ x < y ∨ x = y ∧ negative z = true := by
  cases x with
  | top =>
    cases y with
    | top => simp [minus_top_top, orElse]
    | coe y => simp [minus_top_coe, orElse, negative]
  | coe x =>
    cases y with
    | top => simp [minus_coe_top, orElse, negative]
    | coe y =>
      rw [minus_coe_coe, orElse]
      by_cases h : x = y
      · simp [h]
      · have hne : x - y ≠ 0 := sub_ne_zero.mpr h
        simp [hne, negative, h]

theorem negative_flag (p q : Bool) (z : Numeric) :
    negative (if p ≠ q then .finite (if p then 1 else -1) else z) = true ↔
      p < q ∨ p = q ∧ negative z = true := by
  cases p <;> cases q <;> norm_num [negative]

theorem lex_assoc {α β γ : Type*} [LT α] [LT β] [LT γ] {a a' : α} {b b' : β} {c c' : γ} :
    toLex (toLex (a, b), c) < toLex (toLex (a', b'), c') ↔
      a < a' ∨ a = a' ∧ toLex (b, c) < toLex (b', c') := by
  simp only [Prod.Lex.toLex_lt_toLex, toLex_inj, Prod.mk.injEq]
  tauto

/-- Also with costs that are `Infinity`. -/
theorem negative_compare (mode : Mode) (a b : Ranked) :
    negative (compare mode a b) = true ↔ rank mode a < rank mode b := by
  have htie : negative (.finite (a.tie - b.tie)) = true ↔ a.tie < b.tie := by simp [negative]
  simp only [compare, negative_flag, rank, standing, lex_assoc]
  refine or_congr_right (and_congr_right fun _ => or_congr_right (and_congr_right fun _ =>
    or_congr_right (and_congr_right fun hs => ?_)))
  rw [hs]
  split
  · rw [lex_assoc, Prod.Lex.toLex_lt_toLex, negative_orElse_minus, negative_orElse_minus, htie]
  · rw [lex_assoc, Prod.Lex.toLex_lt_toLex, negative_orElse_minus, negative_orElse_minus, htie]

/-- So the comparator is a strict weak order. -/
theorem compare_strictWeakOrder (mode : Mode) :
    IsStrictWeakOrder Ranked fun a b => negative (compare mode a b) = true where
  irrefl a h := lt_irrefl _ ((negative_compare mode a a).mp h)
  trans a b c h h' := (negative_compare mode a c).mpr
    (((negative_compare mode a b).mp h).trans ((negative_compare mode b c).mp h'))
  incomp_trans a b c := by
    simp only [negative_compare, not_lt]
    exact fun h h' => ⟨h'.1.trans h.1, h.2.trans h'.2⟩

/-- What is sorted stands in the order of rank. -/
theorem pairwise_sort (mode : Mode) (ranked : List Ranked) :
    (sort mode ranked).Pairwise fun a b => rank mode a ≤ rank mode b := by
  have hle : ∀ a b : Ranked, negative (compare mode b a) = false ↔ rank mode a ≤ rank mode b := by
    intro a b
    rw [← Bool.not_eq_true, negative_compare, not_lt]
  have htotal : Std.Total fun a b : Ranked => negative (compare mode b a) = false :=
    ⟨fun a b => by simpa only [hle] using le_total (rank mode a) (rank mode b)⟩
  have htrans : IsTrans Ranked fun a b => negative (compare mode b a) = false :=
    ⟨fun a b c h h' => (hle a c).mpr (((hle a b).mp h).trans ((hle b c).mp h'))⟩
  exact (List.pairwise_insertionSort _ ranked).imp fun h => (hle _ _).mp h

/-- The first of what is sorted has the least standing. -/
theorem standing_le_of_sort {mode : Mode} {ranked rest : List Ranked} {first a : Ranked}
    (h : sort mode ranked = first :: rest) (ha : a ∈ ranked) :
    standing mode first ≤ standing mode a := by
  have hmem : a ∈ first :: rest := h ▸ (List.perm_insertionSort _ ranked).mem_iff.mpr ha
  have hpair := pairwise_sort mode ranked
  rw [h] at hpair
  rcases List.mem_cons.mp hmem with rfl | hrest
  · exact le_rfl
  · rcases Prod.Lex.toLex_le_toLex.mp (List.rel_of_pairwise_cons hpair hrest) with hlt | ⟨heq, -⟩
    · exact hlt.le
    · exact heq.le

end Truyn.Routing
