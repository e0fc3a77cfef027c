import Truyn.Js.Json

/-! js:unique | the text of a JSON value ends where it ends, and tells what was written

    `readUnit` takes one escaped code unit from the front of a text, so a quoted string can be told
    from whatever follows it (`quote_cancel`). Arrays of texts that can be told so can be told too
    (`commas_cancel`). -/

namespace Truyn

/-- Whatever stands behind them, two texts that begin alike are of one value. -/
def Tells {α : Type*} (f : α → JsString) : Prop :=
  ∀ a b x y, f a ++ x = f b ++ y → a = b ∧ x = y

variable {α β : Type*} {f : α → JsString}

theorem Tells.injective (h : Tells f) : Function.Injective f := fun a b hab =>
  (h a b [] [] (by rw [hab])).1

/-- A text that begins and ends with fixed punctuation. -/
theorem Tells.wrap (h : Tells f) (l r : JsString) : Tells fun a => l ++ f a ++ r := by
  intro a b x y hab
  simp only [List.append_assoc, List.append_cancel_left_eq] at hab
  obtain ⟨rfl, hrest⟩ := h a b _ _ hab
  exact ⟨rfl, List.append_cancel_left hrest⟩

theorem Tells.append {g : β → JsString} (h : Tells f) (hg : Tells g) (sep : JsString) :
    Tells fun p : α × β => f p.1 ++ (sep ++ g p.2) := by
  rintro ⟨a, b⟩ ⟨c, d⟩ x y hab
  simp only [List.append_assoc] at hab
  obtain ⟨rfl, hrest⟩ := h a c _ _ hab
  obtain ⟨rfl, hxy⟩ := hg b d x y (List.append_cancel_left hrest)
  exact ⟨rfl, hxy⟩

theorem Tells.comp (h : Tells f) {g : β → α} (hg : Function.Injective g) :
    Tells fun b => f (g b) := by
  intro a b x y hab
  obtain ⟨heq, hxy⟩ := h _ _ x y hab
  exact ⟨hg heq, hxy⟩

/-! ### Strings -/

def hexValue (u : UInt16) : ℕ := if u < 58 then u.toNat - 48 else u.toNat - 87

/-- The code unit of a short escape. -/
def shortEscape (u : UInt16) : UInt16 :=
  if u = 98 then 8
  else if u = 116 then 9
  else if u = 110 then 10
  else if u = 102 then 12
  else if u = 114 then 13
  else u

/-- One code unit inside quotation marks, and what follows; `none` at the end of the string. -/
def readUnit : JsString → Option (UInt16 × JsString)
  | [] => none
  | u :: s =>
    if u = 34 then none
    else if u = 92 then
      match s with
      | [] => none
      | v :: t =>
        if v = 117 then
          match t with
          | a :: b :: c :: d :: r =>
            some (UInt16.ofNat (((hexValue a * 16 + hexValue b) * 16 + hexValue c) * 16 +
              hexValue d), r)
          | _ => none
        else some (shortEscape v, t)
    else some (u, s)

theorem hexValue_hexDigit {n : ℕ} (h : n < 16) : hexValue (hexDigit n) = n := by
  have hall : ∀ n : Fin 16, hexValue (hexDigit n) = n := by decide
  exact hall ⟨n, h⟩

theorem readUnit_unicodeEscape (u : UInt16) (s : JsString) :
    readUnit (unicodeEscape u ++ s) = some (u, s) := by
  have hlt := u.toNat_lt
  have hvalue : ((u.toNat / 4096 % 16 * 16 + u.toNat / 256 % 16) * 16 + u.toNat / 16 % 16) * 16 +
      u.toNat % 16 = u.toNat := by omega
  simp [readUnit, unicodeEscape, hexValue_hexDigit (Nat.mod_lt _ (by decide : 0 < 16)), hvalue]

theorem readUnit_escapeUnit (pair : Bool) (u : UInt16) (s : JsString) :
    readUnit (escapeUnit pair u ++ s) = some (u, s) := by
  unfold escapeUnit
  split
  · next h => subst h; rfl
  split
  · next h => subst h; rfl
  split
  · next h => subst h; rfl
  split
  · next h => subst h; rfl
  split
  · next h => subst h; rfl
  split
  · next h => subst h; rfl
  split
  · next h => subst h; rfl
  split
  · exact readUnit_unicodeEscape u s
  · next hquote hslash _ => simp [readUnit, hquote, hslash]

/-- By induction on both strings, one code unit at a time, up to the closing quotation mark. -/
theorem escapeFrom_cancel {s t x y : JsString} {b c : Bool}
    (h : escapeFrom b s ++ 34 :: x = escapeFrom c t ++ 34 :: y) : s = t ∧ x = y := by
  have hend : ∀ r, readUnit (34 :: r) = none := fun _ => rfl
  induction s generalizing t b c with
  | nil =>
    cases t with
    | nil => exact ⟨rfl, (List.cons.inj h).2⟩
    | cons v t =>
      have hread := congrArg readUnit h
      simp only [escapeFrom, List.nil_append, List.append_assoc, readUnit_escapeUnit, hend] at hread
      simp at hread
  | cons u s ih =>
    cases t with
    | nil =>
      have hread := congrArg readUnit h
      simp only [escapeFrom, List.nil_append, List.append_assoc, readUnit_escapeUnit, hend] at hread
      simp at hread
    | cons v t =>
      have hread := congrArg readUnit h
      simp only [escapeFrom, List.append_assoc, readUnit_escapeUnit, Option.some.injEq,
        Prod.mk.injEq] at hread
      obtain ⟨rfl, hxy⟩ := ih hread.2
      exact ⟨by rw [hread.1], hxy⟩

theorem quote_cancel : Tells quote := by
  intro s t x y h
  simp only [quote, List.cons_append, List.append_assoc, List.nil_append] at h
  exact escapeFrom_cancel (List.cons.inj h).2

/-! ### Arrays -/

/-- The texts of a list, up to the bracket behind them. -/
theorem commas_cancel (hf : Tells f) (hne : ∀ a x y, f a ++ x ≠ 93 :: y) {l m : List α}
    {x y : JsString} (h : commas (l.map f) ++ 93 :: x = commas (m.map f) ++ 93 :: y) :
    l = m ∧ x = y := by
  have hfirst : ∀ (a : α) (l : List α) (x : JsString),
      ∃ z, commas ((a :: l).map f) ++ x = f a ++ z := by
    intro a l x
    cases l with
    | nil => exact ⟨x, rfl⟩
    | cons b l => exact ⟨44 :: (commas ((b :: l).map f) ++ x), by simp [commas]⟩
  induction l generalizing m with
  | nil =>
    cases m with
    | nil => exact ⟨rfl, (List.cons.inj h).2⟩
    | cons b m =>
      obtain ⟨z, hz⟩ := hfirst b m (93 :: y)
      exact absurd (hz.symm.trans h.symm) (hne b z x)
  | cons a l ih =>
    cases m with
    | nil =>
      obtain ⟨z, hz⟩ := hfirst a l (93 :: x)
      exact absurd (hz.symm.trans h) (hne a z y)
    | cons b m =>
      cases l with
      | nil =>
        cases m with
        | nil =>
          obtain ⟨rfl, hrest⟩ := hf a b _ _ h
          exact ⟨rfl, (List.cons.inj hrest).2⟩
        | cons d m =>
          simp only [List.map_cons, List.map_nil, commas, List.append_assoc, List.cons_append] at h
          have hrest := (hf a b _ _ h).2
          simp at hrest
      | cons c l =>
        cases m with
        | nil =>
          simp only [List.map_cons, List.map_nil, commas, List.append_assoc, List.cons_append] at h
          have hrest := (hf a b _ _ h).2
          simp at hrest
        | cons d m =>
          simp only [List.map_cons, commas, List.append_assoc, List.cons_append] at h
          obtain ⟨rfl, hrest⟩ := hf a b _ _ h
          obtain ⟨htail, hxy⟩ := ih (m := d :: m) (List.cons.inj hrest).2
          exact ⟨by rw [htail], hxy⟩

theorem array_cancel (hf : Tells f) (hne : ∀ a x y, f a ++ x ≠ 93 :: y) :
    Tells fun l : List α => array (l.map f) := by
  intro l m x y h
  simp only [array, List.cons_append, List.append_assoc, List.nil_append] at h
  exact commas_cancel hf hne (List.cons.inj h).2

end Truyn
