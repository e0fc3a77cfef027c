import Truyn.Js.Values

/-! js:parse | JSON.parse, of a text that JSON.stringify wrote

    A text has no blanks, and a number in it stays as it is written. The reader takes a value from the
    front of a text and leaves what stands behind it; each of its calls spends one unit of fuel, and
    twice the length of a text is enough for its value (`read_text`). So whatever is written as JSON is
    read back (`parse_text`). -/

namespace Truyn.Json

/-- The code units up to the closing quotation mark. -/
def readString : ℕ → JsString → Option (JsString × JsString)
  | 0, _ => none
  | fuel + 1, s =>
    match readUnit s with
    | some (u, r) => (readString fuel r).map fun p => (u :: p.1, p.2)
    | none => if s.head? = some 34 then some ([], s.tail) else none

/-- No punctuation that ends a number. -/
def inNumber (u : UInt16) : Bool := u ≠ 44 ∧ u ≠ 93 ∧ u ≠ 125

def numberOf : JsString → Option NumberText
  | [] => none
  | u :: s =>
    if h : (u = 45 ∨ 48 ≤ u ∧ u ≤ 57) ∧ ∀ v ∈ u :: s, v ≠ 44 ∧ v ≠ 93 ∧ v ≠ 125 then
      some ⟨u :: s, ⟨u, s, rfl, h.1⟩, h.2⟩
    else none

def readNumber (s : JsString) : Option (Json × JsString) :=
  (numberOf (s.takeWhile inNumber)).map fun n => (.number n, s.dropWhile inNumber)

mutual

/-- A value, and what stands behind it. -/
def read : ℕ → JsString → Option (Json × JsString)
  | 0, _ => none
  | fuel + 1, s =>
    match s.head?.map kindOf with
    | some 0 => some (.null, s.drop 4)
    | some 1 => some (.bool true, s.drop 4)
    | some 2 => some (.bool false, s.drop 5)
    | some 3 => (readString s.length s.tail).map fun p => (.string p.1, p.2)
    | some 4 =>
      if s.tail.head? = some 93 then some (.array [], s.drop 2)
      else (readItems fuel s.tail).map fun p => (.array p.1, p.2)
    | some 5 =>
      if s.tail.head? = some 125 then some (.object [], s.drop 2)
      else (readMembers fuel s.tail).map fun p => (.object p.1, p.2)
    | some 6 => readNumber s
    | _ => none

/-- The items up to the bracket that closes the array. -/
def readItems : ℕ → JsString → Option (List Json × JsString)
  | 0, _ => none
  | fuel + 1, s =>
    (read fuel s).bind fun p =>
      if p.2.head? = some 44 then (readItems fuel p.2.tail).map fun q => (p.1 :: q.1, q.2)
      else if p.2.head? = some 93 then some ([p.1], p.2.tail)
      else none

/-- The members up to the brace that closes the object. -/
def readMembers : ℕ → JsString → Option (List (JsString × Json) × JsString)
  | 0, _ => none
  | fuel + 1, s =>
    if s.head? ≠ some 34 then none
    else
      (readString s.length s.tail).bind fun key =>
        if key.2.head? ≠ some 58 then none
        else
          (read fuel key.2.tail).bind fun p =>
            if p.2.head? = some 44 then
              (readMembers fuel p.2.tail).map fun q => ((key.1, p.1) :: q.1, q.2)
            else if p.2.head? = some 125 then some ([(key.1, p.1)], p.2.tail)
            else none

end

/-- `JSON.parse(s)`. -/
def parse (s : JsString) : Option Json :=
  (read (2 * s.length + 1) s).bind fun p => if p.2 = [] then some p.1 else none

/-! ### What is written is read back -/

theorem length_escapeUnit_pos (pair : Bool) (u : UInt16) : 0 < (escapeUnit pair u).length := by
  refine List.length_pos_iff.mpr fun h => ?_
  have hread := readUnit_escapeUnit pair u []
  rw [h] at hread
  cases hread

theorem length_le_escapeFrom : ∀ (b : Bool) (s : JsString), s.length ≤ (escapeFrom b s).length
  | _, [] => Nat.le_refl _
  | b, u :: s => by
    have htail := length_le_escapeFrom (isHigh u) s
    have hunit := length_escapeUnit_pos (paired b u s) u
    rw [escapeFrom, List.length_append, List.length_cons]
    omega

/-- One code unit after the other, up to the quotation mark behind them. -/
theorem readString_escapeFrom (s x : JsString) :
    ∀ (b : Bool) (fuel : ℕ), s.length < fuel →
      readString fuel (escapeFrom b s ++ 34 :: x) = some (s, x) := by
  induction s with
  | nil =>
    intro b fuel hfuel
    cases fuel with
    | zero => cases hfuel
    | succ fuel => rfl
  | cons u s ih =>
    intro b fuel hfuel
    cases fuel with
    | zero => cases hfuel
    | succ fuel =>
      have htail := ih (isHigh u) fuel (Nat.lt_of_succ_lt_succ hfuel)
      simp only [readString, escapeFrom, List.append_assoc, readUnit_escapeUnit, htail,
        Option.map_some]

/-- A quoted string, with the opening quotation mark taken off. -/
theorem readString_quote (s x : JsString) :
    (quote s ++ x).head? = some 34 ∧
      readString (quote s ++ x).length (quote s ++ x).tail = some (s, x) := by
  have hlength := length_le_escapeFrom false s
  have hq : quote s ++ x = 34 :: (escapeFrom false s ++ 34 :: x) := by
    simp [quote]
  rw [hq]
  refine ⟨rfl, readString_escapeFrom s x false _ ?_⟩
  simp only [List.length_cons, List.length_append]
  omega

theorem numberOf_text (n : NumberText) : numberOf n.text = some n := by
  obtain ⟨u, s, h, hu⟩ := n.first
  have hall := n.units
  rw [h] at hall
  obtain ⟨text, first, units⟩ := n
  subst h
  rw [numberOf, dif_pos ⟨hu, hall⟩]

theorem readNumber_text (n : NumberText) {x : JsString} (hx : Ends x) :
    readNumber (n.text ++ x) = some (.number n, x) := by
  have hunits : ∀ u ∈ n.text, inNumber u = true := fun u hu => by
    simpa [inNumber] using n.units u hu
  have hstop : x.takeWhile inNumber = [] ∧ x.dropWhile inNumber = x := by
    cases x with
    | nil => exact ⟨rfl, rfl⟩
    | cons u x =>
      have hu : ¬inNumber u = true := by
        rcases hx u rfl with rfl | rfl | rfl <;> decide
      exact ⟨List.takeWhile_cons_of_neg hu, List.dropWhile_cons_of_neg hu⟩
  rw [readNumber, List.takeWhile_append_of_pos hunits, List.dropWhile_append_of_pos hunits,
    hstop.1, hstop.2, List.append_nil, numberOf_text]
  rfl

/-- No text of a value begins with a closing bracket. -/
theorem head_ne {v : Json} {x : JsString} {u : UInt16} (hu : kindOf u = 7) :
    (v.text ++ x).head? ≠ some u := by
  intro h
  cases htext : v.text ++ x with
  | nil =>
    rw [htext] at h
    cases h
  | cons w y =>
    rw [htext] at h
    cases h
    exact text_ne hu htext

theorem length_rest (e : UInt16) (x v : JsString) (l : List JsString) :
    (rest e x (v :: l)).length = (commas (v :: l)).length + 2 + x.length := by
  simp only [rest, List.length_cons, List.length_append]
  omega

theorem length_commas (e : UInt16) (v : JsString) (l : List JsString) :
    (commas (v :: l)).length + 1 = v.length + (rest e [] l).length := by
  have h := congrArg List.length (commas_append v l e [])
  simpa only [List.length_append, List.length_cons, List.length_nil] using h

theorem length_rest_pos (e : UInt16) (x : JsString) (l : List JsString) :
    0 < (rest e x l).length := by
  cases l <;> exact Nat.succ_pos _

/-- The first member, and what follows its value. -/
theorem members_append (k : JsString) (v : Json) (l : List (JsString × Json)) (x : JsString) :
    commas ((memberTexts ((k, v) :: l)).map member) ++ 125 :: x =
      quote k ++ (58 :: (v.text ++ rest 125 x ((memberTexts l).map member))) := by
  rw [memberTexts, List.map_cons, commas_append, member, List.append_assoc, List.cons_append]

mutual

/-- By recursion on the value; each part of it is shorter than its text. -/
theorem read_text : ∀ (v : Json) (x : JsString) (fuel : ℕ), Ends x →
    2 * v.text.length < fuel → read fuel (v.text ++ x) = some (v, x)
  | v, x, 0, _, hfuel => absurd hfuel (Nat.not_lt_zero _)
  | v, x, fuel + 1, hx, hfuel => by
    have hhead := kindOf_text v x
    match v with
    | .null => rfl
    | .bool true => rfl
    | .bool false => rfl
    | .number n =>
      simp only [read, hhead, kind]
      exact readNumber_text n hx
    | .string s =>
      simp only [read, hhead, kind]
      rw [show (Json.string s).text = quote s from rfl, (readString_quote s x).2]
      rfl
    | .array [] => rfl
    | .array (v :: l) =>
      have hlength : (Json.array (v :: l)).text.length = (commas (texts (v :: l))).length + 2 := by
        simp [text, Truyn.array]
      have htext : (Json.array (v :: l)).text ++ x = 91 :: (commas (texts (v :: l)) ++ 93 :: x) := by
        simp [text, Truyn.array]
      have hne : (commas (texts (v :: l)) ++ 93 :: x).head? ≠ some 93 := by
        rw [texts, commas_append]
        exact head_ne rfl
      have hitems := read_items v l x fuel (by omega)
      simp only [read, hhead, kind]
      rw [htext, List.tail_cons, if_neg hne, hitems]
      rfl
    | .object [] => rfl
    | .object ((k, v) :: l) =>
      have hlength : (Json.object ((k, v) :: l)).text.length =
          (commas ((memberTexts ((k, v) :: l)).map member)).length + 2 := by
        simp [text, Truyn.object]
      have htext : (Json.object ((k, v) :: l)).text ++ x =
          123 :: (commas ((memberTexts ((k, v) :: l)).map member) ++ 125 :: x) := by
        simp [text, Truyn.object]
      have hne : (commas ((memberTexts ((k, v) :: l)).map member) ++ 125 :: x).head? ≠
          some 125 := by
        rw [memberTexts, List.map_cons, commas_append, member, List.append_assoc,
          (readString_quote _ _).1]
        decide
      have hmembers := read_members k v l x fuel (by omega)
      simp only [read, hhead, kind]
      rw [htext, List.tail_cons, if_neg hne, hmembers]
      rfl

theorem read_items : ∀ (v : Json) (l : List Json) (x : JsString) (fuel : ℕ),
    2 * (commas (texts (v :: l))).length + 1 < fuel →
      readItems fuel (commas (texts (v :: l)) ++ 93 :: x) = some (v :: l, x)
  | _, _, _, 0, hfuel => absurd hfuel (Nat.not_lt_zero _)
  | v, l, x, fuel + 1, hfuel => by
    have hlength := length_commas 93 v.text (texts l)
    have hpos := length_rest_pos 93 [] (texts l)
    have hfirst := read_text v (rest 93 x (texts l)) fuel (ends_rest (.inl rfl) _ _) (by
      rw [texts] at hfuel
      omega)
    rw [texts, commas_append, readItems, hfirst, Option.bind_some]
    match l with
    | [] => rfl
    | w :: l =>
      have hrest := length_rest 93 [] w.text (texts l)
      have htail := read_items w l x fuel (by
        simp only [texts, List.length_nil] at hlength hfuel hrest ⊢
        omega)
      show (readItems fuel (commas (texts (w :: l)) ++ 93 :: x)).map _ = _
      rw [htail]
      rfl

theorem read_members : ∀ (k : JsString) (v : Json) (l : List (JsString × Json)) (x : JsString)
    (fuel : ℕ), 2 * (commas ((memberTexts ((k, v) :: l)).map member)).length + 1 < fuel →
      readMembers fuel (commas ((memberTexts ((k, v) :: l)).map member) ++ 125 :: x) =
        some ((k, v) :: l, x)
  | _, _, _, _, 0, hfuel => absurd hfuel (Nat.not_lt_zero _)
  | k, v, l, x, fuel + 1, hfuel => by
    have htext := members_append k v l x
    have hlength := congrArg List.length (members_append k v l [])
    simp only [List.length_append, List.length_cons, List.length_nil] at hlength
    have hpos := length_rest_pos 125 [] ((memberTexts l).map member)
    have hvalue := read_text v (rest 125 x ((memberTexts l).map member)) fuel
      (ends_rest (.inr rfl) _ _) (by omega)
    obtain ⟨hquote, hkey⟩ := readString_quote k
      (58 :: (v.text ++ rest 125 x ((memberTexts l).map member)))
    rw [htext, readMembers, if_neg (by simp [hquote]), hkey, Option.bind_some,
      if_neg (by simp), List.tail_cons, hvalue, Option.bind_some]
    match l with
    | [] => rfl
    | (j, w) :: l =>
      have hrest := length_rest 125 [] (member (j, w.text)) ((memberTexts l).map member)
      have htail := read_members j w l x fuel (by
        simp only [memberTexts, List.map_cons, List.length_nil] at hlength hfuel hrest ⊢
        omega)
      show (readMembers fuel (commas ((memberTexts ((j, w) :: l)).map member) ++ 125 :: x)).map _ = _
      rw [htail]
      rfl

end

/-- ROUND TRIP: a value is read back from its text. -/
theorem parse_text (v : Json) : parse v.text = some v := by
  have hread := read_text v [] (2 * v.text.length + 1) (by simp [Ends]) (Nat.lt_succ_self _)
  rw [List.append_nil] at hread
  rw [parse, hread, Option.bind_some, if_pos rfl]

end Truyn.Json
