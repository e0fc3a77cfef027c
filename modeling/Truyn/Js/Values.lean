import Truyn.Js.Sets
import Truyn.Js.Unique

/-! js:values | JSON values, the texts that they have, and their canonical texts

    `Json.text` is `JSON.stringify`, and two values of one text are one value (`text_injective`).
    `canonicalize` refuses strings that are not well-formed and sorts the members of objects; an object
    lists its integer keys first all the same. -/

namespace Truyn

/-- The text of a finite number. -/
structure NumberText where
  text : JsString
  first : ∃ u s, text = u :: s ∧ (u = 45 ∨ 48 ≤ u ∧ u ≤ 57)
  units : ∀ u ∈ text, u ≠ 44 ∧ u ≠ 93 ∧ u ≠ 125
  deriving DecidableEq

/-- A natural number. -/
def NumberText.ofNat (n : ℕ) : NumberText where
  text := numeral n
  first := by
    obtain ⟨u, s, h⟩ := List.exists_cons_of_ne_nil (numeral_ne_nil n)
    exact ⟨u, s, h, .inr (numeral_digits n u (by simp [h]))⟩
  units u hu := by
    obtain ⟨hlo, hhi⟩ := numeral_digits n u hu
    refine ⟨?_, ?_, ?_⟩ <;> rintro rfl <;> simp_all

/-- Whether every surrogate has its other half. -/
def checkUnicode : JsString → Bool
  | [] => true
  | [u] => !isHigh u && !isLow u
  | u :: v :: s =>
    if isHigh u then isLow v && checkUnicode s else !isLow u && checkUnicode (v :: s)

/-- A JSON value; a number is known by its text. -/
inductive Json
  | null
  | bool (b : Bool)
  | number (n : NumberText)
  | string (s : JsString)
  | array (l : List Json)
  | object (members : List (JsString × Json))

namespace Json

/-- `Boolean(value)`; no number that is written otherwise than `0` is zero. -/
def truthy : Json → Bool
  | .null => false
  | .bool b => b
  | .number n => n.text ≠ js "0"
  | .string s => s ≠ []
  | .array _ | .object _ => true

def get (key : JsString) : Json → Option Json
  | .object m => (m.find? fun p => p.1 = key).map Prod.snd
  | _ => none

end Json

/-! ### Values of any type -/

/-- `!value`; `none` is `undefined`. -/
def falsy (v : Option Json) : Bool := !v.any Json.truthy

/-- The value, where it is a string. -/
def asText : Option Json → Option JsString
  | some (.string s) => some s
  | _ => none

theorem asText_eq {v : Option Json} {s : JsString} : asText v = some s ↔ v = some (.string s) := by
  match v with
  | some (.string t) => simp [asText]
  | none | some .null | some (.bool _) | some (.number _) | some (.array _) | some (.object _) =>
    simp [asText]

/-- `value === s`. -/
def isString (v : Option Json) (s : JsString) : Bool := asText v = some s

theorem of_isString {v : Option Json} {s : JsString} (h : isString v s = true) :
    v = some (.string s) := asText_eq.mp (of_decide_eq_true h)

mutual

/-- `String(value)`. `none` is a `TypeError`: a member `toString` hides the method. -/
def stringOf : Json → Option JsString
  | .null => some (js "null")
  | .bool b => some (js (if b then "true" else "false"))
  | .number n => some n.text
  | .string s => some s
  | .array l => (partsOf l).map fun parts => (js ",").intercalate parts
  | .object m => if m.any fun p => p.1 = js "toString" then none else some (js "[object Object]")

/-- The parts of `l.join()`: nothing for `null`. -/
def partsOf : List Json → Option (List JsString)
  | [] => some []
  | .null :: l => (partsOf l).map ([] :: ·)
  | v :: l => do
    let part ← stringOf v
    let parts ← partsOf l
    some (part :: parts)

end

namespace Json

mutual

/-- `JSON.stringify(value)`. -/
def text : Json → JsString
  | .null => js "null"
  | .bool b => js (if b then "true" else "false")
  | .number n => n.text
  | .string s => quote s
  | .array l => Truyn.array (texts l)
  | .object m => Truyn.object (memberTexts m)

def texts : List Json → List JsString
  | [] => []
  | v :: l => v.text :: texts l

def memberTexts : List (JsString × Json) → List (JsString × JsString)
  | [] => []
  | (k, v) :: l => (k, v.text) :: memberTexts l

end

/-! ### Canonical texts -/

mutual

/-- Whether the strings and keys of a value are well-formed. -/
def wellFormed : Json → Bool
  | .null | .bool _ | .number _ => true
  | .string s => checkUnicode s
  | .array l => allWellFormed l
  | .object m => membersWellFormed m

def allWellFormed : List Json → Bool
  | [] => true
  | v :: l => v.wellFormed && allWellFormed l

def membersWellFormed : List (JsString × Json) → Bool
  | [] => true
  | (k, v) :: l => checkUnicode k && v.wellFormed && membersWellFormed l

end

/-- An integer key of an object. -/
def isIndex (k : JsString) : Bool := k = numeral (numeralValue k) ∧ numeralValue k < 2 ^ 32 - 1

/-- The members that `Object.fromEntries` makes of these, sorted by their keys. -/
def fromSorted (m : List (JsString × Json)) : List (JsString × Json) :=
  let sorted := m.insertionSort fun p q => unitsLe p.1 q.1 = true
  (sorted.filter fun p => isIndex p.1).insertionSort
      (fun p q => numeralValue p.1 ≤ numeralValue q.1) ++
    sorted.filter fun p => !isIndex p.1

mutual

def normalize : Json → Json
  | .array l => .array (normalizeAll l)
  | .object m => .object (fromSorted (normalizeMembers m))
  | .null => .null
  | .bool b => .bool b
  | .number n => .number n
  | .string s => .string s

def normalizeAll : List Json → List Json
  | [] => []
  | v :: l => v.normalize :: normalizeAll l

def normalizeMembers : List (JsString × Json) → List (JsString × Json)
  | [] => []
  | (k, v) :: l => (k, v.normalize) :: normalizeMembers l

end

def canonicalize (v : Json) : Except JsString JsString :=
  if v.wellFormed then .ok v.normalize.text else .error (js "TCJ1 unpaired surrogate")

/-! ### One text, one value -/

/-- The first code unit of a text tells what kind of value it is of. -/
def kindOf (u : UInt16) : ℕ :=
  if u = 110 then 0
  else if u = 116 then 1
  else if u = 102 then 2
  else if u = 34 then 3
  else if u = 91 then 4
  else if u = 123 then 5
  else if u = 45 ∨ 48 ≤ u ∧ u ≤ 57 then 6
  else 7

def kind : Json → ℕ
  | .null => 0
  | .bool b => if b then 1 else 2
  | .string _ => 3
  | .array _ => 4
  | .object _ => 5
  | .number _ => 6

theorem kindOf_text (v : Json) (x : JsString) : ((v.text ++ x).head?.map kindOf) = some v.kind := by
  cases v with
  | null | string | array | object => rfl
  | bool b => cases b <;> rfl
  | number n =>
    obtain ⟨u, s, h, hu⟩ := n.first
    have hne : ∀ c : UInt16, c ∈ [110, 116, 102, 34, 91, 123] → u ≠ c := by
      rintro c hc rfl
      rcases hu with rfl | hu
      · revert hc
        decide
      · fin_cases hc <;> simp_all
    simp only [text, h, List.cons_append, List.head?_cons, Option.map_some, Option.some.injEq, kind]
    simp [kindOf, hne, hu]

/-- The end of a text, or what stands behind a value in another one. -/
def Ends (x : JsString) : Prop := ∀ u ∈ x.head?, u = 44 ∨ u = 93 ∨ u = 125

theorem number_cancel {n m : NumberText} {x y : JsString} (hx : Ends x) (hy : Ends y)
    (h : n.text ++ x = m.text ++ y) : n = m ∧ x = y := by
  have htake : ∀ (k : NumberText) (z : JsString), Ends z →
      (k.text ++ z).takeWhile (fun u => !(u == 44 || u == 93 || u == 125)) = k.text := by
    intro k z hz
    rw [List.takeWhile_append_of_pos fun u hu => by simpa [and_assoc] using k.units u hu]
    cases z with
    | nil => simp
    | cons u z =>
      have hu := hz u (by simp)
      have hstop : (!(u == 44 || u == 93 || u == 125)) = false := by
        rcases hu with rfl | rfl | rfl <;> rfl
      rw [List.takeWhile_cons_of_neg (by simp [hstop]), List.append_nil]
  have htext : n.text = m.text := by
    rw [← htake n x hx, h, htake m y hy]
  refine ⟨?_, ?_⟩
  · cases n
    cases m
    simp_all
  · rw [htext] at h
    exact List.append_cancel_left h

/-- No value begins with a closing bracket. -/
theorem text_ne {v : Json} {x y : JsString} {u : UInt16} (hu : kindOf u = 7) :
    v.text ++ x ≠ u :: y := by
  intro h
  have hkind := kindOf_text v x
  rw [h, List.head?_cons, Option.map_some, hu] at hkind
  cases v with
  | bool b => cases b <;> simp [kind] at hkind
  | null | number | string | array | object => simp [kind] at hkind

/-- What stands behind the first text of a list, up to the bracket `e` that closes it. -/
def rest (e : UInt16) (x : JsString) : List JsString → JsString
  | [] => e :: x
  | v :: l => 44 :: (commas (v :: l) ++ e :: x)

theorem commas_append (v : JsString) (l : List JsString) (e : UInt16) (x : JsString) :
    commas (v :: l) ++ e :: x = v ++ rest e x l := by
  cases l with
  | nil => rfl
  | cons w l => simp [commas, rest]

theorem ends_rest {e : UInt16} (he : e = 93 ∨ e = 125) (x : JsString) (l : List JsString) :
    Ends (rest e x l) := by
  cases l with
  | nil =>
    intro u hu
    obtain rfl : e = u := by simpa [rest] using hu
    exact .inr he
  | cons v l =>
    intro u hu
    obtain rfl : 44 = u := by simpa [rest] using hu
    exact .inl rfl

mutual

/-- By recursion on the value: its first code unit gives its kind, and its parts end where they end. -/
theorem text_cancel : ∀ (v w : Json) (x y : JsString), Ends x → Ends y →
    v.text ++ x = w.text ++ y → v = w ∧ x = y
  | v, w, x, y, hx, hy, h => by
    have hkind : v.kind = w.kind := by
      have hv := kindOf_text v x
      rw [h, kindOf_text w y] at hv
      exact (Option.some.inj hv).symm
    match v with
    | .null =>
      cases w with
      | null => exact ⟨rfl, List.append_cancel_left h⟩
      | bool c => cases c <;> simp [kind] at hkind
      | number | string | array | object => simp [kind] at hkind
    | .bool b =>
      cases w with
      | bool c =>
        obtain rfl : b = c := by cases b <;> cases c <;> simp_all [kind]
        exact ⟨rfl, List.append_cancel_left h⟩
      | null | number | string | array | object => cases b <;> simp [kind] at hkind
    | .number n =>
      cases w with
      | number m =>
        obtain ⟨rfl, hxy⟩ := number_cancel hx hy h
        exact ⟨rfl, hxy⟩
      | bool c => cases c <;> simp [kind] at hkind
      | null | string | array | object => simp [kind] at hkind
    | .string s =>
      cases w with
      | string t =>
        obtain ⟨rfl, hxy⟩ := quote_cancel s t x y h
        exact ⟨rfl, hxy⟩
      | bool c => cases c <;> simp [kind] at hkind
      | null | number | array | object => simp [kind] at hkind
    | .array l =>
      cases w with
      | array m =>
        simp only [text, Truyn.array, List.cons_append, List.append_assoc, List.nil_append,
          List.cons.injEq, true_and] at h
        obtain ⟨rfl, hxy⟩ := texts_cancel l m x y h
        exact ⟨rfl, hxy⟩
      | bool c => cases c <;> simp [kind] at hkind
      | null | number | string | object => simp [kind] at hkind
    | .object l =>
      cases w with
      | object m =>
        simp only [text, Truyn.object, List.cons_append, List.append_assoc, List.nil_append,
          List.cons.injEq, true_and] at h
        obtain ⟨rfl, hxy⟩ := members_cancel l m x y h
        exact ⟨rfl, hxy⟩
      | bool c => cases c <;> simp [kind] at hkind
      | null | number | string | array => simp [kind] at hkind

theorem texts_cancel : ∀ (l m : List Json) (x y : JsString),
    commas (texts l) ++ 93 :: x = commas (texts m) ++ 93 :: y → l = m ∧ x = y
  | [], [], x, y, h => ⟨rfl, (List.cons.inj h).2⟩
  | [], w :: m, x, y, h => by
    rw [texts, texts, commas_append] at h
    exact absurd h.symm (text_ne rfl)
  | v :: l, [], x, y, h => by
    rw [texts, texts, commas_append] at h
    exact absurd h (text_ne rfl)
  | v :: l, w :: m, x, y, h => by
    rw [texts, texts, commas_append, commas_append] at h
    obtain ⟨rfl, htail⟩ := text_cancel v w _ _ (ends_rest (.inl rfl) _ _) (ends_rest (.inl rfl) _ _) h
    match l, m with
    | [], [] => exact ⟨rfl, (List.cons.inj htail).2⟩
    | [], _ :: _ => simp [texts, rest] at htail
    | _ :: _, [] => simp [texts, rest] at htail
    | v' :: l, w' :: m =>
      obtain ⟨hl, hxy⟩ := texts_cancel (v' :: l) (w' :: m) x y (List.cons.inj htail).2
      exact ⟨by rw [hl], hxy⟩

theorem members_cancel : ∀ (l m : List (JsString × Json)) (x y : JsString),
    commas ((memberTexts l).map member) ++ 125 :: x =
      commas ((memberTexts m).map member) ++ 125 :: y → l = m ∧ x = y
  | [], [], x, y, h => ⟨rfl, (List.cons.inj h).2⟩
  | [], (j, w) :: m, x, y, h => by
    rw [memberTexts, memberTexts, List.map_cons, commas_append] at h
    simp [member, quote, commas] at h
  | (k, v) :: l, [], x, y, h => by
    rw [memberTexts, memberTexts, List.map_cons, commas_append] at h
    simp [member, quote, commas] at h
  | (k, v) :: l, (j, w) :: m, x, y, h => by
    rw [memberTexts, memberTexts, List.map_cons, List.map_cons, commas_append, commas_append,
      member, member, List.append_assoc, List.append_assoc] at h
    obtain ⟨rfl, hvalue⟩ := quote_cancel k j _ _ h
    obtain ⟨rfl, htail⟩ := text_cancel v w _ _ (ends_rest (.inr rfl) _ _)
      (ends_rest (.inr rfl) _ _) (List.cons.inj hvalue).2
    match l, m with
    | [], [] => exact ⟨rfl, (List.cons.inj htail).2⟩
    | [], _ :: _ => simp [memberTexts, rest] at htail
    | _ :: _, [] => simp [memberTexts, rest] at htail
    | (k', v') :: l, (j', w') :: m =>
      obtain ⟨hl, hxy⟩ := members_cancel ((k', v') :: l) ((j', w') :: m) x y (List.cons.inj htail).2
      exact ⟨by rw [hl], hxy⟩

end

theorem text_injective : Function.Injective text := fun v w h =>
  (text_cancel v w [] [] (by simp [Ends]) (by simp [Ends]) (by rw [h])).1

theorem fromSorted_perm (m : List (JsString × Json)) : (fromSorted m).Perm m := by
  have hsplit := List.filter_append_perm (fun p : JsString × Json => isIndex p.1)
    (m.insertionSort fun p q => unitsLe p.1 q.1 = true)
  exact (((List.perm_insertionSort _ _).append_right _).trans hsplit).trans
    (List.perm_insertionSort _ m)

end Json
end Truyn
