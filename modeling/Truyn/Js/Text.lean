import Mathlib

/-! js:text | strings as the sequences of UTF-16 code units that JavaScript sees

    Length, comparison and slicing of a JavaScript string count code units, so identifiers are kept
    as code units; `js` spells the ones the program writes itself. -/

namespace Truyn

/-- A string value: its UTF-16 code units. -/
abbrev JsString := List UInt16

instance : LawfulBEq JsString := inferInstanceAs (LawfulBEq (List UInt16))

/-- The code units of a character: one, or a surrogate pair. -/
def utf16 (c : Char) : JsString :=
  if c.toNat < 0x10000 then [UInt16.ofNat c.toNat]
  else [UInt16.ofNat (0xD800 + (c.toNat - 0x10000) / 0x400),
    UInt16.ofNat (0xDC00 + (c.toNat - 0x10000) % 0x400)]

/-- The value of a string literal. -/
def js (s : String) : JsString := s.toList.flatMap utf16

/-- A literal is the list of its characters, so its code units need no decoding. -/
theorem js_ofList (l : List Char) : js (String.ofList l) = l.flatMap utf16 := by
  rw [js, String.toList_ofList]

/-- A number printed by a template literal; `none` is `undefined`. -/
def decimal : Option ℤ → JsString
  | some z => js (toString z)
  | none => js "undefined"

/-- White space and line terminators. -/
def isSpace (c : UInt16) : Bool :=
  c ∈ [9, 10, 11, 12, 13, 32, 0xA0, 0x1680, 0x2028, 0x2029, 0x202F, 0x205F, 0x3000, 0xFEFF] ∨
    (0x2000 ≤ c ∧ c ≤ 0x200A)

/-- Without the units at both ends that satisfy `p`. -/
def trimWhere (p : UInt16 → Bool) (s : JsString) : JsString :=
  ((s.dropWhile p).reverse.dropWhile p).reverse

/-- `s.trim()`. -/
def trim (s : JsString) : JsString := trimWhere isSpace s

/-- `!s.trim()`. -/
def blank (s : JsString) : Bool := s.all isSpace

end Truyn
