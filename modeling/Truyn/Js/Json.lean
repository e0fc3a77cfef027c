import Truyn.Js.Numerals

/-! js:json | the texts that JSON.stringify writes, and their size in UTF-8

    A string is quoted and escaped, an array and an object put punctuation around the texts of
    their members. `byteLength` is the size of a text in UTF-8; punctuation is never half of a
    surrogate pair, so the size of a document is the sum of the sizes of its parts
    (`byteLength_array`, `byteLength_object`). -/

namespace Truyn

/-- The first half of a surrogate pair. -/
def isHigh (u : UInt16) : Bool := 0xD800 ≤ u ∧ u ≤ 0xDBFF

/-- The second half of a surrogate pair. -/
def isLow (u : UInt16) : Bool := 0xDC00 ≤ u ∧ u ≤ 0xDFFF

/-- The code unit at the front of `s` is half of a surrogate pair whose other half is its neighbour;
    `afterHigh` tells whether a first half stands before it. -/
def paired (afterHigh : Bool) (u : UInt16) (s : JsString) : Bool :=
  (isHigh u && s.head?.any isLow) || (isLow u && afterHigh)

/-! ### Buffer.byteLength -/

/-- The bytes of one code unit; a surrogate pair has four, two for each half. -/
def unitBytes (pair : Bool) (u : UInt16) : ℕ :=
  if u < 0x80 then 1 else if u < 0x800 ∨ pair then 2 else 3

def bytesFrom : Bool → JsString → ℕ
  | _, [] => 0
  | afterHigh, u :: s => unitBytes (paired afterHigh u s) u + bytesFrom (isHigh u) s

/-- `Buffer.byteLength(s)`: a lone surrogate is replaced by U+FFFD, which has three bytes. -/
def byteLength (s : JsString) : ℕ := bytesFrom false s

/-! ### JSON.stringify -/

/-- A lower-case hexadecimal digit. -/
def hexDigit (n : ℕ) : UInt16 := UInt16.ofNat (if n < 10 then 48 + n else 87 + n)

/-- A number in 64 hexadecimal digits, as a digest is printed. -/
def hexText (n : ℕ) : JsString := (List.range 64).map fun i => hexDigit (n / 16 ^ (63 - i) % 16)

/-- `\uxxxx`. -/
def unicodeEscape (u : UInt16) : JsString :=
  [92, 117, hexDigit (u.toNat / 4096 % 16), hexDigit (u.toNat / 256 % 16),
    hexDigit (u.toNat / 16 % 16), hexDigit (u.toNat % 16)]

/-- One code unit inside quotation marks. -/
def escapeUnit (pair : Bool) (u : UInt16) : JsString :=
  if u = 8 then [92, 98]
  else if u = 9 then [92, 116]
  else if u = 10 then [92, 110]
  else if u = 12 then [92, 102]
  else if u = 13 then [92, 114]
  else if u = 34 then [92, 34]
  else if u = 92 then [92, 92]
  else if u < 32 ∨ ((isHigh u ∨ isLow u) ∧ !pair) then unicodeEscape u
  else [u]

def escapeFrom : Bool → JsString → JsString
  | _, [] => []
  | afterHigh, u :: s => escapeUnit (paired afterHigh u s) u ++ escapeFrom (isHigh u) s

/-- `JSON.stringify` of a string. -/
def quote (s : JsString) : JsString := 34 :: (escapeFrom false s ++ [34])

/-- Texts separated by commas. -/
def commas : List JsString → JsString
  | [] => []
  | [v] => v
  | v :: w :: l => v ++ 44 :: commas (w :: l)

/-- `JSON.stringify` of an array whose items have these texts. -/
def array (l : List JsString) : JsString := 91 :: (commas l ++ [93])

/-- A member of an object. -/
def member (m : JsString × JsString) : JsString := quote m.1 ++ 58 :: m.2

/-- `JSON.stringify` of an object whose members have these keys and texts. -/
def object (l : List (JsString × JsString)) : JsString := 123 :: (commas (l.map member) ++ [125])

/-! ### Sizes -/

/-- An ASCII code unit is no surrogate. -/
theorem not_surrogate_of_ascii {u : UInt16} (h : u < 0x80) : isHigh u = false ∧ isLow u = false := by
  rw [UInt16.lt_iff_toNat_lt] at h
  have h' : u.toNat < 128 := h
  simp only [isHigh, isLow, decide_eq_false_iff_not, UInt16.le_iff_toNat_le]
  constructor
  · rintro ⟨h1, -⟩
    have : 55296 ≤ u.toNat := h1
    omega
  · rintro ⟨h1, -⟩
    have : 56320 ≤ u.toNat := h1
    omega

/-- An ASCII code unit takes one byte and pairs with nothing after it. -/
theorem bytesFrom_ascii {u : UInt16} (h : u < 0x80) (b : Bool) (s : JsString) :
    bytesFrom b (u :: s) = 1 + byteLength s := by
  rw [bytesFrom, unitBytes, if_pos h, (not_surrogate_of_ascii h).1, byteLength]

/-- The size of a text up to an ASCII code unit does not depend on what follows. -/
theorem bytesFrom_append_ascii {u : UInt16} (h : u < 0x80) (s t : JsString) :
    ∀ b, bytesFrom b (s ++ u :: t) = bytesFrom b s + (1 + byteLength t) := by
  induction s with
  | nil =>
    intro b
    rw [List.nil_append, bytesFrom_ascii h, bytesFrom, Nat.zero_add]
  | cons v s ih =>
    intro b
    have hp : paired b v (s ++ u :: t) = paired b v s := by
      cases s with
      | nil => simp [paired, (not_surrogate_of_ascii h).2]
      | cons w s => rfl
    rw [List.cons_append, bytesFrom, bytesFrom, ih, hp, Nat.add_assoc]

theorem byteLength_cons_ascii {u : UInt16} (h : u < 0x80) (s : JsString) :
    byteLength (u :: s) = 1 + byteLength s := bytesFrom_ascii h false s

theorem byteLength_append_ascii {u : UInt16} (h : u < 0x80) (s t : JsString) :
    byteLength (s ++ u :: t) = byteLength s + (1 + byteLength t) :=
  bytesFrom_append_ascii h s t false

/-- A text of ASCII code units has one byte for each. -/
theorem byteLength_ascii {s : JsString} (h : ∀ u ∈ s, u < 0x80) : byteLength s = s.length := by
  induction s with
  | nil => rfl
  | cons u s ih =>
    rw [byteLength_cons_ascii (h u List.mem_cons_self), List.length_cons,
      ih fun v hv => h v (List.mem_cons_of_mem _ hv), Nat.add_comm]

/-- Commas and one closing mark: each text with one byte after it. -/
theorem byteLength_commas {u : UInt16} (h : u < 0x80) {l : List JsString} (hl : l ≠ []) :
    byteLength (commas l ++ [u]) = (l.map fun v => byteLength v + 1).sum := by
  induction l with
  | nil => exact absurd rfl hl
  | cons v l ih =>
    cases l with
    | nil =>
      rw [commas, byteLength_append_ascii h]
      rfl
    | cons w l =>
      have hi := ih (List.cons_ne_nil w l)
      rw [commas, List.append_assoc, List.cons_append, byteLength_append_ascii (by decide), hi]
      simp only [List.map_cons, List.sum_cons]
      omega

theorem byteLength_array {l : List JsString} (hl : l ≠ []) :
    byteLength (array l) = 1 + (l.map fun v => byteLength v + 1).sum := by
  rw [array, byteLength_cons_ascii (by decide), byteLength_commas (by decide) hl]

theorem byteLength_member (m : JsString × JsString) :
    byteLength (member m) = byteLength (quote m.1) + (1 + byteLength m.2) := by
  rw [member, byteLength_append_ascii (by decide)]

theorem byteLength_object {l : List (JsString × JsString)} (hl : l ≠ []) :
    byteLength (object l) =
      1 + (l.map fun m => byteLength (quote m.1) + byteLength m.2 + 2).sum := by
  have hne : l.map member ≠ [] := by simpa using hl
  rw [object, byteLength_cons_ascii (by decide), byteLength_commas (by decide) hne, List.map_map]
  congr 2
  refine List.map_congr_left fun m _ => ?_
  rw [Function.comp_apply, byteLength_member]
  omega

/-- Another text for one member of an object. -/
theorem byteLength_replace (l r : List (JsString × JsString)) (k v w : JsString) :
    byteLength (object (l ++ (k, w) :: r)) + byteLength v =
      byteLength (object (l ++ (k, v) :: r)) + byteLength w := by
  have hne : ∀ x, l ++ (k, x) :: r ≠ [] := by simp
  rw [byteLength_object (hne w), byteLength_object (hne v)]
  simp only [List.map_append, List.map_cons, List.sum_append, List.sum_cons]
  omega

/-- A string without control characters, quotation marks and backslashes needs no escapes. -/
theorem escapeFrom_plain {s : JsString} (h : ∀ u ∈ s, 43 ≤ u ∧ u ≤ 90) (b : Bool) :
    escapeFrom b s = s := by
  induction s generalizing b with
  | nil => rfl
  | cons u s ih =>
    obtain ⟨h43, h90⟩ := h u List.mem_cons_self
    rw [UInt16.le_iff_toNat_le] at h43 h90
    have hlo : 43 ≤ u.toNat := h43
    have hhi : u.toNat ≤ 90 := h90
    have hne : ∀ v : UInt16, v.toNat < 43 ∨ 90 < v.toNat → u ≠ v := by
      rintro v hv rfl
      omega
    have h32 : ¬u < 32 := by
      rw [UInt16.lt_iff_toNat_lt]
      show ¬u.toNat < 32
      omega
    have hascii : u < 0x80 := by
      rw [UInt16.lt_iff_toNat_lt]
      show u.toNat < 128
      omega
    have hu : escapeUnit (paired b u s) u = [u] := by
      simp [escapeUnit, h32, not_surrogate_of_ascii hascii, hne 8 (by decide), hne 9 (by decide),
        hne 10 (by decide), hne 12 (by decide), hne 13 (by decide), hne 34 (by decide),
        hne 92 (by decide)]
    rw [escapeFrom, hu, ih fun v hv => h v (List.mem_cons_of_mem _ hv)]
    rfl

theorem byteLength_quote_plain {s : JsString} (h : ∀ u ∈ s, 43 ≤ u ∧ u ≤ 90) :
    byteLength (quote s) = s.length + 2 := by
  have hascii : ∀ u ∈ s, u < 0x80 := fun u hu => UInt16.lt_of_le_of_lt (h u hu).2 (by decide)
  have hend : byteLength [] = 0 := rfl
  rw [quote, escapeFrom_plain h, byteLength_cons_ascii (by decide),
    byteLength_append_ascii (by decide), byteLength_ascii hascii, hend]
  omega

end Truyn
