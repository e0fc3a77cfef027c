import Truyn.Dht.RoutingTable

/-! dht:values | what the checks of signed records do: text, `>`, ids, signatures

    A record is a JSON value that its signer made, so a field may have any type. `Language` is how
    the language writes and reads numbers and dates; `text` is `String(value)`, and `greater` is `>`
    with its conversions. `Platform` adds canonical JSON, SHA-256 and Ed25519 keys. -/

namespace Truyn.Dht
open Trust (Value truthy strictEq)

/-- A number of the language. -/
inductive Numeric
  | nan
  | minusInfinity
  | finite (x : ℚ)
  | infinity

/-- `x > y`. -/
def Numeric.greater : Numeric → Numeric → Bool
  | .finite x, .finite y => y < x
  | .infinity, .finite _ => true
  | .infinity, .minusInfinity => true
  | .finite _, .minusInfinity => true
  | _, _ => false

/-- How a number is written, how a string is read as a number, and `Date.parse` of a string. -/
structure Language where
  numberText : ℚ → JsString
  stringNumber : JsString → Numeric
  parseDate : JsString → Option ℤ

/-- `value !== null && typeof value === 'object'`. -/
def isObject : Value → Bool
  | .array _ => true
  | .object _ => true
  | _ => false

variable (L : Language)

mutual
/-- `String(value)`. `none` is a `TypeError`: a member `toString` is no function, and hides the one
    that every object has. -/
def text : Value → Option JsString
  | .null => some (js "null")
  | .bool b => some (js (if b then "true" else "false"))
  | .number x => some (L.numberText x)
  | .string s => some s
  | .array l => (joined l).map fun parts => (js ",").intercalate parts
  | .object members =>
    if ((Value.object members).get "toString").isSome then none else some (js "[object Object]")

/-- The parts of `l.join()`: nothing for `null`. -/
def joined : List Value → Option (List JsString)
  | [] => some []
  | .null :: l => (joined l).map ([] :: ·)
  | v :: l => do
    let part ← text v
    let parts ← joined l
    some (part :: parts)
end

/-- An operand of `>`, as a string or as a number. `none` is a `TypeError`. -/
def operand : Option Value → Option (JsString ⊕ Numeric)
  | none => some (.inr .nan)
  | some .null => some (.inr (.finite 0))
  | some (.bool b) => some (.inr (.finite (if b then 1 else 0)))
  | some (.number x) => some (.inr (.finite x))
  | some (.string s) => some (.inl s)
  | some v => (text L v).map .inl

def asNumber : JsString ⊕ Numeric → Numeric
  | .inl s => L.stringNumber s
  | .inr x => x

/-- `a > b`. `none` is a `TypeError`. -/
def greater (a b : Option Value) : Option Bool := do
  let x ← operand L a
  let y ← operand L b
  match x, y with
  | .inl s, .inl t => some (!unitsLe s t)
  | x, y => some ((asNumber L x).greater (asNumber L y))

/-- `x <= y`: not `x > y`, where both are numbers. -/
def Numeric.atMost : Numeric → Numeric → Bool
  | .nan, _ => false
  | _, .nan => false
  | x, y => !x.greater y

/-- `a <= b`. `none` is a `TypeError`. -/
def atMost (a b : Option Value) : Option Bool := do
  let x ← operand L a
  let y ← operand L b
  match x, y with
  | .inl s, .inl t => some (unitsLe s t)
  | x, y => some ((asNumber L x).atMost (asNumber L y))

variable {L}

@[simp] theorem greater_number (x y : ℚ) :
    greater L (some (.number x)) (some (.number y)) = some (decide (y < x)) := rfl

@[simp] theorem atMost_number (x y : ℚ) :
    atMost L (some (.number x)) (some (.number y)) = some (decide (x ≤ y)) := by
  have hnot : (!decide (y < x)) = decide (x ≤ y) := by
    rw [← decide_not, decide_eq_decide, not_lt]
  simpa [atMost, operand, asNumber, Numeric.atMost, Numeric.greater] using hnot

/-- What compares with itself compares with all that do. -/
theorem atMost_isSome {a b : Option Value} (ha : (atMost L a a).isSome) (hb : (atMost L b b).isSome) :
    (atMost L a b).isSome := by
  unfold atMost at *
  cases hx : operand L a with
  | none => simp [hx] at ha
  | some x =>
    cases hy : operand L b with
    | none => simp [hy] at hb
    | some y => cases x <;> cases y <;> simp

/-- Values that are `===` are equal. -/
theorem eq_of_strictEq {a b : Option Value} (h : strictEq a b = true) : a = b := by
  unfold strictEq at h
  split at h <;> simp_all

/-! ### Signed records -/

/-- What the host gives; keys and signatures may be values of any type, and the functions throw. -/
structure Platform extends Host, Language where
  canonicalize : Value → Except String JsString
  sha256 : JsString → JsString
  nodeIdFromPublicKey : Value → Except String JsString
  verifyValue : Value → Value → Value → Except String Bool

variable (P : Platform)

/-- The hexadecimal digest of a string. -/
def dhtId (s : JsString) : JsString := P.sha256 s

/-- The digest of the canonical text of a value; there is none for `undefined`. -/
def hash : Option Value → Except String JsString
  | none => .error "TCJ1 requires JSON value"
  | some v => do
    let canonical ← P.canonicalize v
    return P.sha256 canonical

/-- `const { a, b, …, ...rest } = value`. -/
def without (keys : List String) : Value → Value
  | .object members => .object (members.filter fun m => m.1 ∉ keys.map js)
  | v => v

/-- `String(value)`, with the error that it throws. -/
def string : Option Value → Except String JsString
  | none => .ok (js "undefined")
  | some v => match text P.toLanguage v with
    | some s => .ok s
    | none => .error "Cannot convert object to primitive value"

/-- `Date.parse(value)`. `none` is `NaN`. -/
def date (value : Option Value) : Except String (Option ℤ) := do
  let s ← string P value
  return P.parseDate s

/-- The most signatures that are remembered. -/
def signatureLimit : ℕ := 8192

/-- The verified signatures, the oldest first. -/
def remember (verified : List JsString) (signature : JsString) : List JsString :=
  if signatureLimit ≤ verified.length then verified.tail ++ [signature] else verified ++ [signature]

/-- The signature of a record is verified once, as long as it is remembered. -/
def verifySignature (verified : List JsString) (record signed : Value) (reason : String) :
    Except String (List JsString) := do
  let recordId ← string P (record.get "recordId")
  let publicKey ← string P (record.get "publicKey")
  let signature ← string P (record.get "signature")
  let signatureKey := recordId ++ js "\n" ++ publicKey ++ js "\n" ++ signature
  if signatureKey ∈ verified then return verified
  if !(← P.verifyValue signed ((record.get "signature").getD .null)
      ((record.get "publicKey").getD .null)) then throw reason
  return remember verified signatureKey

/-! ### A host -/

/-- Node ids are keys, a digest is the sequence and the expiry, and times are whole numbers. -/
def plain : Platform where
  toHost := firstUnit
  numberText := fun x => decimal (some x.num)
  stringNumber := fun _ => .nan
  parseDate := fun s => some (numeralValue s)
  canonicalize := fun v =>
    match v.get "sequence", v.get "expiresAt" with
    | some (.number x), some (.string s) => .ok (decimal (some x.num) ++ js "/" ++ s)
    | _, _ => .ok []
  sha256 := id
  nodeIdFromPublicKey := fun v =>
    match v with
    | .string s => .ok s
    | _ => .error "Invalid key"
  verifyValue := fun _ _ _ => .ok true

end Truyn.Dht
