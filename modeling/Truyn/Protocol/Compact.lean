import Truyn.Witness.Payload

/-! protocol:compact | compact frames: how they are made, and how they are verified

    A frame has three members: a code `t` of its type, an id `i`, and a signature `s` of the
    canonical text of code, id and payload. The verifier is given values of any type, and reads `t`
    as a name of a property and `s` as whatever `Buffer.from` takes. -/

namespace Truyn.Protocol

inductive CompactType
  | NEED
  | RESULT
  | PARTIAL
  | CHAIN
  | CONTEXT_PUT
  | CONTEXT_DELTA
  deriving DecidableEq

/-- `COMPACT_TYPE_CODES[type]`. -/
def CompactType.code : CompactType → JsString
  | .NEED => js "N"
  | .RESULT => js "R"
  | .PARTIAL => js "T"
  | .CHAIN => js "C"
  | .CONTEXT_PUT => js "P"
  | .CONTEXT_DELTA => js "D"

/-- `COMPACT_TYPES`. -/
def compactTypes : List CompactType :=
  [.NEED, .RESULT, .PARTIAL, .CHAIN, .CONTEXT_PUT, .CONTEXT_DELTA]

/-- `COMPACT_CODE_TYPES[code]`. The members that every object inherits are no types: they are refused
    with the names that are missing. -/
def typeOf (code : JsString) : Option CompactType := compactTypes.find? fun type => type.code = code

/-- What is taken from the host. Keys are PEM texts. `sign` is `cryptoSign` of a text, `none` where it
    throws; `accepts` tells whether `cryptoVerify` takes a key or throws, and `verify` what it then
    answers; `bufferFrom` is `Buffer.from` of what is no string, `none` where it throws. -/
structure Crypto where
  publicKey : JsString → JsString
  sign : JsString → JsString → Option (List UInt8)
  accepts : JsString → Bool
  verify : JsString → JsString → List UInt8 → Bool
  bufferFrom : Json → Option (List UInt8)

variable (P : Crypto)

/-- `compactSigningValue(type, id, payload)`. -/
def compactSigningValue (type : CompactType) (id payload : Json) : Json :=
  .array [.string type.code, id, payload]

/-! ### Making a frame -/

/-- What `createCompactFrame` is called with. -/
structure Call where
  type : CompactType
  payload : Json
  privateKeyPem : JsString
  id : JsString

/-- `{ t: code, i: id, s: signature }`. -/
def members (type : CompactType) (id : Json) (signature : List UInt8) : List (JsString × Json) :=
  [(js "t", .string type.code), (js "i", id), (js "s", .string (base64url signature))]

/-- `!(!id || !payload || !privateKeyPem)`. -/
def Call.complete (call : Call) : Bool :=
  call.id ≠ [] ∧ falsy (some call.payload) = false ∧ call.privateKeyPem ≠ []

def createCompactFrame (call : Call) : Except JsString Json :=
  if !call.complete then
    .error (js "id, payload and privateKeyPem are required for compact frames")
  else do
    let text ← (compactSigningValue call.type (.string call.id) call.payload).canonicalize
    match P.sign call.privateKeyPem text with
    | none => .error (js "Error")
    | some signature => .ok (.object (members call.type (.string call.id) signature))

/-! ### Verifying a frame -/

inductive Verdict
  | accepted (type : CompactType)
  | refused (reason : String)

/-- `!(!frame || !frame.t || !frame.i || !frame.s || !payload || !publicKeyPem)`. -/
def complete (frame payload : Json) (publicKeyPem : JsString) : Bool :=
  !falsy (some frame) && !falsy (frame.get (js "t")) && !falsy (frame.get (js "i")) &&
    !falsy (frame.get (js "s")) && !falsy (some payload) && publicKeyPem ≠ []

/-- `compactType(frame)`: the member is converted to a name of a property, which may throw. -/
def compactType (frame : Json) : Except JsString (Option CompactType) :=
  match (frame.get (js "t")).bind stringOf with
  | none => .error (js "TypeError")
  | some code => .ok (typeOf code)

/-- `Buffer.from(frame.s, 'base64url')`. -/
def signatureBytes (frame : Json) : Option (List UInt8) :=
  match frame.get (js "s") with
  | some (.string s) => some (fromBase64 s)
  | some s => P.bufferFrom s
  | none => none

/-- `frame.i`. -/
def idOf (frame : Json) : Json := (frame.get (js "i")).getD .null

/-- The last step, for a frame of a type that is allowed: both calls may throw. -/
def verifySignature (type : CompactType) (frame payload : Json) (publicKeyPem : JsString)
    (signature : List UInt8) : Except JsString Verdict := do
  let text ← (compactSigningValue type (idOf frame) payload).canonicalize
  if !P.accepts publicKeyPem then .error (js "Error")
  else if P.verify publicKeyPem text signature then .ok (.accepted type)
  else .ok (.refused "invalid_signature")

/-- The checks that follow the lookup of the type. -/
def verifyTyped (found : Option CompactType) (frame payload : Json) (publicKeyPem : JsString)
    (allowedTypes : List CompactType) : Except JsString Verdict :=
  match found with
  | none => .ok (.refused "unsupported_type")
  | some type =>
    if type ∉ allowedTypes then .ok (.refused "unsupported_type")
    else
      match signatureBytes P frame with
      | none => .ok (.refused "invalid_signature_encoding")
      | some signature =>
        if signature.length ≠ 64 then .ok (.refused "invalid_signature_encoding")
        else verifySignature P type frame payload publicKeyPem signature

def verifyCompactFrame (frame payload : Json) (publicKeyPem : JsString)
    (allowedTypes : List CompactType) : Except JsString Verdict :=
  if !complete frame payload publicKeyPem then .ok (.refused "missing_required_field")
  else do
    let found ← compactType frame
    verifyTyped P found frame payload publicKeyPem allowedTypes

/-! ### What the verifier does -/

variable {P} {frame payload id : Json} {publicKeyPem code text : JsString}
  {type : CompactType} {allowedTypes : List CompactType} {signature : List UInt8}

theorem typeOf_code (type : CompactType) : typeOf type.code = some type := by
  cases type <;> decide

theorem code_injective : Function.Injective CompactType.code := by
  intro a b h
  exact Option.some.inj ((typeOf_code a).symm.trans ((congrArg typeOf h).trans (typeOf_code b)))

theorem wellFormed_signingValue : (compactSigningValue type id payload).wellFormed =
    (id.wellFormed && payload.wellFormed) := by
  have hcode : checkUnicode type.code = true := by cases type <;> decide
  simp [compactSigningValue, Json.wellFormed, Json.allWellFormed, hcode]

/-- The text that is signed tells the code, the id and the payload, up to the order of members. -/
theorem canonicalize_signingValue : (compactSigningValue type id payload).canonicalize = .ok text ↔
    id.wellFormed = true ∧ payload.wellFormed = true ∧
      (Json.array [.string type.code, id.normalize, payload.normalize]).text = text := by
  unfold Json.canonicalize
  rw [wellFormed_signingValue]
  cases id.wellFormed <;> cases payload.wellFormed <;>
    simp [compactSigningValue, Json.normalize, Json.normalizeAll]

theorem verify_incomplete (h : complete frame payload publicKeyPem = false) :
    verifyCompactFrame P frame payload publicKeyPem allowedTypes =
      .ok (.refused "missing_required_field") := by
  simp [verifyCompactFrame, h]

theorem verify_complete (h : complete frame payload publicKeyPem = true)
    (hcode : (frame.get (js "t")).bind stringOf = some code) :
    verifyCompactFrame P frame payload publicKeyPem allowedTypes =
      verifyTyped P (typeOf code) frame payload publicKeyPem allowedTypes := by
  simp [verifyCompactFrame, h, compactType, hcode, bind, Except.bind]

/-- A code that cannot be converted throws. -/
theorem verify_unreadable (h : complete frame payload publicKeyPem = true)
    (hcode : (frame.get (js "t")).bind stringOf = none) :
    verifyCompactFrame P frame payload publicKeyPem allowedTypes = .error (js "TypeError") := by
  simp [verifyCompactFrame, h, compactType, hcode, bind, Except.bind]

theorem verifyTyped_reached (htype : type ∈ allowedTypes)
    (hbytes : signatureBytes P frame = some signature) (hlength : signature.length = 64) :
    verifyTyped P (some type) frame payload publicKeyPem allowedTypes =
      verifySignature P type frame payload publicKeyPem signature := by
  simp [verifyTyped, htype, hbytes, hlength]

/-- Where the last step is not reached, the frame is refused. -/
theorem verifyTyped_refused {found : Option CompactType}
    (h : ∀ type ∈ allowedTypes, found = some type →
      ∀ signature, signatureBytes P frame = some signature → signature.length ≠ 64) :
    ∃ reason, verifyTyped P found frame payload publicKeyPem allowedTypes =
      .ok (.refused reason) := by
  unfold verifyTyped
  cases found with
  | none => exact ⟨_, rfl⟩
  | some type =>
    dsimp only
    by_cases htype : type ∈ allowedTypes
    · rw [if_neg (not_not.mpr htype)]
      cases hbytes : signatureBytes P frame with
      | none => exact ⟨_, rfl⟩
      | some signature =>
        dsimp only
        rw [if_pos (h type htype rfl signature hbytes)]
        exact ⟨_, rfl⟩
    · rw [if_pos htype]
      exact ⟨_, rfl⟩

/-- The last step throws for a text that is not well-formed, and for a key of another kind. -/
theorem verifySignature_ok : (∃ verdict,
      verifySignature P type frame payload publicKeyPem signature = .ok verdict) ↔
    (idOf frame).wellFormed = true ∧ payload.wellFormed = true ∧
      P.accepts publicKeyPem = true := by
  unfold verifySignature
  constructor
  · rintro ⟨verdict, h⟩
    obtain ⟨text, htext, h⟩ := Checks.bind_ok.mp h
    obtain ⟨hid, hpayload, -⟩ := canonicalize_signingValue.mp htext
    refine ⟨hid, hpayload, ?_⟩
    by_contra hkey
    rw [if_pos (by simpa using hkey)] at h
    cases h
  · rintro ⟨hid, hpayload, hkey⟩
    have htext : ∃ text, (compactSigningValue type (idOf frame) payload).canonicalize = .ok text :=
      ⟨_, canonicalize_signingValue.mpr ⟨hid, hpayload, rfl⟩⟩
    obtain ⟨text, htext⟩ := htext
    rw [htext]
    simp only [bind, Except.bind, hkey, Bool.not_true, Bool.false_eq_true, if_false]
    split
    · exact ⟨_, rfl⟩
    · exact ⟨_, rfl⟩

theorem verifySignature_accepted {found : CompactType} :
    verifySignature P type frame payload publicKeyPem signature = .ok (.accepted found) ↔
      found = type ∧ P.accepts publicKeyPem = true ∧ ∃ text,
        (compactSigningValue type (idOf frame) payload).canonicalize = .ok text ∧
          P.verify publicKeyPem text signature = true := by
  unfold verifySignature
  rw [Checks.bind_ok]
  constructor
  · rintro ⟨text, htext, h⟩
    split at h
    · cases h
    · next hkey =>
      split at h
      · next hverify =>
        obtain ⟨rfl⟩ := Verdict.accepted.inj (Except.ok.inj h)
        exact ⟨rfl, by simpa using hkey, text, htext, hverify⟩
      · cases Except.ok.inj h
  · rintro ⟨rfl, hkey, text, htext, hverify⟩
    exact ⟨text, htext, by simp [hkey, hverify]⟩

end Truyn.Protocol
