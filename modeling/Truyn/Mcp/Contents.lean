import Truyn.Js.Stable
import Truyn.Mcp.HeaderCodec
import Truyn.Schemes.Checks

/-! mcp:contents | the checks that resources and prompts of a provider go through

    The strings, URIs and Base64 texts that the prompt runtime accepts, with the hash and the URL parser
    of the platform. -/

namespace Truyn.Mcp

/-- What `new URL` makes of a text. -/
structure Url where
  protocol : JsString
  href : JsString

/-- What is taken from the host: `sha256Hex`, `new URL` and `localeCompare`. -/
structure Host where
  sha256 : List UInt8 → JsString
  parseUrl : JsString → Option Url
  collation : Collation

/-- `Number.isSafeInteger(value) && value >= 0`, for a number that is an integer. -/
def safeNatural (n : ℤ) : Bool := 0 ≤ n ∧ n ≤ 9007199254740991

/-- The same for a number in JSON: it is written in decimal digits. -/
def isSafeNatural (n : NumberText) : Bool :=
  n.text = numeral (numeralValue n.text) ∧ numeralValue n.text ≤ 9007199254740991

/-- `/\p{Cc}/u`. -/
def isControl (u : UInt16) : Bool := u < 0x20 ∨ 0x7f ≤ u ∧ u < 0xa0

def boundedString (value : Option Json) (label : JsString) (maxLength : ℕ)
    (allowEmpty controls : Bool) : Except JsString JsString :=
  let refused := label ++ js " must be " ++ js (if allowEmpty then "a" else "a non-empty") ++
    js " string up to " ++ numeral maxLength ++ js " characters"
  match value with
  | some (.string s) =>
    if (!allowEmpty && s = []) ∨ maxLength < s.length then .error refused
    else if !controls && s.any isControl then
      .error (label ++ js " must not contain control characters")
    else .ok s
  | _ => .error refused

def normalizeMcpResourceUri (H : Host) (value : Option Json) : Except JsString JsString := do
  let uri ← boundedString value (js "MCP resource URI") 8192 false false
  match H.parseUrl uri with
  | none => throw (js "MCP resource URI must be absolute")
  | some parsed =>
    if parsed.protocol = [] ∨ parsed.protocol = js ":" then
      throw (js "MCP resource URI requires a scheme")
    pure parsed.href

/-- `value.replace(/=+$/, '')`. -/
def stripPadding (s : JsString) : JsString := (s.reverse.dropWhile fun u => u = 61).reverse

/-- The bytes of a Base64 text. -/
def readBase64 (value : Option Json) (label : JsString) (maxBytes : ℕ) :
    Except JsString (List UInt8) :=
  match value with
  | some (.string s) =>
    let bytes := fromBase64 s
    if s = [] then .error (label ++ js " requires non-empty base64")
    else if (maxBytes * 4 + 2) / 3 + 16 < s.length then
      .error (label ++ js " exceeds encoded size limit")
    else if isBase64Body s = false ∨ s.length % 4 = 1 then
      .error (label ++ js " must use canonical base64")
    else if maxBytes < bytes.length then .error (label ++ js " exceeds size limit")
    else if stripPadding s ≠ stripPadding (base64 bytes) then
      .error (label ++ js " must use valid base64")
    else .ok bytes
  | _ => .error (label ++ js " requires non-empty base64")

variable {label s : JsString} {value : Option Json}

/-! ### What is accepted -/

theorem boundedString_ok {maxLength : ℕ} {allowEmpty controls : Bool}
    (h : boundedString value label maxLength allowEmpty controls = .ok s) :
    value = some (.string s) ∧ (controls = false → ∀ u ∈ s, isControl u = false) := by
  unfold boundedString at h
  match value with
  | some (.string t) =>
    rw [Checks.error_ok, Checks.error_ok] at h
    obtain ⟨-, hcontrol, ht⟩ := h
    cases ht
    refine ⟨rfl, fun hc => ?_⟩
    simpa [hc] using hcontrol
  | none | some .null | some (.bool _) | some (.number _) | some (.array _) | some (.object _) => cases h

theorem uri_ok {H : Host} (h : normalizeMcpResourceUri H value = .ok s) :
    ∃ uri, value = some (.string uri) ∧ (H.parseUrl uri).map Url.href = some s := by
  obtain ⟨uri, huri, h⟩ := Checks.bind_ok.mp h
  refine ⟨uri, (boundedString_ok huri).1, ?_⟩
  cases hparsed : H.parseUrl uri with
  | none => simp [hparsed, Checks.throw_ne] at h
  | some parsed =>
    simp only [hparsed, Checks.guard_ok, Checks.pure_ok] at h
    rw [Option.map_some, h.2]

theorem readBase64_ok {maxBytes : ℕ} {bytes : List UInt8}
    (h : readBase64 value label maxBytes = .ok bytes) :
    ∃ s, value = some (.string s) ∧ bytes = fromBase64 s := by
  unfold readBase64 at h
  match value with
  | some (.string s) =>
    simp only [Checks.error_ok, Except.ok.injEq] at h
    exact ⟨s, rfl, h.2.2.2.2.2.symm⟩
  | none | some .null | some (.bool _) | some (.number _) | some (.array _) | some (.object _) => cases h

end Truyn.Mcp
