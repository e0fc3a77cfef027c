import Truyn.Js.Decoder
import Truyn.Js.Parse

/-! mcp:headers | http-headers.js, the clients' headers and the check of the server

    A name that is no printable ASCII, has blanks around it or looks like an encoded one is sent as
    Base64 between a prefix and a suffix. What is sent survives the transport, says which of the two
    it is, and is decoded to the name that stands in the body (`header_codec`). -/

namespace Truyn.Mcp

/-! ### The codec -/

def base64Prefix : JsString := js "=?base64?"
def base64Suffix : JsString := js "?="

def usesBase64Sentinel (value : JsString) : Bool :=
  base64Prefix.isPrefixOf value && base64Suffix.isSuffixOf value

/-- `/[\x20-\x7e]/`. -/
def isPrintable (u : UInt16) : Bool := 0x20 ≤ u ∧ u ≤ 0x7e

def isPlainHeaderSafe (value : JsString) : Bool :=
  value.all isPrintable && trim value = value && !usesBase64Sentinel value

def encodeMcpHeaderValue (text : JsString) : JsString :=
  if isPlainHeaderSafe text then text
  else base64Prefix ++ base64 (utf8 text) ++ base64Suffix

/-- `/[A-Za-z0-9+/]/`. -/
def inBase64Body (u : UInt16) : Bool :=
  65 ≤ u ∧ u ≤ 90 ∨ 97 ≤ u ∧ u ≤ 122 ∨ 48 ≤ u ∧ u ≤ 57 ∨ u = 43 ∨ u = 47

/-- `BASE64_BODY.test(encoded)`. -/
def isBase64Body (encoded : JsString) : Bool :=
  let padding := encoded.dropWhile inBase64Body
  padding.length ≤ 2 && padding.all fun u => u = 61

/-- No value is `none`, as is a value that is refused. -/
def decodeMcpHeaderValue : Option JsString → Option JsString
  | none => none
  | some value =>
    if usesBase64Sentinel value = false then
      if isPlainHeaderSafe value then some value else none
    else
      let encoded := (value.drop base64Prefix.length).take
        (value.length - base64Suffix.length - base64Prefix.length)
      if encoded = [] ∨ encoded.length % 4 ≠ 0 ∨ isBase64Body encoded = false then none
      else
        let bytes := fromBase64 encoded
        if base64 bytes ≠ encoded then none
        else
          let decoded := toText bytes
          if utf8 decoded ≠ bytes then none else some decoded

example : decodeMcpHeaderValue (some (js "=?base64?=")) = none := by decide
example : encodeMcpHeaderValue (js "=?base64??=") = js "=?base64?PT9iYXNlNjQ/Pz0=?=" := by
  decide

/-! ### The clients -/

def MCP_CURRENT_PROTOCOL_VERSION : JsString := js "2026-07-28"
def MCP_PROTOCOL_VERSION_META_KEY : JsString := js "io.modelcontextprotocol/protocolVersion"
def MCP_CLIENT_INFO_META_KEY : JsString := js "io.modelcontextprotocol/clientInfo"
def MCP_CLIENT_CAPABILITIES_META_KEY : JsString := js "io.modelcontextprotocol/clientCapabilities"

/-- A value as the program has it: the text that JSON.stringify writes of it is well-formed. -/
structure Data where
  value : Json
  wellFormed : checkUnicode value.text = true

/-- How a client names itself; `clientCapabilities` is an object. -/
structure Client where
  clientName : JsString
  clientVersion : JsString
  clientCapabilities : List (JsString × Data)
  apiKey : Option JsString

def modernMeta (c : Client) : Json :=
  .object [(MCP_PROTOCOL_VERSION_META_KEY, .string MCP_CURRENT_PROTOCOL_VERSION),
    (MCP_CLIENT_INFO_META_KEY,
      .object [(js "name", .string c.clientName), (js "version", .string c.clientVersion)]),
    (MCP_CLIENT_CAPABILITIES_META_KEY,
      .object (c.clientCapabilities.map fun p => (p.1, p.2.value)))]

/-- What goes over the wire. -/
structure HttpRequest where
  headers : List (JsString × JsString)
  body : List UInt8

/-- `JSON.stringify({ jsonrpc, id, method, params: { ...params, _meta } })`. -/
def requestBody (c : Client) (id method : JsString) (params : List (JsString × Data)) : Json :=
  .object [(js "jsonrpc", .string (js "2.0")), (js "id", .string id),
    (js "method", .string method),
    (js "params", .object (params.map (fun p => (p.1, p.2.value)) ++ [(js "_meta", modernMeta c)]))]

def request (c : Client) (id method : JsString) (params : List (JsString × Data))
    (name : Option JsString) (extraHeaders : List (JsString × JsString)) : HttpRequest where
  headers :=
    [(js "content-type", js "application/json"),
      (js "accept", js "application/json, text/event-stream"),
      (js "mcp-protocol-version", MCP_CURRENT_PROTOCOL_VERSION), (js "mcp-method", method)] ++
    (name.map fun n => (js "mcp-name", encodeMcpHeaderValue n)).toList ++ extraHeaders ++
    (c.apiKey.map fun k => (js "authorization", js "Bearer " ++ k)).toList
  body := utf8 (requestBody c id method params).text

def Data.string (s : JsString) : Data := ⟨.string s, checkUnicode_quote s⟩

/-- The headers of the parameters that a tool binds to headers. -/
def mcpParamHeaders (bindings : List (JsString × JsString)) : List (JsString × JsString) :=
  bindings.map fun b => (js "mcp-param-" ++ b.1, b.2)

/-- The calls that are routed by a name: of a tool with its bound parameters, of a resource by the
    normalised URI, of a prompt. -/
inductive Call
  | callTool (name : JsString) (args : Data) (bindings : List (JsString × JsString))
  | readResource (uri : JsString)
  | getPrompt (name : JsString) (args : Data) (inputResponses requestState : Option Data)

def Call.name : Call → JsString
  | .callTool name _ _ => name
  | .readResource uri => uri
  | .getPrompt name _ _ _ => name

def Call.method : Call → JsString
  | .callTool .. => js "tools/call"
  | .readResource _ => js "resources/read"
  | .getPrompt .. => js "prompts/get"

def Call.params : Call → List (JsString × Data)
  | .callTool name args _ => [(js "name", .string name), (js "arguments", args)]
  | .readResource uri => [(js "uri", .string uri)]
  | .getPrompt name args inputResponses requestState =>
    [(js "name", .string name), (js "arguments", args)] ++
      (inputResponses.map fun v => (js "inputResponses", v)).toList ++
      (requestState.map fun v => (js "requestState", v)).toList

def Call.extraHeaders : Call → List (JsString × JsString)
  | .callTool _ _ bindings => mcpParamHeaders bindings
  | .readResource _ | .getPrompt .. => []

/-- The request of a call. The provider of a configured tool sends `tools/call` as `callTool` does,
    without bound parameters. -/
def Call.send (c : Client) (id : JsString) (call : Call) : HttpRequest :=
  request c id call.method call.params (some call.name) call.extraHeaders

/-! ### The server -/

def MCP_MODERN_VERSION : JsString := js "2026-07-28"
def MCP_LEGACY_VERSIONS : List JsString := [js "2025-11-25", js "2025-06-18"]
def MCP_SUPPORTED_VERSIONS : List JsString := MCP_MODERN_VERSION :: MCP_LEGACY_VERSIONS

def NAME_ROUTED_METHODS : List JsString :=
  [js "tools/call", js "resources/read", js "prompts/get"]

structure RpcError where
  id : Json
  code : ℤ
  message : JsString
  supported : List JsString
  truynCode : JsString

def rpcError (id : Option Json) (code : ℤ) (message : JsString) (supported : List JsString) :
    RpcError where
  id := id.getD .null
  code := code
  message := message
  supported := supported
  truynCode :=
    if code = -32022 then js "version_mismatch"
    else if code = -32601 then js "unimplemented"
    else if code = -32603 then js "internal_error"
    else js "invalid_argument"

def isObject : Json → Bool
  | .object _ => true
  | _ => false

/-- A header as the server sees it: no blanks around the value. -/
def HttpRequest.header (r : HttpRequest) (key : JsString) : Option JsString :=
  (r.headers.find? fun h => h.1 = key).map fun h => trimWhere (fun u => u = 32 ∨ u = 9) h.2

/-- The message in a body. -/
def readJson (maxBodyBytes : ℕ) (body : List UInt8) : Except JsString Json :=
  if maxBodyBytes < body.length then .error (js "request_too_large")
  else if body = [] then .ok (.object [])
  else (Json.parse (toText body)).elim (.error (js "invalid_json")) .ok

/-- `message?.params?.[key]`. -/
def param (message : Json) (key : JsString) : Option Json :=
  (message.get (js "params")).bind (Json.get key)

def modernEnvelopeError (params : Option Json) : Option JsString :=
  match params.bind (Json.get (js "_meta")) with
  | none => some (js "Modern MCP request requires params._meta")
  | some m =>
    if isObject m = false then some (js "Modern MCP request requires params._meta")
    else if asText (m.get MCP_PROTOCOL_VERSION_META_KEY) ≠ some MCP_MODERN_VERSION then
      some (js "Modern MCP request requires " ++ MCP_PROTOCOL_VERSION_META_KEY ++ js "=" ++
        MCP_MODERN_VERSION)
    else if (m.get MCP_CLIENT_CAPABILITIES_META_KEY).any isObject = false then
      some (js "Modern MCP request requires " ++ MCP_CLIENT_CAPABILITIES_META_KEY)
    else
      match m.get MCP_CLIENT_INFO_META_KEY with
      | none => none
      | some info =>
        if (asText (info.get (js "name"))).isSome ∧ (asText (info.get (js "version"))).isSome then
          none
        else some (MCP_CLIENT_INFO_META_KEY ++ js " must contain string name/version when present")

def requestMetaVersion (message : Json) : Option Json :=
  (param message (js "_meta")).bind (Json.get MCP_PROTOCOL_VERSION_META_KEY)

def expectedRoutingName (message : Json) : Option JsString :=
  match asText (param message (js "name")) with
  | some name => some name
  | none => asText (param message (js "uri"))

/-- Whether the request is a modern one, or the status and the error it is answered with. -/
def validateHttpProtocol (req : HttpRequest) (message : Json) : Except (ℕ × RpcError) Bool :=
  let headerVersion := req.header (js "mcp-protocol-version")
  let metaVersion := requestMetaVersion message
  let refuse := fun (code : ℤ) (text : JsString) (supported : List JsString) =>
    (.error (400, rpcError (message.get (js "id")) code text supported) :
      Except (ℕ × RpcError) Bool)
  if headerVersion.any (fun v => v ≠ [] ∧ v ∉ MCP_SUPPORTED_VERSIONS) then
    refuse (-32022) (js "Unsupported protocol version") MCP_SUPPORTED_VERSIONS
  else if metaVersion.any Json.truthy ∧ (asText metaVersion).all (fun v => v ∉ MCP_SUPPORTED_VERSIONS) then
    refuse (-32022) (js "Unsupported protocol version") MCP_SUPPORTED_VERSIONS
  else
    let method := asText (message.get (js "method"))
    if method ≠ some (js "server/discover") ∧ headerVersion ≠ some MCP_MODERN_VERSION ∧
        asText metaVersion ≠ some MCP_MODERN_VERSION then
      if headerVersion.any (fun v => v ≠ []) ∧ metaVersion.any Json.truthy ∧
          headerVersion ≠ asText metaVersion then
        refuse (-32020) (js "MCP protocol version header/body mismatch") []
      else .ok false
    else if headerVersion ≠ some MCP_MODERN_VERSION ∨ asText metaVersion ≠ some MCP_MODERN_VERSION then
      refuse (-32020) (js "Modern MCP protocol version header/body mismatch") []
    else if req.header (js "mcp-method") ≠ method ∨ method = none ∧ (message.get (js "method")).isSome then
      refuse (-32020) (js "Mcp-Method header mismatch") []
    else
      let expectedName := expectedRoutingName message
      let actualName := decodeMcpHeaderValue (req.header (js "mcp-name"))
      if method.any (fun m => m ∈ NAME_ROUTED_METHODS) ∧
          (expectedName = none ∨ actualName = none ∨ actualName ≠ expectedName) then
        refuse (-32020) (js "Mcp-Name header mismatch") []
      else
        match modernEnvelopeError (message.get (js "params")) with
        | some envelopeError => refuse (-32602) envelopeError []
        | none => .ok true

variable {p : UInt16 → Bool} {s : JsString}

/-! ### What is trimmed -/

theorem dropWhile_head (h : ∀ u ∈ s.head?, p u = false) :
    s.dropWhile p = s := by
  cases s with
  | nil => rfl
  | cons u s => exact List.dropWhile_cons_of_neg (by simp [h u rfl])

theorem head_of_dropWhile (h : s.length ≤ (s.dropWhile p).length) : ∀ u ∈ s.head?, p u = false := by
  cases s with
  | nil => simp
  | cons u s =>
    rintro v ⟨⟩
    by_contra hu
    rw [List.dropWhile_cons_of_pos (by simpa using hu)] at h
    have hle := (List.dropWhile_sublist p (l := s)).length_le
    simp only [List.length_cons] at h
    omega

/-- Nothing is trimmed exactly if neither end has a unit to trim. -/
theorem trimWhere_eq_self_iff : trimWhere p s = s ↔
    (∀ u ∈ s.head?, p u = false) ∧ ∀ u ∈ s.reverse.head?, p u = false := by
  constructor
  · intro h
    have hlength := congrArg List.length h
    rw [trimWhere, List.length_reverse] at hlength
    have hright := (List.dropWhile_sublist p (l := (s.dropWhile p).reverse)).length_le
    rw [List.length_reverse] at hright
    have hhead := head_of_dropWhile (p := p) (s := s) (by omega)
    rw [dropWhile_head hhead] at hlength
    exact ⟨hhead, head_of_dropWhile (by rw [List.length_reverse]; omega)⟩
  · rintro ⟨hleft, hright⟩
    rw [trimWhere, dropWhile_head hleft, dropWhile_head hright, List.reverse_reverse]

/-- What keeps its white space keeps its blanks. -/
theorem trimWhere_of_trim (h : trim s = s) :
    trimWhere (fun u => u = 32 ∨ u = 9) s = s := by
  have hsub : ∀ u : UInt16, isSpace u = false → decide (u = 32 ∨ u = 9) = false := by
    intro u hu
    rw [decide_eq_false_iff_not]
    rintro (rfl | rfl) <;> revert hu <;> decide
  obtain ⟨hleft, hright⟩ := trimWhere_eq_self_iff.mp h
  exact trimWhere_eq_self_iff.mpr
    ⟨fun u hu => hsub u (hleft u hu), fun u hu => hsub u (hright u hu)⟩

/-! ### Encoded and plain values -/

theorem isPlainHeaderSafe_iff : isPlainHeaderSafe s = true ↔
    (∀ u ∈ s, isPrintable u = true) ∧ trim s = s ∧ usesBase64Sentinel s = false := by
  simp [isPlainHeaderSafe, and_assoc]

theorem usesBase64Sentinel_wrapped (body : JsString) :
    usesBase64Sentinel (base64Prefix ++ body ++ base64Suffix) = true := by
  rw [usesBase64Sentinel, Bool.and_eq_true, List.isPrefixOf_iff_prefix, List.isSuffixOf_iff_suffix]
  exact ⟨⟨body ++ base64Suffix, (List.append_assoc ..).symm⟩, ⟨base64Prefix ++ body, rfl⟩⟩

/-- The form of a sent value tells whether the name was sent as it is. -/
theorem usesBase64Sentinel_encode (s : JsString) :
    usesBase64Sentinel (encodeMcpHeaderValue s) = !isPlainHeaderSafe s := by
  rw [encodeMcpHeaderValue]
  split
  · next h => simp [h, (isPlainHeaderSafe_iff.mp h).2.2]
  · next h =>
    rw [usesBase64Sentinel_wrapped, Bool.eq_false_iff.mpr h]
    rfl

theorem base64Digit_body : ∀ n < 64, inBase64Body (base64Digit 43 47 n) = true ∧
    isPrintable (base64Digit 43 47 n) = true := by
  decide

theorem base64_units (bytes : List UInt8) :
    ∀ u ∈ base64 bytes, isPrintable u = true := by
  rw [base64_sextets]
  intro u hu
  rcases List.mem_append.mp hu with hu | hu
  · obtain ⟨n, hn, rfl⟩ := List.mem_map.mp hu
    exact (base64Digit_body n (sextets_lt bytes n hn)).2
  · rw [List.eq_of_mem_replicate hu]
    decide

theorem isBase64Body_base64 (bytes : List UInt8) : isBase64Body (base64 bytes) = true := by
  have hdigits : ∀ u ∈ (sextets bytes).map (base64Digit 43 47), inBase64Body u = true := by
    intro u hu
    obtain ⟨n, hn, rfl⟩ := List.mem_map.mp hu
    exact (base64Digit_body n (sextets_lt bytes n hn)).1
  have hstop : ∀ n, (List.replicate n (61 : UInt16)).dropWhile inBase64Body =
      List.replicate n 61 := by
    intro n
    cases n with
    | zero => rfl
    | succ n => exact List.dropWhile_cons_of_neg (by decide)
  rw [isBase64Body, base64_sextets, List.dropWhile_append_of_pos hdigits, hstop]
  simp only [List.length_replicate, Bool.and_eq_true, decide_eq_true_eq, List.all_eq_true]
  exact ⟨by omega, fun u hu => List.eq_of_mem_replicate hu⟩

/-- A header value is printable and loses nothing at its ends. -/
theorem encode_printable (s : JsString) :
    (∀ u ∈ encodeMcpHeaderValue s, isPrintable u = true) ∧
      trim (encodeMcpHeaderValue s) = encodeMcpHeaderValue s := by
  rw [encodeMcpHeaderValue]
  split
  · next h =>
    obtain ⟨hall, htrim, -⟩ := isPlainHeaderSafe_iff.mp h
    exact ⟨hall, htrim⟩
  · constructor
    · have hprefix : ∀ u ∈ base64Prefix, isPrintable u = true :=
        List.all_eq_true.mp (by decide)
      have hsuffix : ∀ u ∈ base64Suffix, isPrintable u = true :=
        List.all_eq_true.mp (by decide)
      intro u hu
      rcases List.mem_append.mp hu with hu | hu
      · rcases List.mem_append.mp hu with hu | hu
        · exact hprefix u hu
        · exact base64_units _ u hu
      · exact hsuffix u hu
    · have hends : ∀ body : JsString, (base64Prefix ++ body ++ base64Suffix).head? = some 61 ∧
          (base64Prefix ++ body ++ base64Suffix).reverse.head? = some 61 := by
        intro body
        constructor
        · rfl
        · rw [List.reverse_append]
          rfl
      obtain ⟨hhead, hlast⟩ := hends (base64 (utf8 s))
      refine trimWhere_eq_self_iff.mpr ⟨?_, ?_⟩
      · rw [hhead]
        rintro u ⟨⟩
        decide
      · rw [hlast]
        rintro u ⟨⟩
        decide

theorem decode_plain (h : isPlainHeaderSafe s = true) :
    decodeMcpHeaderValue (some s) = some s := by
  rw [decodeMcpHeaderValue, if_pos (isPlainHeaderSafe_iff.mp h).2.2, if_pos h]

theorem decode_wrapped (hs : checkUnicode s = true) (hne : s ≠ []) :
    decodeMcpHeaderValue (some (base64Prefix ++ base64 (utf8 s) ++ base64Suffix)) = some s := by
  have hbody : ((base64Prefix ++ base64 (utf8 s) ++ base64Suffix).drop base64Prefix.length).take
      ((base64Prefix ++ base64 (utf8 s) ++ base64Suffix).length - base64Suffix.length -
        base64Prefix.length) = base64 (utf8 s) := by
    rw [List.append_assoc, List.drop_left, List.take_left']
    simp only [List.length_append]
    omega
  have hbytes : 0 < (utf8 s).length := by
    refine List.length_pos_iff.mpr fun h => hne ?_
    rw [← toText_utf8 hs, h]
    rfl
  have hlength := length_base64 (utf8 s)
  have hnonempty : base64 (utf8 s) ≠ [] := List.length_pos_iff.mp (by omega)
  rw [decodeMcpHeaderValue, usesBase64Sentinel_wrapped, if_neg (by decide)]
  simp only [hbody]
  rw [if_neg (by simp [hnonempty, hlength, isBase64Body_base64]), fromBase64_base64, if_neg (by simp),
    toText_utf8 hs, if_neg (by simp)]

/-- ROUND TRIP of a name. -/
theorem decode_encode (hs : checkUnicode s = true) :
    decodeMcpHeaderValue (some (encodeMcpHeaderValue s)) = some s := by
  rw [encodeMcpHeaderValue]
  split
  · next h => exact decode_plain h
  · next h =>
    refine decode_wrapped hs fun hnil => h ?_
    rw [hnil]
    decide

/-! ### What the server reads -/

theorem memberTexts_data (m : List (JsString × Data)) :
    ∀ p ∈ Json.memberTexts (m.map fun p => (p.1, p.2.value)), checkUnicode p.2 = true := by
  induction m with
  | nil => simp [Json.memberTexts]
  | cons d m ih =>
    rintro p hp
    rcases List.mem_cons.mp hp with rfl | hp
    · exact d.2.wellFormed
    · exact ih p hp

theorem memberTexts_append (l m : List (JsString × Json)) :
    Json.memberTexts (l ++ m) = Json.memberTexts l ++ Json.memberTexts m := by
  induction l with
  | nil => rfl
  | cons p l ih => simp [Json.memberTexts, ih]

theorem checkUnicode_modernMeta (c : Client) : checkUnicode (modernMeta c).text = true := by
  refine checkUnicode_object fun p hp => ?_
  simp only [Json.memberTexts, List.mem_cons, List.not_mem_nil, or_false] at hp
  rcases hp with rfl | rfl | rfl
  · exact checkUnicode_quote _
  · refine checkUnicode_object fun p hp => ?_
    simp only [Json.memberTexts, List.mem_cons, List.not_mem_nil, or_false] at hp
    rcases hp with rfl | rfl
    · exact checkUnicode_quote _
    · exact checkUnicode_quote _
  · exact checkUnicode_object (memberTexts_data c.clientCapabilities)

theorem checkUnicode_requestBody (c : Client) (id method : JsString)
    (params : List (JsString × Data)) : checkUnicode (requestBody c id method params).text = true := by
  refine checkUnicode_object fun p hp => ?_
  simp only [Json.memberTexts, List.mem_cons, List.not_mem_nil, or_false] at hp
  rcases hp with rfl | rfl | rfl | rfl
  · exact checkUnicode_quote _
  · exact checkUnicode_quote _
  · exact checkUnicode_quote _
  · refine checkUnicode_object fun p hp => ?_
    rw [memberTexts_append] at hp
    rcases List.mem_append.mp hp with hp | hp
    · exact memberTexts_data params p hp
    · simp only [Json.memberTexts, List.mem_cons, List.not_mem_nil, or_false] at hp
      rw [hp]
      exact checkUnicode_modernMeta c

/-- A body that is not too large is read as the message that was written. -/
theorem readJson_send (c : Client) (id : JsString) (call : Call) {maxBodyBytes : ℕ}
    (h : (call.send c id).body.length ≤ maxBodyBytes) : readJson maxBodyBytes (call.send c id).body =
      .ok (requestBody c id call.method call.params) := by
  have htext := toText_utf8 (checkUnicode_requestBody c id call.method call.params)
  have hne : utf8 (requestBody c id call.method call.params).text ≠ [] := by
    intro hnil
    rw [hnil] at htext
    cases htext
  rw [Call.send, request] at h ⊢
  rw [readJson, if_neg (Nat.not_lt.mpr h), if_neg hne, htext, Json.parse_text]
  rfl

section
variable (c : Client) (id : JsString) (call : Call)

theorem method_requestBody (method : JsString) (params : List (JsString × Data)) :
    asText ((requestBody c id method params).get (js "method")) = some method := rfl

theorem param_requestBody (method : JsString) (params : List (JsString × Data)) (key : JsString) :
    param (requestBody c id method params) key =
      (Json.object (params.map (fun p => (p.1, p.2.value)) ++ [(js "_meta", modernMeta c)])).get
        key := rfl

theorem meta_call : param (requestBody c id call.method call.params) (js "_meta") =
    some (modernMeta c) := by
  rw [param_requestBody]
  match call with
  | .callTool .. | .readResource _ => rfl
  | .getPrompt _ _ none none | .getPrompt _ _ none (some _) => rfl
  | .getPrompt _ _ (some _) none | .getPrompt _ _ (some _) (some _) => rfl

theorem expectedRoutingName_call :
    expectedRoutingName (requestBody c id call.method call.params) = some call.name := by
  cases call <;> rfl

theorem modernEnvelopeError_call :
    modernEnvelopeError ((requestBody c id call.method call.params).get (js "params")) = none := by
  have hmeta := meta_call c id call
  rw [param] at hmeta
  rw [modernEnvelopeError, hmeta]
  rfl

theorem header_version : (call.send c id).header (js "mcp-protocol-version") =
    some MCP_MODERN_VERSION := rfl

theorem header_method : (call.send c id).header (js "mcp-method") = some call.method := by
  cases call <;> rfl

theorem header_name : (call.send c id).header (js "mcp-name") =
    some (encodeMcpHeaderValue call.name) := by
  have hsent : (call.send c id).header (js "mcp-name") =
      some (trimWhere (fun u => u = 32 ∨ u = 9) (encodeMcpHeaderValue call.name)) := rfl
  rw [hsent, trimWhere_of_trim (encode_printable call.name).2]

/-- The server takes the request of a call for a modern one. -/
theorem validateHttpProtocol_call (hname : checkUnicode call.name = true) :
    validateHttpProtocol (call.send c id) (requestBody c id call.method call.params) = .ok true := by
  have hversion : requestMetaVersion (requestBody c id call.method call.params) =
      some (.string MCP_MODERN_VERSION) := by
    rw [requestMetaVersion, meta_call]
    rfl
  simp only [validateHttpProtocol, header_version, header_method, header_name, hversion,
    method_requestBody, expectedRoutingName_call, decode_encode hname, modernEnvelopeError_call]
  have hsupported : MCP_MODERN_VERSION ∈ MCP_SUPPORTED_VERSIONS := List.mem_cons_self
  simp [asText, hsupported]

end

/-- ROUND TRIP of the header: a well-formed name is decoded from what is sent; that is printable ASCII
    without white space around it, and of the encoded form exactly if the name is not plain; a plain
    value stands for itself. So the server finds the name of the body in the header of each call, and
    takes the call. -/
theorem header_codec (s : JsString) (hs : checkUnicode s = true) :
    decodeMcpHeaderValue (some (encodeMcpHeaderValue s)) = some s ∧
      (∀ u ∈ encodeMcpHeaderValue s, 0x20 ≤ u ∧ u ≤ 0x7e) ∧
      trim (encodeMcpHeaderValue s) = encodeMcpHeaderValue s ∧
      usesBase64Sentinel (encodeMcpHeaderValue s) = !isPlainHeaderSafe s ∧
      (isPlainHeaderSafe s = true →
        encodeMcpHeaderValue s = s ∧ decodeMcpHeaderValue (some s) = some s) ∧
      ∀ (c : Client) (id : JsString) (call : Call) (maxBodyBytes : ℕ), call.name = s →
        (call.send c id).body.length ≤ maxBodyBytes →
          ∃ message, readJson maxBodyBytes (call.send c id).body = .ok message ∧
            expectedRoutingName message = some s ∧
            decodeMcpHeaderValue ((call.send c id).header (js "mcp-name")) = some s ∧
            validateHttpProtocol (call.send c id) message = .ok true := by
  obtain ⟨hprintable, htrim⟩ := encode_printable s
  refine ⟨decode_encode hs, fun u hu => by simpa [isPrintable] using hprintable u hu, htrim,
    usesBase64Sentinel_encode s, fun h => ⟨by rw [encodeMcpHeaderValue, if_pos h], decode_plain h⟩, ?_⟩
  rintro c id call maxBodyBytes rfl hsize
  refine ⟨_, readJson_send c id call hsize, expectedRoutingName_call c id call, ?_,
    validateHttpProtocol_call c id call hs⟩
  rw [header_name, decode_encode hs]

/-- A name that looks like an encoded one, with a character beyond ASCII. -/
theorem header_codec_sentinel : decodeMcpHeaderValue
    (some (encodeMcpHeaderValue (js "=?base64?é?="))) = some (js "=?base64?é?=") :=
  (header_codec (js "=?base64?é?=") (by decide)).1

end Truyn.Mcp
