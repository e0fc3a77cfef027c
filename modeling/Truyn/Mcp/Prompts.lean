import Truyn.Js.Fields
import Truyn.Mcp.Contents

/-! mcp:prompts | prompt-runtime.js: prompts are normalised, put into bytes and addressed by their hash

    A prompt is rebuilt from the members that its profile lists; what else a provider sends is left out,
    and a URI is written as the parser writes it. Two prompts of one digest agree in their names, their
    arguments and in every listed member, and so do those of one snapshot key in name and arguments
    (`prompt_addressing`). A member of the name `__proto__` is lost where objects are rebuilt, so this
    is said of values without one. -/

namespace Truyn.Mcp
open Json

def MCP_PROMPT_OBJECT_PROFILE : JsString := js "mcp-prompt-object/v1"
def DEFAULT_MAX_MCP_PROMPT_BYTES : ℕ := 1024 * 1024
def DEFAULT_MAX_MCP_PROMPT_MESSAGES : ℕ := 128
def DEFAULT_MAX_MCP_PROMPT_ARGUMENTS : ℕ := 64

variable (H : Host)

/-! ### The members -/

def stringMember (label : JsString) (maxLength : ℕ) (allowEmpty controls : Bool)
    (value : Option Json) : Except JsString Json :=
  (boundedString value label maxLength allowEmpty controls).map .string

def uriMember (value : Option Json) : Except JsString Json :=
  (normalizeMcpResourceUri H value).map .string

def strictBase64 (label : JsString) (maxBytes : ℕ) (value : Option Json) : Except JsString Json :=
  (readBase64 value label maxBytes).map fun bytes => .string (base64 bytes)

def boundedJson (value : Json) (label : JsString) (maxBytes : ℕ) : Except JsString Json :=
  if maxBytes < (stableBytes value).length then .error (label ++ js " exceeds size limit")
  else .ok (stableValue value)

/-- `normalizeAnnotations` and `normalizeMeta`, by their labels. -/
def objectMember (label : JsString) : Option Json → Except JsString Json
  | some (.object m) => boundedJson (.object m) label (64 * 1024)
  | _ => .error (label ++ js " must be an object")

def normalizeAnnotations : Option Json → Except JsString Json :=
  objectMember (js "MCP prompt annotations")

def normalizeMeta : Option Json → Except JsString Json := objectMember (js "MCP prompt _meta")

def textMember (remainingBytes : ℕ) (required exceeded : JsString) :
    Option Json → Except JsString Json
  | some (.string s) => if remainingBytes < byteLength s then .error exceeded else .ok (.string s)
  | _ => .error required

def sizeMember : Option Json → Except JsString Json
  | some (.number n) =>
    if !isSafeNatural n then
      .error (js "MCP prompt resource link size must be a non-negative safe integer")
    else .ok (.number n)
  | _ => .error (js "MCP prompt resource link size must be a non-negative safe integer")

/-- What every block may have. -/
def noteFields : List (JsString × Reader) :=
  [(js "annotations", optional normalizeAnnotations), (js "_meta", optional normalizeMeta)]

/-- The members behind the URI; one of `text` and `blob` is there. -/
def resourceFields (remainingBytes : ℕ) : List (JsString × Reader) :=
  [(js "mimeType", optional (stringMember (js "MCP embedded resource mimeType") 512 false false)),
    (js "text", optional (textMember remainingBytes (js "MCP embedded text resource must be a string")
      (js "MCP embedded text resource exceeds prompt size limit"))),
    (js "blob", optional (strictBase64 (js "MCP embedded blob resource") remainingBytes))] ++
    noteFields

def normalizeResourceContents (remainingBytes : ℕ) : Option Json → Except JsString Json
  | some (.object m) => do
    let resource := Json.object m
    let uri ← readFields resource [(js "uri", required (uriMember H))]
    if (resource.get (js "text")).isSome = (resource.get (js "blob")).isSome then
      throw (js "MCP embedded prompt resource must contain exactly one of text or blob")
    let rest ← readFields resource (resourceFields remainingBytes)
    pure (.object (record (uri ++ rest)))
  | _ => .error (js "MCP embedded prompt resource must be an object")

def textFields (remainingBytes : ℕ) : List (JsString × Reader) :=
  [(js "type", keep),
    (js "text", required (textMember remainingBytes (js "MCP prompt text content requires text")
      (js "MCP prompt text content exceeds size limit")))] ++ noteFields

/-- An image or audio. -/
def dataFields (type : JsString) (remainingBytes : ℕ) : List (JsString × Reader) :=
  [(js "type", keep),
    (js "data", required (strictBase64 (js "MCP prompt " ++ type ++ js " content") remainingBytes)),
    (js "mimeType", required (stringMember (js "MCP prompt " ++ type ++ js " mimeType") 512
      false false))] ++ noteFields

def linkFields : List (JsString × Reader) :=
  [(js "type", keep), (js "uri", required (uriMember H)),
    (js "name", optional (stringMember (js "MCP prompt resource link name") 1024 false true)),
    (js "title", optional (stringMember (js "MCP prompt resource link title") 1024 false true)),
    (js "description", optional (stringMember (js "MCP prompt resource link description") 8192
      true true)),
    (js "mimeType", optional (stringMember (js "MCP prompt resource link mimeType") 512 false false)),
    (js "size", optional sizeMember)] ++ noteFields

def embeddedFields (remainingBytes : ℕ) : List (JsString × Reader) :=
  [(js "type", keep), (js "resource", required (normalizeResourceContents H remainingBytes))] ++
    noteFields

def contentFields (type : JsString) (remainingBytes : ℕ) :
    Except JsString (List (JsString × Reader)) :=
  if type = js "text" then .ok (textFields remainingBytes)
  else if type = js "image" ∨ type = js "audio" then .ok (dataFields type remainingBytes)
  else if type = js "resource_link" then .ok (linkFields H)
  else if type = js "resource" then .ok (embeddedFields H remainingBytes)
  else .error (js "Unsupported MCP prompt content type: " ++ type)

def normalizeContentBlock (remainingBytes : ℕ) (content : Option Json) : Except JsString Json :=
  match content.bind fun c => asText (c.get (js "type")) with
  | none => .error (js "MCP prompt message content must be a typed object")
  | some type => do
    let fields ← contentFields H type remainingBytes
    let members ← readFields (content.getD .null) fields
    pure (.object (record members))

/-! ### A prompt -/

def normalizeMessage (maxPromptBytes : ℕ) (message : Json) : Except JsString Json := do
  if asText (message.get (js "role")) ≠ some (js "user") ∧
      asText (message.get (js "role")) ≠ some (js "assistant") then
    throw (js "MCP prompt message role must be user or assistant")
  let members ← readFields message
    [(js "role", keep), (js "content", required (normalizeContentBlock H maxPromptBytes))]
  pure (.object (record members))

/-- The messages behind those that are normalised. -/
def normalizeMessagesFrom (maxPromptBytes : ℕ) : List Json → List Json → Except JsString (List Json)
  | normalized, [] => .ok normalized
  | normalized, message :: rest => do
    let next ← normalizeMessage H maxPromptBytes message
    let normalized := normalized ++ [next]
    if maxPromptBytes < (stableBytes (.array normalized)).length then
      throw (js "MCP prompt exceeds materialization size limit")
    normalizeMessagesFrom maxPromptBytes normalized rest

def normalizeMessages (maxPromptBytes maxMessages : ℕ) : Option Json → Except JsString Json
  | some (.array messages) =>
    if maxMessages < messages.length then .error (js "MCP prompt exceeds message limit")
    else (normalizeMessagesFrom H maxPromptBytes [] messages).map .array
  | _ => .error (js "MCP prompts/get complete result requires messages array")

/-- One argument of those in the order of their names. -/
def argumentEntry (entry : JsString × Json) : Except JsString (JsString × Json) := do
  let key ← boundedString (some (.string entry.1)) (js "MCP prompt argument name") 256 false false
  match entry.2 with
  | .string s =>
    if 64 * 1024 < s.length then
      throw (js "MCP prompt argument " ++ key ++ js " must be a bounded string")
    pure (key, .string s)
  | _ => throw (js "MCP prompt argument " ++ key ++ js " must be a bounded string")

/-- The members of an object that is made by assigning these in turn: integer keys come first, and an
    assignment of a string to `__proto__` makes no member. -/
def assigned (entries : List (JsString × Json)) : List (JsString × Json) :=
  let members := entries.filter fun p => p.1 ≠ js "__proto__"
  (members.filter fun p => isIndex p.1).insertionSort
      (fun p q => numeralValue p.1 ≤ numeralValue q.1) ++
    members.filter fun p => !isIndex p.1

def normalizeArguments (argumentsValue : Option Json) : Except JsString Json :=
  match argumentsValue.getD (.object []) with
  | .object entries => do
    if DEFAULT_MAX_MCP_PROMPT_ARGUMENTS < entries.length then
      throw (js "MCP prompt arguments exceed argument limit")
    let normalized ← (H.collation.sortBy Prod.fst entries).mapM argumentEntry
    pure (.object (assigned normalized))
  | _ => .error (js "MCP prompt arguments must be an object")

structure PromptSource where
  protocol : JsString
  authority : JsString
  promptName : JsString
  argumentsDigest : JsString
  executionAuthority : Bool
  implicitResourceFetch : Bool
  deriving DecidableEq

structure PromptObject where
  type : JsString
  profile : JsString
  objectId : JsString
  digestAlgorithm : JsString
  digest : JsString
  contentType : JsString
  sizeBytes : ℕ
  inlineDataBase64 : JsString
  source : PromptSource
  createdAtUnixMs : ℤ
  deriving DecidableEq

def promptFields (maxPromptBytes maxMessages : ℕ) : List (JsString × Reader) :=
  [(js "description", optional (stringMember (js "MCP prompt description") 8192 true true)),
    (js "messages", required (normalizeMessages H maxPromptBytes maxMessages)),
    (js "_meta", optional normalizeMeta)]

def promptPayload (promptName : JsString) (arguments : Json)
    (members : List (JsString × Option Json)) : Json :=
  .object (record ([(js "profile", some (.string MCP_PROMPT_OBJECT_PROFILE)),
    (js "promptName", some (.string promptName)), (js "arguments", some arguments)] ++ members))

def promptObject (providerAuthority promptName : JsString) (argumentsValue : Option Json)
    (result : Json) (observedAtUnixMs : ℤ) (maxPromptBytes maxMessages : ℕ) :
    Except JsString PromptObject := do
  if asText (result.get (js "resultType")) ≠ some (js "complete") then
    throw (js "MCP prompt materialization requires resultType=complete")
  let normalizedArguments ← normalizeArguments H argumentsValue
  let members ← readFields result (promptFields H maxPromptBytes maxMessages)
  let bytes := stableBytes (promptPayload promptName normalizedArguments members)
  if maxPromptBytes < bytes.length then
    throw (js "MCP prompt exceeds materialization size limit")
  let digest := H.sha256 bytes
  pure
    { type := js "OBJECT"
      profile := MCP_PROMPT_OBJECT_PROFILE
      objectId := js "sha256:" ++ digest
      digestAlgorithm := js "sha256"
      digest
      contentType := js "application/vnd.truyn.mcp-prompt+json"
      sizeBytes := bytes.length
      inlineDataBase64 := base64 bytes
      source :=
        { protocol := js "mcp"
          authority := providerAuthority
          promptName
          argumentsDigest := H.sha256 (stableBytes normalizedArguments)
          executionAuthority := false
          implicitResourceFetch := false }
      createdAtUnixMs := observedAtUnixMs }

def snapshotKey (promptName : JsString) (argumentsValue : Option Json) :
    Except JsString JsString := do
  let args ← normalizeArguments H argumentsValue
  pure (promptName ++ 0 :: H.sha256 (stableBytes args))

/-! ### The store -/

structure PromptSnapshot where
  profile : JsString
  promptName : JsString
  arguments : Json
  object : PromptObject
  changed : Bool
  revision : ℕ
  catalogInvalidatedBeforeRead : Bool
  trustedExecutionAuthority : Bool

structure PromptStore where
  providerAuthority : JsString
  maxPromptBytes : ℕ
  maxMessages : ℕ
  snapshots : List (JsString × PromptSnapshot)
  catalogInvalidated : Bool

def normalizeMcpPromptName (value : Option Json) : Except JsString JsString :=
  boundedString value (js "MCP prompt name") 1024 false false

/-- `store.materialize(promptName, arguments, result)`, where the clock shows `now`; `none` is a time
    that is no integer. -/
def PromptStore.materialize (s : PromptStore) (now : Option ℤ) (promptNameValue argumentsValue : Option Json)
    (result : Json) : Except JsString (PromptSnapshot × PromptStore) := do
  let promptName ← normalizeMcpPromptName promptNameValue
  let key ← snapshotKey H promptName argumentsValue
  if !now.any safeNatural then
    throw (js "clock must return a non-negative safe integer timestamp")
  let object ← promptObject H s.providerAuthority promptName argumentsValue result (now.getD 0)
    s.maxPromptBytes s.maxMessages
  let previous := Maps.get s.snapshots key
  let changed := previous.all fun p => p.object.digest ≠ object.digest
  let revision := match previous with
    | some p => if changed then p.revision + 1 else p.revision
    | none => 1
  let arguments ← normalizeArguments H argumentsValue
  let snapshot : PromptSnapshot :=
    { profile := MCP_PROMPT_OBJECT_PROFILE
      promptName
      arguments
      object
      changed
      revision
      catalogInvalidatedBeforeRead := s.catalogInvalidated
      trustedExecutionAuthority := false }
  pure (snapshot, { s with snapshots := Maps.set key snapshot s.snapshots })

end Truyn.Mcp
