import Truyn.Discovery.PeerRecords

/-! sdk:quic-dht | what the TypeScript client makes of the records that its peer answers with

    The client has one peer, and throws at the first record that does not verify. -/

namespace Truyn.Sdk
open Checks
open Trust (Value truthy strictEq)

structure PublicKey where
  ed25519 : Bool
  /-- The key as DER. -/
  spki : JsString

/-- What the client uses of its platform, with its own `canonical`. -/
structure Platform extends Dht.Platform where
  canonical : Option Value → Except JsString JsString
  createPublicKey : Option Value → Except JsString PublicKey
  /-- `verify(null, Buffer.from(body), publicKey, Buffer.from(signature, 'base64'))` -/
  verify : JsString → PublicKey → Option Value → Except JsString Bool

inductive Kind
  | peer
  | dht
  deriving DecidableEq

variable (P : Platform)

def digest (v : Option Value) : Except JsString JsString := do
  let body ← P.canonical v
  return P.sha256 body

/-- A value where text is needed. -/
def textOf (value : Option Value) : Except JsString JsString :=
  match value with
  | none => .ok (js "undefined")
  | some v => match Dht.text P.toLanguage v with
    | some s => .ok s
    | none => .error (js "Cannot convert object to primitive value")

def verifier (nodeId pem signature : Option Value) (body : Value) : Except JsString Unit := do
  let publicKey ← P.createPublicKey pem
  if !publicKey.ed25519 ∨
      !strictEq nodeId (some (.string (js "truyn:node:" ++ P.sha256 publicKey.spki))) then
    throw (js "invalid_quic_signed_identity_or_signature")
  let canonical ← P.canonical (some body)
  let valid ← P.verify canonical publicKey signature
  if !valid then throw (js "invalid_quic_signed_identity_or_signature")

/-- The digests of a peer record, or of a record of the DHT. -/
def checkDigests (record : Value) : Kind → Except JsString Unit
  | .peer => do
    let nodeId ← textOf P (record.get "nodeId")
    if !strictEq (record.get "dhtId") (some (.string (P.sha256 nodeId))) ∨
        !Discovery.hasEndpoints record then throw (js "invalid_quic_peer_record")
  | .dht => do
    let nameSpace ← textOf P (record.get "namespace")
    let key ← textOf P (record.get "key")
    if !strictEq (record.get "keyHash") (some (.string (P.sha256 (nameSpace ++ js ":" ++ key)))) then
      throw (js "invalid_quic_dht_digest")
    let value ← digest P (record.get "value")
    if !strictEq (record.get "valueDigest") (some (.string (js "sha256:" ++ value))) then
      throw (js "invalid_quic_dht_digest")

def signedRecord (record : Value) (kind : Kind) (now : ℤ) : Except JsString Value := do
  if !truthy (some record) ∨ !Dht.isObject record then throw (js "invalid_quic_record")
  let peer := kind = .peer
  if !strictEq (record.get "protocol") (some (.string
      (if peer then js "truyn-peer-record-v1" else js "truyn-kademlia-v1"))) then
    throw (js "invalid_quic_record_protocol")
  let unsigned := Dht.without ["signature", "publicKey"] record
  let id ← digest P (some (Dht.without ["recordId"] unsigned))
  if !strictEq (record.get "recordId") (some (.string
      ((if peer then js "truyn:peer:" else js "truyn:dht:") ++ id))) then
    throw (js "invalid_quic_record_id")
  verifier P (record.get (if peer then "nodeId" else "publisherNodeId")) (record.get "publicKey")
    (record.get "signature") unsigned
  let expiresAt ← textOf P (record.get "expiresAt")
  if !(P.parseDate expiresAt).any fun expires => now < expires then
    throw (js "quic_record_expired")
  checkDigests P record kind
  return record

/-- `records.map`, with the time at which each is checked. -/
def signedRecords (kind : Kind) (clock : ℕ → ℤ) : ℕ → List Value → Except JsString (List Value)
  | _, [] => .ok []
  | i, record :: records => do
    let first ← signedRecord P record kind (clock i)
    let rest ← signedRecords kind clock (i + 1) records
    return first :: rest

def methods : List JsString :=
  [js "dht.ping", js "dht.find-node", js "peer.announce", js "dht.store", js "dht.find-value"]

/-- `rpc`, with what the connection gives for the request. -/
def rpc (method : JsString) (response : Except JsString Value) : Except JsString Value := do
  if method ∉ methods then throw (js "unsupported_quic_dht_rpc")
  let response ← response
  if !strictEq (response.get "ok") (some (.bool true)) then
    let error ← textOf P (response.get "error")
    throw (js "quic_rpc_denied:" ++ error)
  match response.get "result" with
  | some result =>
    if Dht.isObject result then return result else throw (js "invalid_quic_rpc_reply")
  | none => throw (js "invalid_quic_rpc_reply")

/-- `response` and `clock` are what the peer and the clock do. -/
def findValue (nameSpace key : JsString) (response : Except JsString Value) (clock : ℕ → ℤ) :
    Except JsString (List Value) := do
  if nameSpace = [] ∨ key = [] then throw (js "quic_find_value_query_required")
  let result ← rpc P (js "dht.find-value") response
  match result.get "records" with
  | some (.array records) =>
    if 256 < records.length then throw (js "invalid_quic_dht_set")
    else signedRecords P .dht clock 0 records
  | _ => throw (js "invalid_quic_dht_set")

/-- The records that a reply of the peer holds. -/
def repliedRecords (response : Except JsString Value) : List Value :=
  match response with
  | .ok response =>
    match (response.get "result").bind (Value.get "records") with
    | some (.array records) => records
    | _ => []
  | .error _ => []

variable {P} {nameSpace key : JsString} {response : Except JsString Value} {clock : ℕ → ℤ}
  {records : List Value}

theorem signedRecord_ok {record v : Value} {kind : Kind} {now : ℤ}
    (h : signedRecord P record kind now = .ok v) : v = record := by
  simp only [signedRecord, guard_ok, bind_ok, pure_ok] at h
  obtain ⟨-, -, -, -, -, -, -, -, -, -, -, -, heq⟩ := h
  exact heq.symm

theorem signedRecords_ok {kind : Kind} {l : List Value} {i : ℕ}
    (h : signedRecords P kind clock i l = .ok records) : records = l := by
  induction l generalizing i records with
  | nil =>
    cases h
    rfl
  | cons record l ih =>
    simp only [signedRecords, bind_ok, pure_ok] at h
    obtain ⟨first, hfirst, rest, hrest, rfl⟩ := h
    rw [signedRecord_ok hfirst, ih hrest]

theorem rpc_ok {method : JsString} {result : Value} (h : rpc P method response = .ok result) :
    ∃ answer, response = .ok answer ∧ answer.get "result" = some result := by
  simp only [rpc, guard_ok, bind_ok] at h
  obtain ⟨-, answer, hanswer, h⟩ := h
  refine ⟨answer, hanswer, ?_⟩
  split at h
  · simp only [bind_ok] at h
    obtain ⟨error, -, passed, hthrow, -⟩ := h
    cases hthrow
  · cases hresult : answer.get "result" with
    | none =>
      rw [hresult] at h
      cases h
    | some found =>
      simp only [hresult] at h
      split at h
      · rw [pure_ok.mp h]
      · cases h

/-- All the records of the reply are given, or it throws. -/
theorem findValue_ok (h : findValue P nameSpace key response clock = .ok records) :
    records = repliedRecords response := by
  simp only [findValue, guard_ok, bind_ok] at h
  obtain ⟨-, result, hrpc, h⟩ := h
  obtain ⟨answer, hanswer, hresult⟩ := rpc_ok hrpc
  split at h
  · rename_i l hl
    rw [throw_ok] at h
    simp only [repliedRecords, hanswer, hresult, Option.bind_some, hl]
    exact signedRecords_ok h.2
  · cases h

end Truyn.Sdk
