import Truyn.Trust.Receipts
import Truyn.Js.Dates
import Truyn.Schemes.Checks

/-! trust:transparency | entries that a log takes, and the chain that they make

    An entry is digested without its key, its signature and the digest itself. A log takes an entry
    that verifies, has the next number and names the digest of the last one. So stored entries are a
    `Chain`, and a chain is known by its head, but for keys and signatures (`chain_of_head`). -/

namespace Truyn.Trust
open Checks

/-- The host of a log: what `Number` makes of strings, arrays and objects, and the sorting of
    revocations by target, which throws where a target that is not a string is compared. -/
structure LogHost extends Platform where
  numberOf : Value → Option ℚ
  sortRevocations : List Value → Option (List Value)

/-- `Number(value)`; `none` is `NaN`. -/
def LogHost.toNumber (H : LogHost) : Option Value → Option ℚ
  | none => none
  | some .null => some 0
  | some (.bool b) => some (if b then 1 else 0)
  | some (.number x) => some x
  | some value => H.numberOf value

def zeroHash : JsString := js "sha256:" ++ List.replicate 64 48

/-- `this.sourceOwnerId`, and `this.logId` from it. -/
structure Log where
  sourceOwnerId : JsString

def transparencyLogId (P : Platform) (sourceOwnerId : JsString) : JsString :=
  js "truyn:transparency:" ++ P.hex (.object [(js "sourceOwnerId", .string (trim sourceOwnerId))])

def Log.logId (log : Log) (P : Platform) : JsString := transparencyLogId P log.sourceOwnerId

/-! ### Entries -/

def unsignedEntry : Value → Value
  | .object members => .object (members.filter fun m =>
      m.1 ∉ [js "signature", js "publicKey", js "entryHash"])
  | value => value

def eventTypes : List JsString :=
  [js "ROOT", js "DELEGATE", js "LIFECYCLE", js "REVOKE", js "ROTATE"]

/-- `nodeIdFromPublicKey(value)`. -/
def nodeIdOf (P : Platform) : Option Value → Option JsString
  | some (.string s) => P.nodeIdFromPublicKey s
  | _ => none

/-- `verifyValue(unsigned, signature, publicKey)`, which is false for what are no strings. -/
def verifyWith (P : Platform) (unsigned : Value) : Option Value → Option Value → Bool
  | some (.string signature), some (.string publicKey) => P.verifyValue unsigned signature publicKey
  | _, _ => false

def verifyTransparencyEntry (P : Platform) (entry : Value)
    (expectedLogId expectedSourceOwnerId : JsString) : Except String Unit := do
  if !(["protocol", "logId", "sourceOwnerId", "sequence", "eventType", "signerNodeId", "publicKey",
      "signature", "entryHash"].all fun field => truthy (entry.get field)) then
    throw "transparency_entry_missing_field"
  if !strictEq (entry.get "protocol") (some (.string (js "truyn-transparency-entry-v2"))) ∨
      !strictEq (entry.get "version") (some (.number 2)) then
    throw "transparency_entry_protocol_mismatch"
  if !(eventTypes.any fun type => strictEq (entry.get "eventType") (some (.string type))) then
    throw "transparency_entry_event_type_invalid"
  if !expectedLogId.isEmpty ∧ !strictEq (entry.get "logId") (some (.string expectedLogId)) then
    throw "transparency_entry_log_mismatch"
  if !expectedSourceOwnerId.isEmpty ∧
      !strictEq (entry.get "sourceOwnerId") (some (.string expectedSourceOwnerId)) then
    throw "transparency_entry_owner_mismatch"
  match nodeIdOf P (entry.get "publicKey") with
  | none => throw "transparency_entry_signer_key_mismatch"
  | some nodeId =>
    if !strictEq (some (.string nodeId)) (entry.get "signerNodeId") then
      throw "transparency_entry_signer_key_mismatch"
    let unsigned := unsignedEntry entry
    if !strictEq (some (.string (P.digest unsigned))) (entry.get "entryHash") then
      throw "transparency_entry_hash_mismatch"
    if !verifyWith P unsigned (entry.get "signature") (entry.get "publicKey") then
      throw "transparency_entry_signature_invalid"

/-! ### The list of entries -/

/-- `previous?.sequence || 0`. -/
def lastSequence (entries : List Value) : ℚ :=
  match entries.getLast?.bind (Value.get "sequence") with
  | some (.number x) => x
  | _ => 0

/-- `previous?.entryHash || ZERO_HASH`. -/
def headHash (entries : List Value) : JsString :=
  match entries.getLast?.bind (Value.get "entryHash") with
  | some (.string s) => if s.isEmpty then zeroHash else s
  | _ => zeroHash

/-- `this._entries[entry.sequence - 1]`. -/
def existingAt (H : LogHost) (entries : List Value) (entry : Value) : Option Value :=
  (H.toNumber (entry.get "sequence")).bind fun x =>
    if x.den = 1 ∧ 1 ≤ x.num then entries[x.num.toNat - 1]? else none

/-- One turn of the loop of `ingest`: whether the entry is to be pushed. -/
def examine (H : LogHost) (log : Log) (entries : List Value) (entry : Value) :
    Except String Bool := do
  verifyTransparencyEntry H.toPlatform entry (log.logId H.toPlatform) log.sourceOwnerId
  match existingAt H entries entry with
  | some existing =>
    if !strictEq (existing.get "entryHash") (entry.get "entryHash") then
      throw "transparency_fork_detected"
    return false
  | none =>
    if !strictEq (entry.get "sequence") (some (.number (lastSequence entries + 1))) ∨
        !strictEq (entry.get "previousHash") (some (.string (headHash entries))) then
      throw "transparency_log_gap_or_chain_mismatch"
    return true

/-- `ingest(entries, { persist: false })`: the entries afterwards, and what was thrown. -/
def ingestAll (H : LogHost) (log : Log) (entries : List Value) : List Value →
    List Value × Except String Unit
  | [] => (entries, .ok ())
  | entry :: rest =>
    match examine H log entries entry with
    | .error reason => (entries, .error reason)
    | .ok true => ingestAll H log (entries ++ [entry]) rest
    | .ok false => ingestAll H log entries rest

/-! ### Heads -/

structure Head where
  sequence : ℚ
  headHash : JsString
  revocationStateDigest : JsString

/-- `{ targetId, entryHash, sequence }`; a target that is `undefined` cannot be digested. -/
def revocation (entry : Value) : Except String Value := do
  let entryHash ← defined (entry.get "entryHash")
  let sequence ← defined (entry.get "sequence")
  let targetId ← defined (entry.get "targetId")
  pure (.object [(js "entryHash", entryHash), (js "sequence", sequence), (js "targetId", targetId)])

/-- `revocationState().stateDigest`. -/
def stateDigest (H : LogHost) (log : Log) (entries : List Value) : Except String JsString := do
  let revocations ← (entries.filter fun entry =>
    strictEq (entry.get "eventType") (some (.string (js "REVOKE")))).mapM revocation
  match H.sortRevocations revocations with
  | none => throw "Cannot read properties of null (reading 'localeCompare')"
  | some sorted => pure (H.digest (.object [(js "logId", .string (log.logId H.toPlatform)),
      (js "revocations", .array sorted), (js "sequence", .number (lastSequence entries))]))

def head (H : LogHost) (log : Log) (entries : List Value) : Except String Head := do
  let revocationStateDigest ← stateDigest H log entries
  pure ⟨lastSequence entries, headHash entries, revocationStateDigest⟩

/-! ### New entries -/

structure AppendRequest where
  identity : Identity
  eventType : JsString
  targetId : Value := .null
  payload : Value := .null
  createdAt : JsString

/-- What `append` makes. -/
def newEntry (H : LogHost) (log : Log) (entries : List Value) (r : AppendRequest) :
    Except String Value := do
  if r.identity.nodeId.isEmpty ∨ r.identity.publicKeyPem.isEmpty ∨ r.identity.privateKeyPem.isEmpty ∨
      H.nodeIdFromPublicKey r.identity.publicKeyPem ≠ some r.identity.nodeId then
    throw "transparency entry signer identity is invalid"
  if r.eventType ∉ eventTypes then throw "transparency event type is invalid"
  if r.eventType = js "REVOKE" ∧ !(match r.targetId with
      | .string s => !s.isEmpty
      | _ => false) then throw "revocation targetId is required"
  match H.getTime r.createdAt with
  | none => throw "Invalid time value"
  | some created =>
    let payloadDigest := match r.payload with
      | .null => Value.null
      | payload => .string (H.digest payload)
    let createdAt := (js "createdAt", Value.string (toISOString created))
    let eventType := (js "eventType", Value.string r.eventType)
    let logId := (js "logId", Value.string (log.logId H.toPlatform))
    let upToProtocol := [(js "payload", r.payload), (js "payloadDigest", payloadDigest),
      (js "previousHash", .string (headHash entries)),
      (js "protocol", .string (js "truyn-transparency-entry-v2"))]
    let sequence := (js "sequence", Value.number (lastSequence entries + 1))
    let others := [(js "signerNodeId", .string r.identity.nodeId),
      (js "sourceOwnerId", .string log.sourceOwnerId), (js "targetId", r.targetId),
      (js "version", .number 2)]
    let unsigned : Value :=
      .object ([createdAt, eventType, logId] ++ upToProtocol ++ [sequence] ++ others)
    pure (.object ([createdAt, (js "entryHash", .string (H.digest unsigned)), eventType, logId] ++
      upToProtocol ++ [(js "publicKey", .string r.identity.publicKeyPem), sequence,
        (js "signature", .string (H.signValue unsigned r.identity.privateKeyPem))] ++ others))

/-! ### Chains -/

variable {H : LogHost} {log : Log} {l m : List Value} {e f : Value}

variable {a : Option Value} {s : JsString} {P : Platform}

@[simp] theorem strictEq_string :
    strictEq a (some (.string s)) = true ↔ a = some (.string s) := by
  cases a with
  | none => simp [strictEq]
  | some a => cases a <;> simp [strictEq]

@[simp] theorem strictEq_number {x : ℚ} :
    strictEq a (some (.number x)) = true ↔ a = some (.number x) := by
  cases a with
  | none => simp [strictEq]
  | some a => cases a <;> simp [strictEq]

theorem strictEq_of_string (h : strictEq (some (.string s)) a = true) : a = some (.string s) := by
  cases a with
  | none => simp [strictEq] at h
  | some a => cases a <;> simp [strictEq] at h ⊢; exact h.symm

/-- A valid entry carries the digest of what is signed. -/
theorem entryHash_of_valid {logId owner : JsString}
    (h : verifyTransparencyEntry P e logId owner = .ok ()) :
    e.get "entryHash" = some (.string (P.digest (unsignedEntry e))) := by
  unfold verifyTransparencyEntry at h
  cases hn : nodeIdOf P (e.get "publicKey") with
  | none =>
    rw [hn] at h
    simp only [guard_ok] at h
    exact absurd h.2.2.2.2.2 (by simp [throw, throwThe, MonadExceptOf.throw])
  | some nodeId =>
    rw [hn] at h
    simp only [guard_ok, last_guard_ok] at h
    obtain ⟨-, -, -, -, -, -, hhash, -⟩ := h
    exact strictEq_of_string (by simpa using hhash)

/-- The entry is the next one of the list. -/
structure Fits (H : LogHost) (log : Log) (l : List Value) (e : Value) : Prop where
  verified : verifyTransparencyEntry H.toPlatform e (log.logId H.toPlatform) log.sourceOwnerId =
    .ok ()
  sequence : e.get "sequence" = some (.number (l.length + 1))
  previousHash : e.get "previousHash" = some (.string (headHash l))

/-- Numbered from 1, each with the digest of the one before it. -/
inductive Chain (H : LogHost) (log : Log) : List Value → Prop
  | nil : Chain H log []
  | snoc {l : List Value} {e : Value} : Chain H log l → Fits H log l e → Chain H log (l ++ [e])

theorem digest_ne_nil {v : Value} : P.digest v ≠ [] := by
  have hkind : js "sha256:" ≠ [] := by decide
  rw [Platform.digest]
  exact List.append_ne_nil_of_left_ne_nil hkind _

theorem Fits.headHash (h : Fits H log l e) :
    headHash (l ++ [e]) = H.digest (unsignedEntry e) := by
  have hhash := entryHash_of_valid h.verified
  simp [Trust.headHash, hhash, digest_ne_nil]

theorem Chain.lastSequence (h : Chain H log l) : lastSequence l = l.length := by
  cases h with
  | nil => rfl
  | snoc _ hfits => simp [Trust.lastSequence, hfits.sequence]

theorem Chain.of_append (h : Chain H log (l ++ m)) : Chain H log l := by
  induction m using List.reverseRecOn with
  | nil => simpa using h
  | append_singleton m e ih =>
    rw [← List.append_assoc] at h
    generalize hk : l ++ m ++ [e] = k at h
    cases h with
    | nil => simp at hk
    | snoc hl _ =>
      obtain ⟨rfl, -⟩ := List.append_inj' hk rfl
      exact ih hl

theorem Chain.last (h : Chain H log (l ++ [e])) : Fits H log l e := by
  generalize hk : l ++ [e] = k at h
  cases h with
  | nil => simp at hk
  | snoc _ hfits =>
    obtain ⟨rfl, hlast⟩ := List.append_inj' hk rfl
    cases hlast
    exact hfits

/-- The loop pushes what fits, and nothing else. -/
theorem existingAt_none (h : e.get "sequence" = some (.number (l.length + 1))) :
    existingAt H l e = none := by
  have hcast : ((l.length : ℚ) + 1) = ((l.length + 1 : ℕ) : ℚ) := by push_cast; rfl
  rw [existingAt, h, LogHost.toNumber, hcast, Option.bind_some, Rat.den_natCast, Rat.num_natCast]
  split
  · refine List.getElem?_eq_none ?_
    omega
  · rfl

theorem examine_push (hl : Chain H log l) : examine H log l e = .ok true ↔ Fits H log l e := by
  unfold examine
  constructor
  · intro h
    obtain ⟨u, hv, h⟩ := bind_ok.mp h
    cases hx : existingAt H l e with
    | some existing =>
      rw [hx] at h
      simp only [guard_ok] at h
      exact absurd h.2 (by simp [pure, Except.pure])
    | none =>
      rw [hx] at h
      simp only [guard_ok] at h
      obtain ⟨hfits, -⟩ := h
      simp only [Bool.not_eq_true', not_or, Bool.not_eq_false, strictEq_number, strictEq_string,
        hl.lastSequence] at hfits
      exact ⟨hv, hfits.1, hfits.2⟩
  · intro h
    refine bind_ok.mpr ⟨(), h.verified, ?_⟩
    rw [existingAt_none h.sequence]
    refine guard_ok.mpr ⟨?_, rfl⟩
    simp [hl.lastSequence, h.sequence, h.previousHash]

/-! ### Equal heads -/

theorem get_unsignedEntry {field : String}
    (h : js field ∉ [js "signature", js "publicKey", js "entryHash"]) :
    (unsignedEntry e).get field = e.get field := by
  cases e with
  | object members =>
    show ((members.filter _).find? _).map _ = (members.find? _).map _
    rw [List.find?_filter]
    refine congrArg _ (List.find?_congr fun x _ => ?_)
    by_cases hx : x.1 = js field
    · simpa [hx] using h
    · simp [hx]
  | _ => rfl

/-- The digests of these entries do not collide, and none is the hash of no entry. -/
structure Distinct (P : Platform) (l : List Value) : Prop where
  injective : ∀ e ∈ l, ∀ f ∈ l, P.digest (unsignedEntry e) = P.digest (unsignedEntry f) →
    unsignedEntry e = unsignedEntry f
  nonzero : ∀ e ∈ l, P.digest (unsignedEntry e) ≠ zeroHash

theorem Distinct.mono {k : List Value} (h : Distinct P l) (hsub : ∀ e ∈ k, e ∈ l) :
    Distinct P k :=
  ⟨fun e he f hf => h.injective e (hsub e he) f (hsub f hf), fun e he => h.nonzero e (hsub e he)⟩

/-- KNOWN BY ITS HEAD: chains that end in one hash have one content. -/
theorem chain_of_head {log' : Log} (hl : Chain H log l) (hm : Chain H log' m)
    (hd : Distinct H.toPlatform (l ++ m)) (h : headHash l = headHash m) :
    l.map unsignedEntry = m.map unsignedEntry := by
  induction hl generalizing m with
  | nil =>
    cases hm with
    | nil => rfl
    | @snoc m f _ hf =>
      rw [hf.headHash] at h
      exact absurd h.symm (hd.nonzero f (by simp))
  | @snoc l e hl he ih =>
    cases hm with
    | nil =>
      rw [he.headHash] at h
      exact absurd h (hd.nonzero e (by simp))
    | @snoc m f hm hf =>
      rw [he.headHash, hf.headHash] at h
      have heq := hd.injective e (by simp) f (by simp) h
      have hprevious : some (Value.string (headHash l)) = some (.string (headHash m)) := by
        rw [← he.previousHash, ← hf.previousHash, ← get_unsignedEntry (e := e) (by decide),
          ← get_unsignedEntry (e := f) (by decide), heq]
      have hheads : headHash l = headHash m := by simpa using hprevious
      have hrest := ih hm (hd.mono fun x hx => by
        rcases List.mem_append.mp hx with hx | hx <;> simp [hx]) hheads
      rw [List.map_append, List.map_append, hrest, List.map_singleton, List.map_singleton, heq]

/-! ### Reading a file -/

theorem ingestAll_chain (h : Chain H log (l ++ m)) :
    Chain H log l → ingestAll H log l m = (l ++ m, .ok ()) := by
  induction m generalizing l with
  | nil => simp [ingestAll]
  | cons e m ih =>
    intro hl
    rw [List.append_cons] at h
    have hfits := h.of_append.last
    rw [ingestAll, (examine_push hl).mpr hfits]
    simpa using ih h (hl.snoc hfits)

theorem ingestAll_keeps (hl : Chain H log l) : Chain H log (ingestAll H log l m).1 := by
  induction m generalizing l with
  | nil => exact hl
  | cons e m ih =>
    rw [ingestAll]
    cases hx : examine H log l e with
    | error reason => exact hl
    | ok push =>
      cases push with
      | true => exact ih (hl.snoc ((examine_push hl).mp hx))
      | false => exact ih hl

end Truyn.Trust
