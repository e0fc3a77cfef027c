import Truyn.Ledger.Cosmos

/-! ledger:effects | one intent for each paid effect, taken once and finished once

    Before a provider does paid work for a NEED it takes the effect with the NEED's id
    (`beginEffect`), and it records how the work ended (`finishEffect`). The single-host ledger keeps
    effects in the table `provider_effects`; the multi-host ledger keeps a document for each. -/

namespace Truyn.Ledger
open Cas

inductive EffectStatus | started | completed | failed | unknown
  deriving DecidableEq, Repr

structure Intent where
  id : JsString
  requester : JsString
  provider : JsString
  fingerprint : JsString

structure Finish where
  id : JsString
  provider : JsString
  outcome : EffectStatus
  observedTokens : Option ℤ

/-- What is recorded of an effect. -/
structure Effect where
  requester : JsString
  provider : JsString
  fingerprint : JsString
  status : EffectStatus
  createdAt : Time
  terminalAt : Option Time
  observedTokens : Option ℤ

inductive EffectCall
  | beginEffect (c : Intent)
  | finishEffect (c : Finish)

inductive EffectAnswer
  | begun (acquired : Bool)
  | finished (changed : Bool)
  deriving DecidableEq, Repr

def Intent.effect (c : Intent) (now : Time) : Effect :=
  ⟨c.requester, c.provider, c.fingerprint, .started, now, none, none⟩

/-- The effect is of the same parties and the same work. -/
def Intent.matches (c : Intent) (requester provider fingerprint : JsString) : Bool :=
  requester = c.requester ∧ provider = c.provider ∧ fingerprint = c.fingerprint

/-- `!['completed','failed','unknown'].includes(outcome)`. -/
def invalidOutcome (outcome : EffectStatus) : Bool := outcome = .started

def identityConflict : Fault := ⟨409, "effect_identity_conflict"⟩

/-! ### The single-host ledger -/

namespace Sqlite

structure EffectRow where
  id : JsString
  provider : JsString
  requester : JsString
  fingerprint : JsString
  status : EffectStatus
  created_at : Time
  finished_at : Option Time

/-- The table `provider_effects`. -/
abbrev Effects := List EffectRow

def oneEffect (rows : Effects) (id : JsString) : Option EffectRow := rows.find? fun r => r.id = id

/-- `UPDATE provider_effects SET status=?, finished_at=? WHERE id=? AND provider=? AND
    status='started'`. -/
def updateEffect (c : Finish) (now : Time) (rows : Effects) : Effects :=
  rows.map fun r => if r.id = c.id ∧ r.provider = c.provider ∧ r.status = .started then
    { r with status := c.outcome, finished_at := some now } else r

def beginEffect (maxRecords : ℕ) (c : Intent) (now : Time) (rows : Effects) :
    Except Fault EffectAnswer × Effects :=
  if [c.id, c.provider, c.requester, c.fingerprint].any (· = []) then
    (.error ⟨400, "invalid_effect_intent"⟩, rows)
  else
    match oneEffect rows c.id with
    | some existing =>
      if c.matches existing.requester existing.provider existing.fingerprint then
        (.ok (.begun false), rows)
      else (.error identityConflict, rows)
    | none =>
      if maxRecords ≤ rows.length then (.error ⟨503, "effect_idempotency_capacity_reached"⟩, rows)
      else (.ok (.begun true),
        rows ++ [⟨c.id, c.provider, c.requester, c.fingerprint, .started, now, none⟩])

/-- The provider's token count is no column of the table. -/
def finishEffect (c : Finish) (now : Time) (rows : Effects) :
    Except Fault EffectAnswer × Effects :=
  if invalidOutcome c.outcome then (.error ⟨400, "invalid_effect_outcome"⟩, rows)
  else
    match oneEffect rows c.id with
    | none => (.error ⟨403, "provider_mismatch"⟩, rows)
    | some row =>
      if row.provider ≠ c.provider then (.error ⟨403, "provider_mismatch"⟩, rows)
      else if row.status ≠ .started then (.ok (.finished false), rows)
      else (.ok (.finished true), updateEffect c now rows)

def effectCall (maxRecords : ℕ) (c : EffectCall) (now : Time) (rows : Effects) :
    Except Fault EffectAnswer × Effects :=
  match c with
  | .beginEffect c => beginEffect maxRecords c now rows
  | .finishEffect c => finishEffect c now rows

end Sqlite

/-! ### The multi-host ledger -/

namespace Cosmos

/-- The document of an effect. -/
structure EffectDoc extends Effect where
  logicalId : JsString
  version : ℕ

/-- The options that matter for effects; `bytes` is the size of a document's JSON text. -/
structure EffectConfig where
  maxDocumentBytes : ℕ
  maxCasAttempts : ℕ
  bytes : EffectDoc → ℕ

def packedEffect (cfg : EffectConfig) (doc : EffectDoc) : Except Fault EffectDoc :=
  if cfg.maxDocumentBytes < cfg.bytes doc + 128 then
    .error ⟨503, "lifecycle_document_capacity_reached"⟩
  else .ok doc

def effectKey : EffectCall → JsString
  | .beginEffect c => c.id
  | .finishEffect c => c.id

/-- The count of tokens is a whole number, and it comes with a completed effect only. -/
def invalidMeter (c : Finish) : Bool :=
  c.observedTokens.any fun n => !isSafeInteger n ∨ n < 0 ∨ c.outcome ≠ .completed

def effectPlan (cfg : EffectConfig) (c : EffectCall) (now : Time) :
    Except Fault (Option EffectDoc) :=
  match c with
  | .beginEffect c =>
    if !([c.id, c.requester, c.provider, c.fingerprint].all nonempty) then
      .error ⟨400, "invalid_effect_intent"⟩
    else (packedEffect cfg { c.effect now with logicalId := c.id, version := 1 }).map some
  | .finishEffect c =>
    if invalidOutcome c.outcome then .error ⟨400, "invalid_effect_outcome"⟩
    else if invalidMeter c then .error ⟨400, "invalid_effect_meter"⟩
    else if !nonempty c.id then .error ⟨400, "invalid_lifecycle_id"⟩
    else .ok none

/-- What `finishEffect` makes of an effect. -/
def finish (c : Finish) (now : Time) (e : Effect) : Except Fault (Option Effect) :=
  if e.provider ≠ c.provider then .error ⟨403, "provider_mismatch"⟩
  else if e.status ≠ .started then .ok none
  else .ok (some { e with
    status := c.outcome, terminalAt := some now,
    observedTokens := if c.observedTokens.isSome then c.observedTokens else e.observedTokens })

def effectEdit (cfg : EffectConfig) (c : EffectCall) (now : Time) (doc : EffectDoc) :
    Except Fault (Option EffectDoc) :=
  if doc.logicalId ≠ effectKey c then .error ⟨503, "lifecycle_ledger_invalid_response"⟩
  else
    match c with
    | .beginEffect _ => .ok none
    | .finishEffect c =>
      match finish c now doc.toEffect with
      | .error f => .error f
      | .ok none => .ok none
      | .ok (some e) =>
        (packedEffect cfg { doc with toEffect := e, version := doc.version + 1 }).map some

def effectClient (cfg : EffectConfig) : Client JsString EffectCall Time EffectDoc Fault where
  key := effectKey
  plan := effectPlan cfg
  edit := effectEdit cfg
  retries := cfg.maxCasAttempts - 1
  absent := ⟨404, "lifecycle_not_found"⟩
  duplicate := ⟨409, "duplicate_effect"⟩
  contention := ⟨503, "lifecycle_cas_contention"⟩

/-- A call on the effects of a ledger that nobody else is calling. A taken effect is read again, to
    tell a repeated intent from another one. -/
def effectCall (cfg : EffectConfig) (c : EffectCall) (now : Time)
    (docs : JsString → Option EffectDoc) :
    Except Fault EffectAnswer × (JsString → Option EffectDoc) :=
  let result := (effectClient cfg).perform c now docs
  match c, result.1 with
  | .finishEffect _, .ok p => (.ok (.finished p.1), result.2)
  | .finishEffect _, .error f => (.error f, result.2)
  | .beginEffect _, .ok _ => (.ok (.begun true), result.2)
  | .beginEffect i, .error f =>
    if f.status ≠ 409 then (.error f, result.2)
    else
      match docs i.id with
      | none => (.error ⟨503, "lifecycle_ledger_unavailable"⟩, docs)
      | some existing =>
        if i.matches existing.requester existing.provider existing.fingerprint then
          (.ok (.begun false), docs)
        else (.error identityConflict, docs)

end Cosmos

end Truyn.Ledger
