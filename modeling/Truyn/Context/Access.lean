import Truyn.Context.Documents
import Truyn.Schemes.Maps

/-! context:access | who reads a document at the relay

    Documents are kept under their CIDs, so whoever submits the same blocks shares one record. A
    record has owners, who submitted it, and readers, whom an owner named or whom a delta took over
    from its base. Nobody else reads it, in any order of requests (`reads_entitled`). -/

namespace Truyn.Context

/-- The `readers` of a payload: nothing, something that is no array, or an array, whose items are
    strings or `none`. -/
inductive RawReaders
  | absent
  | other
  | list (l : List (Option JsString))

/-- An HTTP status and an error code. -/
abbrev Failure := ℕ × JsString

/-- The other errors are internal ones. -/
def internal {α : Type} : Except JsString α → Except Failure α
  | .ok a => .ok a
  | .error _ => .error (500, js "internal_error")

def contextReaders : RawReaders → Except Failure (List NodeId)
  | .absent => .ok []
  | .other => .error (400, js "invalid_context_readers")
  | .list l =>
    if l.any fun r => r.getD [] = [] then .error (400, js "invalid_context_readers")
    else .ok (setOf (l.filterMap id))

structure Record where
  document : Document
  owners : List NodeId
  readers : List NodeId
  baseCid : Option Cid

def canReadContext (record : Record) (n : NodeId) : Bool := n ∈ record.owners ∨ n ∈ record.readers

/-- `Set.add` -/
def addTo (l : List NodeId) (n : NodeId) : List NodeId := if n ∈ l then l else l ++ [n]

inductive Action
  | manifest
  | select
  | retrieve
  | delta

/-- A handler that awaits the body of its request, after its first checks. -/
inductive Task
  | publish (owner : NodeId)
  | select (node : NodeId) (cid : Cid)
  | retrieve (node : NodeId) (cid : Cid)
  | delta (owner : NodeId) (cid : Cid)
  | done

/-- A body that was read; `verified` tells whether the frame is signed by the node. -/
structure Body where
  verified : Except JsString Unit
  blocks : Option (List RawBlock)
  readers : RawReaders
  baseCid : Option Cid
  ops : Option (List RawOp)
  ids : Option (List (Option JsString))
  query : Option JsString
  topK : Option ℤ

/-- A request, with the node that its bearer token authenticates, and a body that has come. -/
inductive Event
  | publish (node : Option NodeId) (dispatches : Bool)
  | context (node : Option NodeId) (cid : Cid) (action : Action) (dispatches : Bool)
  | body (task : ℕ) (b : Except Failure Body)

inductive Answer
  | refused (f : Failure)
  | saved (d : Document)
  | manifest (d : Document)
  | blocks (cid : Cid) (selected : List DocumentBlock)

/-- The document that an answer tells of. -/
def Answer.tells : Answer → Option Cid
  | .refused _ => none
  | .saved d | .manifest d => some d.cid
  | .blocks cid _ => some cid

/-- What is submitted: by whom, naming whom, and the document that it is a delta of. -/
structure Submission where
  owner : NodeId
  document : Document
  named : RawReaders
  base : Option Document

/-- `submissions` logs what was saved. -/
structure Relay where
  contexts : List (Cid × Record)
  tasks : List Task
  answers : List (NodeId × Answer)
  submissions : List Submission

/-- The ranking of blocks, the highest number of documents. -/
structure Host extends Platform where
  retrieveContextBlocks :
    List DocumentBlock → JsString → ℕ → Except JsString (List DocumentBlock)
  maxContexts : ℕ

/-- The document that a delta makes of another one. -/
def Platform.nextDocument (P : Platform) (d : Document) (ops : Option (List RawOp)) :
    Except JsString Document := do
  let bs ← applyContextDelta P d.blocks ops
  buildContextDocument P (some (bs.map raw))

namespace Relay

variable (H : Host) (s : Relay)

def start : Relay := ⟨[], [], [], []⟩

def answer (n : NodeId) (a : Answer) : Relay := { s with answers := s.answers ++ [(n, a)] }

def await (t : Task) : Relay := { s with tasks := s.tasks ++ [t] }

def finish (task : ℕ) : Relay := { s with tasks := s.tasks.set task .done }

def put (cid : Cid) (r : Record) : Relay := { s with contexts := Maps.set cid r s.contexts }

def log (d : Submission) : Relay := { s with submissions := s.submissions ++ [d] }

/-- A document that is there already gets one more owner, and then its readers. -/
def saveContext (d : Submission) (readers : RawReaders) : Relay × Except Failure Record :=
  let cid := d.document.cid
  match Maps.get s.contexts cid with
  | some existing =>
    let owned := { existing with owners := addTo existing.owners d.owner }
    match contextReaders readers with
    | .error f => ((s.log d).put cid owned, .error f)
    | .ok named =>
      let record := { owned with readers := named.foldl addTo owned.readers }
      ((s.log d).put cid record, .ok record)
  | none =>
    if H.maxContexts ≤ s.contexts.length then (s, .error (503, js "context_capacity_reached"))
    else
      match contextReaders readers with
      | .error f => (s, .error f)
      | .ok named =>
        let record : Record := ⟨d.document, [d.owner], named, d.base.map Document.cid⟩
        ((s.log d).put cid record, .ok record)

/-- A submission is saved for `readers`, and answered. -/
def submit (d : Submission) (readers : RawReaders) : Relay :=
  match s.saveContext H d readers with
  | (t, .ok record) => t.answer d.owner (.saved record.document)
  | (t, .error f) => t.answer d.owner (.refused f)

/-- The readers of a delta: those of its base, and those it names. -/
def inherit (base named : List NodeId) : RawReaders := .list ((setOf (base ++ named)).map some)

/-! ### The handlers -/

/-- `POST /v1/contexts`, up to its body. -/
def publish (node : Option NodeId) (dispatches : Bool) : Relay :=
  match node with
  | none => s.answer [] (.refused (401, js "unauthorized"))
  | some n =>
    if !dispatches then s.answer n (.refused (403, js "context_write_denied"))
    else s.await (.publish n)

/-- The other requests, up to their bodies. -/
def context (node : Option NodeId) (cid : Cid) (action : Action) (dispatches : Bool) : Relay :=
  match node with
  | none => s.answer [] (.refused (401, js "unauthorized"))
  | some n =>
    match Maps.get s.contexts cid with
    | none => s.answer n (.refused (404, js "context_not_found"))
    | some record =>
      match action with
      | .delta =>
        if !dispatches ∨ n ∉ record.owners then
          s.answer n (.refused (403, js "context_owner_required"))
        else s.await (.delta n cid)
      | .manifest =>
        if !canReadContext record n then s.answer n (.refused (403, js "context_forbidden"))
        else s.answer n (.manifest record.document)
      | .select =>
        if !canReadContext record n then s.answer n (.refused (403, js "context_forbidden"))
        else s.await (.select n cid)
      | .retrieve =>
        if !canReadContext record n then s.answer n (.refused (403, js "context_forbidden"))
        else s.await (.retrieve n cid)

def published (owner : NodeId) (b : Body) : Relay :=
  match b.verified with
  | .error reason => s.answer owner (.refused (400, reason))
  | .ok () =>
    match internal (buildContextDocument H.toPlatform b.blocks) with
    | .error f => s.answer owner (.refused f)
    | .ok d => s.submit H ⟨owner, d, b.readers, none⟩ b.readers

def changed (owner : NodeId) (cid : Cid) (b : Body) : Relay :=
  match Maps.get s.contexts cid with
  | none => s
  | some record =>
    match b.verified with
    | .error reason => s.answer owner (.refused (400, reason))
    | .ok () =>
      if b.baseCid ≠ some cid then s.answer owner (.refused (400, js "context_base_cid_mismatch"))
      else
        match internal (H.nextDocument record.document b.ops) with
        | .error f => s.answer owner (.refused f)
        | .ok d =>
          match contextReaders b.readers with
          | .error f => s.answer owner (.refused f)
          | .ok named =>
            s.submit H ⟨owner, d, b.readers, some record.document⟩ (inherit record.readers named)

/-- The blocks with these ids. -/
def selectBlocks (blocks : List DocumentBlock) :
    List (Option JsString) → Except Failure (List DocumentBlock)
  | [] => .ok []
  | id :: ids =>
    match blocks.find? fun b => some b.id = id with
    | none => .error (404, js "context_block_not_found")
    | some b => (selectBlocks blocks ids).map (b :: ·)

def selected (n : NodeId) (cid : Cid) (b : Body) : Relay :=
  match Maps.get s.contexts cid with
  | none => s
  | some record =>
    match b.ids with
    | none => s.answer n (.refused (400, js "invalid_context_selection"))
    | some ids =>
      if ids = [] ∨ 32 < ids.length ∨ none ∈ ids then
        s.answer n (.refused (400, js "invalid_context_selection"))
      else
        match selectBlocks record.document.blocks ids with
        | .error f => s.answer n (.refused f)
        | .ok bs => s.answer n (.blocks cid bs)

def retrieved (n : NodeId) (cid : Cid) (b : Body) : Relay :=
  match Maps.get s.contexts cid with
  | none => s
  | some record =>
    match b.query with
    | none => s.answer n (.refused (400, js "invalid_context_query"))
    | some query =>
      if (trim query).length < 3 ∨ 4000 < query.length then
        s.answer n (.refused (400, js "invalid_context_query"))
      else
        match b.topK with
        | none => s.answer n (.refused (400, js "invalid_context_top_k"))
        | some topK =>
          if topK < 1 ∨ 8 < topK then s.answer n (.refused (400, js "invalid_context_top_k"))
          else
            match internal (H.retrieveContextBlocks record.document.blocks query topK.toNat) with
            | .error f => s.answer n (.refused f)
            | .ok bs => s.answer n (.blocks cid bs)

/-- The rest of a handler, with its body. -/
def goOn (b : Except Failure Body) (t : Task) : Relay :=
  match t, b with
  | .publish owner, .ok b => s.published H owner b
  | .select n cid, .ok b => s.selected n cid b
  | .retrieve n cid, .ok b => s.retrieved H n cid b
  | .delta owner cid, .ok b => s.changed H owner cid b
  | .publish n, .error f | .select n _, .error f | .retrieve n _, .error f | .delta n _, .error f =>
    s.answer n (.refused f)
  | .done, _ => s

def step : Event → Relay
  | .publish node dispatches => s.publish node dispatches
  | .context node cid action dispatches => s.context node cid action dispatches
  | .body task b =>
    match s.tasks[task]? with
    | none => s
    | some t => (s.finish task).goOn H b t

end Relay

def run (H : Host) (es : List Event) : Relay := es.foldl (Relay.step H) .start

end Truyn.Context
