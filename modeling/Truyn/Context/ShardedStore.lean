import Truyn.Context.Holders
import Truyn.Js.Parse
import Truyn.Schemes.Lanes
import Truyn.Schemes.Maps
import Truyn.Schemes.Pools

/-! context:shardedstore | sharded-semantic-index-store.js, vectors in shard files that are read, added to
    and written as a whole

    The writes of a shard take turns, and each reads the file that the one before it left: a vector that
    is stored stays what it is, and whoever saved one finds it in every later load. A shard file says
    nothing of the model that its vectors come from. -/

namespace Truyn.ShardedStore

open Pools Checks

abbrev ShardId := JsString

/-- `keyHash` is SHA-256, in hexadecimal digits. -/
structure Options where
  shardPrefixLength : ℕ
  ioConcurrency : ℕ
  keyHash : JsString → JsString
  prefix_bounds : 1 ≤ shardPrefixLength ∧ shardPrefixLength ≤ 4
  concurrency_bounds : 1 ≤ ioConcurrency ∧ ioConcurrency ≤ 64

def Options.shardId (O : Options) (cid : JsString) : ShardId :=
  (O.keyHash cid).take O.shardPrefixLength

/-! ### Entries -/

structure Entry where
  cid : JsString
  vector : List NumberText

def vectorJson (vector : List NumberText) : Json := .array (vector.map .number)

def assertBlockCid : Option Json → Except JsString JsString
  | some (.string cid) =>
    if (js "truyn:ctxb:").isPrefixOf cid then .ok cid
    else .error (js "semantic index block CID is required")
  | _ => .error (js "semantic index block CID is required")

def finite : Json → Option NumberText
  | .number n => some n
  | _ => none

def assertVector : Option Json → Except JsString (List NumberText)
  | some (.array (v :: l)) =>
    match (v :: l).mapM finite with
    | some vector => .ok vector
    | none => .error (js "semantic index vector is invalid")
  | _ => .error (js "semantic index vector is invalid")

def entryOf (entry : Json) : Except JsString Entry := do
  let cid ← assertBlockCid (entry.get (js "cid"))
  let vector ← assertVector (entry.get (js "vector"))
  return ⟨cid, vector⟩

def normalizeVectorEntries : Json → Except JsString (List Entry)
  | .array entries => entries.mapM entryOf
  | _ => .error (js "semantic index vector entries must be an array")

def normalizeBlockCids : Json → Except JsString (List JsString)
  | .array blockCids => blockCids.mapM fun cid => assertBlockCid (some cid)
  | _ => .error (js "semantic index block CIDs must be an array")

/-! ### Shards -/

/-- A file is known by what `JSON.parse` makes of its text. -/
inductive File
  | missing
  | broken
  | holds (record : Json)

def isOne : Option Json → Bool
  | some (.number n) => n.text = js "1"
  | _ => false

/-- A record that is one of this shard, and its `vectors`. -/
structure Shard where
  id : ShardId
  record : List (JsString × Json)
  vectors : List (JsString × Json)
  storeVersion : isOne (Maps.get record (js "storeVersion")) = true
  shardVersion : isOne (Maps.get record (js "shardVersion")) = true
  shard : isString (Maps.get record (js "shard")) id = true

def fresh (id : ShardId) : Shard where
  id := id
  record := [(js "storeVersion", .number (.ofNat 1)), (js "shardVersion", .number (.ofNat 1)),
    (js "shard", .string id), (js "vectors", .object [])]
  vectors := []
  storeVersion := rfl
  shardVersion := rfl
  shard := by simp [Maps.get, isString, asText, js, utf16]

/-- `record` may be `null`, or anything that JSON can write. -/
def normalizeShard (record : Json) (id : ShardId) : Except JsString Shard :=
  if record.truthy = false then .ok (fresh id)
  else
    match record, record.get (js "vectors") with
    | .object m, some (.object vectors) =>
      if h : isOne (Maps.get m (js "storeVersion")) = true ∧
          isOne (Maps.get m (js "shardVersion")) = true ∧
          isString (Maps.get m (js "shard")) id = true then
        .ok ⟨id, m, vectors, h.1, h.2.1, h.2.2⟩
      else .error (js "semantic_index_vector_shard_corrupt")
    | _, _ => .error (js "semantic_index_vector_shard_corrupt")

def Shard.toJson (shard : Shard) : Json :=
  .object (Maps.set (js "vectors") (.object shard.vectors) shard.record)

/-- What `atomicWrite` leaves. -/
def written (shard : Shard) : File :=
  match Json.parse shard.toJson.text with
  | some record => .holds record
  | none => .broken

/-- `shard.vectors[cid]`, if it is truthy. -/
def Shard.vector (shard : Shard) (cid : JsString) : Option Json :=
  (Maps.get shard.vectors cid).filter Json.truthy

def addVector (shard : Shard) (e : Entry) : Except JsString (Shard × Bool) :=
  match shard.vector e.cid with
  | some v => (assertVector (some v)).map fun _ => (shard, false)
  | none => .ok ({ shard with vectors := Maps.set e.cid (vectorJson e.vector) shard.vectors }, true)

/-- The loop of `saveVectors`: the shard, and whether it has changed. -/
def addVectors : Shard → List Entry → Except JsString (Shard × Bool)
  | shard, [] => .ok (shard, false)
  | shard, e :: additions => do
    let (shard', added) ← addVector shard e
    let (shard'', changed) ← addVectors shard' additions
    return (shard'', added || changed)

/-- The loop of `loadVectors`. -/
def collectVectors (shard : Shard) : List JsString → List (JsString × List NumberText) →
    Except JsString (List (JsString × List NumberText))
  | [], result => .ok result
  | cid :: cids, result =>
    match shard.vector cid with
    | none => collectVectors shard cids result
    | some v => do
      let vector ← assertVector (some v)
      collectVectors shard cids (Maps.set cid vector result)

/-! ### The store -/

/-- How far the operation of a write has come. -/
inductive Operation
  | pending
  | loaded (shard : Shard)
  | done (ok : Bool)

/-- The files, and every call that there has been. The tasks of saves, the flights and the operations
    are numbered alike. -/
structure State where
  files : ShardId → File
  saves : Calls (ShardId × List Entry) := {}
  shardFlights : Lanes.Queue ShardId := {}
  operations : List Operation := []
  loads : Calls (ShardId × List JsString) := {}
  results : ℕ → List (JsString × List NumberText) := fun _ => []

/-- `ok` says whether the file system does its part. -/
def loadShard (file : File) (id : ShardId) (ok : Bool) : Option Shard :=
  if ok then
    match file with
    | .missing => (normalizeShard .null id).toOption
    | .broken => none
    | .holds record => (normalizeShard record id).toOption
  else none

def enqueueShardWrite (s : State) (id : ShardId) : State :=
  { s with
    shardFlights := s.shardFlights.enter id
    operations := s.operations ++ [.pending] }

def enqueueAll (s : State) (begun : List (ShardId × List Entry)) : State :=
  begun.foldl (fun s g => enqueueShardWrite s g.1) s

variable (O : Options)

def groupEntries (entries : List Entry) : List (ShardId × List Entry) :=
  (entries.map fun e => (O.shardId e.cid, e)).foldl (fun groups x => collect groups x.1 x.2) []

def groupCids (cids : List JsString) : List (ShardId × List JsString) :=
  (cids.map fun cid => (O.shardId cid, cid)).foldl (fun groups x => collect groups x.1 x.2) []

def saveVectors (s : State) (entries : Json) : Except JsString State := do
  let normalized ← normalizeVectorEntries entries
  let grouped := groupEntries O normalized
  return enqueueAll { s with saves := s.saves.call O.ioConcurrency grouped }
    (grouped.take O.ioConcurrency)

def loadVectors (s : State) (blockCids : Json) : Except JsString State := do
  let cids ← normalizeBlockCids blockCids
  return { s with loads := s.loads.call O.ioConcurrency (groupCids O cids) }

/-- A write takes its turn, or its promise is settled. -/
def flight (s : State) (o : ℕ) : Option State :=
  match s.shardFlights.entries[o]? with
  | some ⟨_, _, .waiting⟩ | some ⟨_, _, .finished⟩ =>
    (s.shardFlights.advance o).map fun q => { s with shardFlights := q }
  | _ => none

def finish (s : State) (o : ℕ) (ok : Bool) : Option State :=
  (s.shardFlights.advance o).map fun q =>
    { s with shardFlights := q, operations := s.operations.set o (.done ok) }

/-- Up to the write, or to the end if nothing has changed. -/
def readShard (s : State) (o : ℕ) (ok : Bool) : Option State :=
  match s.shardFlights.entries[o]?, s.operations[o]?, s.saves.tasks[o]? with
  | some ⟨id, _, .working⟩, some .pending, some t =>
    match (loadShard (s.files id) id ok).bind fun shard => (addVectors shard t.work.2).toOption with
    | none => finish s o false
    | some (_, false) => finish s o true
    | some (shard, true) => some { s with operations := s.operations.set o (.loaded shard) }
  | _, _, _ => none

/-- The file is renamed to its place, or not. -/
def writeShard (s : State) (o : ℕ) (ok : Bool) : Option State :=
  match s.shardFlights.entries[o]?, s.operations[o]? with
  | some ⟨id, _, .working⟩, some (.loaded shard) =>
    finish { s with files := if ok then Function.update s.files id (written shard) else s.files } o ok
  | _, _ => none

/-- The `finally` of `enqueueShardWrite`, and what its promise becomes. -/
def release (s : State) (o : ℕ) : Option State :=
  match s.shardFlights.entries[o]?, s.operations[o]?, s.saves.tasks[o]? with
  | some ⟨_, _, .settled⟩, some (.done ok), some ⟨_, _, none, _⟩ =>
    some { s with shardFlights := s.shardFlights.forget o, saves := s.saves.settle o ok }
  | _, _, _ => none

def saveGoesOn (s : State) (o : ℕ) : Option State :=
  (s.saves.resume o).map fun r => enqueueAll { s with saves := r.1 } r.2.toList

def readVectors (s : State) (r : ℕ) (ok : Bool) : Option State :=
  match s.loads.tasks[r]? with
  | some ⟨owner, (id, cids), none, _⟩ =>
    match (loadShard (s.files id) id ok).bind fun shard =>
      (collectVectors shard cids (s.results owner)).toOption with
    | some result =>
      some { s with
        results := Function.update s.results owner result
        loads := s.loads.settle r true }
    | none => some { s with loads := s.loads.settle r false }
  | _ => none

def loadGoesOn (s : State) (r : ℕ) : Option State :=
  (s.loads.resume r).map fun p => { s with loads := p.1 }

/-- Calls, and the points at which calls go on. -/
inductive Event
  | saveVectors (entries : Json)
  | loadVectors (blockCids : Json)
  | flight (write : ℕ)
  | readShard (write : ℕ) (ok : Bool)
  | writeShard (write : ℕ) (ok : Bool)
  | release (write : ℕ)
  | saveGoesOn (write : ℕ)
  | readVectors (read : ℕ) (ok : Bool)
  | loadGoesOn (read : ℕ)

/-- A call that is refused changes nothing. -/
def step (s : State) : Event → Option State
  | .saveVectors entries => some ((saveVectors O s entries).toOption.getD s)
  | .loadVectors blockCids => some ((loadVectors O s blockCids).toOption.getD s)
  | .flight o => flight s o
  | .readShard o ok => readShard s o ok
  | .writeShard o ok => writeShard s o ok
  | .release o => release s o
  | .saveGoesOn o => saveGoesOn s o
  | .readVectors r ok => readVectors s r ok
  | .loadGoesOn r => loadGoesOn s r

def run : State → List Event → Option State
  | s, [] => some s
  | s, ev :: evs => (step O s ev).bind fun s' => run s' evs

/-! ### Shards and their files -/

theorem mapM_finite {l : List Json} {vector : List NumberText} (h : l.mapM finite = some vector) :
    l = vector.map .number := by
  induction l generalizing vector with
  | nil =>
    cases h
    rfl
  | cons v l ih =>
    simp only [List.mapM_cons, bind, Option.bind_eq_some_iff, pure, Option.some.injEq] at h
    obtain ⟨n, hn, ns, hns, rfl⟩ := h
    cases v with
    | number m =>
      cases hn
      rw [ih hns, List.map_cons]
    | _ => cases hn

theorem assertVector_ok {v : Json} {vector : List NumberText} (h : assertVector (some v) = .ok vector) :
    v = vectorJson vector := by
  unfold assertVector at h
  split at h
  · next heq =>
    cases heq
    split at h
    · next hl =>
      cases h
      rw [vectorJson, ← mapM_finite hl]
    · cases h
  · cases h

theorem vectorJson_injective {v w : List NumberText} (h : vectorJson v = vectorJson w) : v = w := by
  simp only [vectorJson, Json.array.injEq] at h
  exact List.map_injective_iff.mpr (fun n m hnm => by cases hnm; rfl) h

/-- What adding entries does to a shard. -/
structure Adds (shard shard' : Shard) (additions : List Entry) : Prop where
  id : shard'.id = shard.id
  keeps (cid : JsString) (v : Json) : shard.vector cid = some v → shard'.vector cid = some v
  has : ∀ e ∈ additions, ∃ vector, shard'.vector e.cid = some (vectorJson vector)
  origin (cid : JsString) (v : Json) : shard'.vector cid = some v → shard.vector cid = some v ∨
    ∃ e ∈ additions, e.cid = cid ∧ vectorJson e.vector = v

variable {shard shard' : Shard} {additions : List Entry} {id : ShardId} {ok : Bool}

theorem addVector_cases {e : Entry} {added : Bool} (h : addVector shard e = .ok (shard', added)) :
    (∃ vector, shard.vector e.cid = some (vectorJson vector) ∧ shard' = shard ∧ added = false) ∨
    shard.vector e.cid = none ∧ added = true ∧
      shard' = { shard with vectors := Maps.set e.cid (vectorJson e.vector) shard.vectors } := by
  unfold addVector at h
  split at h
  · next v hv =>
    obtain ⟨vector, hvector, heq⟩ := Checks.map_ok.mp h
    cases heq
    exact .inl ⟨vector, by rw [hv, assertVector_ok hvector], rfl, rfl⟩
  · next hnone =>
    cases h
    exact .inr ⟨hnone, rfl, rfl⟩

theorem vector_set (shard : Shard) (e : Entry) (cid : JsString) :
    { shard with vectors := Maps.set e.cid (vectorJson e.vector) shard.vectors : Shard }.vector cid =
      if e.cid = cid then some (vectorJson e.vector) else shard.vector cid := by
  simp only [Shard.vector, Maps.get_set]
  split
  · rfl
  · rfl

theorem addVector_adds {e : Entry} {added : Bool} (h : addVector shard e = .ok (shard', added)) :
    Adds shard shard' [e] := by
  rcases addVector_cases h with ⟨vector, hvector, rfl, -⟩ | ⟨hnone, -, rfl⟩
  · exact ⟨rfl, fun _ _ hv => hv, fun e' he => ⟨vector, by rw [List.mem_singleton.mp he, hvector]⟩,
      fun _ _ hv => .inl hv⟩
  · refine ⟨rfl, fun cid v hv => ?_, fun e' he => ⟨e.vector, ?_⟩, fun cid v hv => ?_⟩
    · have hne : e.cid ≠ cid := by
        rintro rfl
        rw [hnone] at hv
        cases hv
      rw [vector_set, if_neg hne, hv]
    · rw [List.mem_singleton.mp he, vector_set, if_pos rfl]
    · rw [vector_set] at hv
      split at hv
      · next heq => exact .inr ⟨e, List.mem_singleton_self e, heq, Option.some.inj hv⟩
      · exact .inl hv

theorem Adds.trans {a b c : Shard} {l m : List Entry} (h : Adds a b l) (h' : Adds b c m) :
    Adds a c (l ++ m) where
  id := h'.id.trans h.id
  keeps cid v hv := h'.keeps cid v (h.keeps cid v hv)
  has e he := by
    rcases List.mem_append.mp he with he | he
    · obtain ⟨vector, hvector⟩ := h.has e he
      exact ⟨vector, h'.keeps _ _ hvector⟩
    · exact h'.has e he
  origin cid v hv := by
    rcases h'.origin cid v hv with hv | ⟨e, he, hcid⟩
    · rcases h.origin cid v hv with hv | ⟨e, he, hcid⟩
      · exact .inl hv
      · exact .inr ⟨e, List.mem_append_left _ he, hcid⟩
    · exact .inr ⟨e, List.mem_append_right _ he, hcid⟩

theorem addVectors_adds {changed : Bool} (h : addVectors shard additions = .ok (shard', changed)) :
    Adds shard shard' additions := by
  induction additions generalizing shard changed with
  | nil =>
    cases h
    exact ⟨rfl, fun _ _ hv => hv, fun _ he => absurd he List.not_mem_nil, fun _ _ hv => .inl hv⟩
  | cons e additions ih =>
    simp only [addVectors, Checks.bind_ok, Checks.pure_ok] at h
    obtain ⟨⟨b, added⟩, hb, ⟨c, later⟩, hc, heq⟩ := h
    cases heq
    exact (addVector_adds hb).trans (ih hc)

theorem addVectors_unchanged (h : addVectors shard additions = .ok (shard', false)) :
    shard' = shard := by
  induction additions generalizing shard with
  | nil =>
    cases h
    rfl
  | cons e additions ih =>
    simp only [addVectors, Checks.bind_ok, Checks.pure_ok] at h
    obtain ⟨⟨b, added⟩, hb, ⟨c, later⟩, hc, heq⟩ := h
    simp only [Prod.mk.injEq, Bool.or_eq_false_iff] at heq
    obtain ⟨rfl, rfl, rfl⟩ := heq
    rcases addVector_cases hb with ⟨-, -, rfl, -⟩ | ⟨-, hadded, -⟩
    · exact ih hc
    · cases hadded

/-- `vectors[cid]` of the record in a file, if it is truthy. -/
def File.vector (file : File) (cid : JsString) : Option Json :=
  match file with
  | .holds record => ((record.get (js "vectors")).bind (Json.get cid)).filter Json.truthy
  | _ => none

theorem get_of_falsy {record : Json} (h : record.truthy = false) (key : JsString) :
    record.get key = none := by
  cases record with
  | object m => cases h
  | _ => rfl

theorem normalizeShard_ok {record : Json} (h : normalizeShard record id = .ok shard) :
    shard.id = id ∧ ∀ cid, (File.holds record).vector cid = shard.vector cid := by
  unfold normalizeShard at h
  split at h
  · next hfalsy =>
    cases h
    exact ⟨rfl, fun cid => by rw [File.vector, get_of_falsy hfalsy]; rfl⟩
  · split at h
    · next m vectors hvectors =>
      split at h
      · cases h
        exact ⟨rfl, fun cid => by rw [File.vector, hvectors]; rfl⟩
      · cases h
    · cases h

theorem loadShard_ok {file : File} (h : loadShard file id ok = some shard) :
    shard.id = id ∧ ∀ cid, file.vector cid = shard.vector cid := by
  unfold loadShard at h
  split at h
  · split at h
    · obtain ⟨hid, hvector⟩ := normalizeShard_ok (toOption_eq_some.mp h)
      exact ⟨hid, hvector⟩
    · cases h
    · exact normalizeShard_ok (toOption_eq_some.mp h)
  · cases h

theorem loadShard_true {file : File} (h : loadShard file id ok = some shard) :
    loadShard file id true = some shard := by
  cases ok with
  | true => exact h
  | false => cases h

theorem written_eq (shard : Shard) : written shard = .holds shard.toJson := by
  rw [written, Json.parse_text]

theorem get_toJson (shard : Shard) : shard.toJson.get (js "vectors") = some (.object shard.vectors) :=
  Maps.get_set_self

theorem vector_written (shard : Shard) (cid : JsString) : (written shard).vector cid = shard.vector cid := by
  rw [written_eq, File.vector, get_toJson]
  rfl

theorem load_written (shard : Shard) : (loadShard (written shard) shard.id true).isSome = true := by
  have hother : ∀ key, js "vectors" ≠ key →
      Maps.get (Maps.set (js "vectors") (.object shard.vectors) shard.record) key =
        Maps.get shard.record key := fun key hne => Maps.get_set_ne hne
  have hget := get_toJson shard
  rw [Shard.toJson] at hget
  rw [written_eq, loadShard, if_pos rfl]
  simp only [normalizeShard, Shard.toJson, hget, Json.truthy, Bool.true_eq_false, if_false]
  rw [dif_pos]
  · rfl
  · refine ⟨?_, ?_, ?_⟩
    · rw [hother _ (by decide), shard.storeVersion]
    · rw [hother _ (by decide), shard.shardVersion]
    · rw [hother _ (by decide), shard.shard]

/-- What a load finds under a block of its own, and everything else as it was. -/
theorem collectVectors_get {cids : List JsString}
    {result result' : List (JsString × List NumberText)}
    (h : collectVectors shard cids result = .ok result') (cid : JsString) :
    (cid ∉ cids ∨ shard.vector cid = none) ∧ Maps.get result' cid = Maps.get result cid ∨
      cid ∈ cids ∧ ∃ vector, shard.vector cid = some (vectorJson vector) ∧
        Maps.get result' cid = some vector := by
  induction cids generalizing result with
  | nil =>
    cases h
    exact .inl ⟨.inl List.not_mem_nil, rfl⟩
  | cons c cids ih =>
    unfold collectVectors at h
    split at h
    · next hnone =>
      rcases ih h with ⟨hother, hsame⟩ | ⟨hmem, hfound⟩
      · refine .inl ⟨?_, hsame⟩
        by_cases hc : cid = c
        · exact .inr (hc ▸ hnone)
        · exact hother.imp (fun hmem hcons => (List.mem_cons.mp hcons).elim hc hmem) id
      · exact .inr ⟨List.mem_cons_of_mem _ hmem, hfound⟩
    · next v hv =>
      simp only [Checks.bind_ok] at h
      obtain ⟨vector, hvector, h⟩ := h
      rw [assertVector_ok hvector] at hv
      rcases ih h with ⟨hother, hsame⟩ | ⟨hmem, hfound⟩
      · by_cases hc : c = cid
        · subst hc
          exact .inr ⟨List.mem_cons_self, vector, hv, by rw [hsame, Maps.get_set_self]⟩
        · refine .inl ⟨?_, by rw [hsame, Maps.get_set_ne hc]⟩
          exact hother.imp (fun hmem hcons => (List.mem_cons.mp hcons).elim (fun h => hc h.symm) hmem) id
      · exact .inr ⟨List.mem_cons_of_mem _ hmem, hfound⟩

/-! ### Writes -/

def State.stored (s : State) (cid : JsString) : Option Json := (s.files (O.shardId cid)).vector cid

/-- How far a write may have come when its flight is in this phase. What is loaded rests on the file as
    it is. -/
inductive Good (files : ShardId → File) (g : ShardId × List Entry) : Lanes.Phase → Operation → Prop
  | waiting : Good files g .waiting .pending
  | reading : Good files g .working .pending
  | writing {base shard : Shard} : loadShard (files g.1) g.1 true = some base →
      addVectors base g.2 = .ok (shard, true) → Good files g .working (.loaded shard)
  | done {phase : Lanes.Phase} {ok : Bool} : phase.ended = true →
      (ok = true → ∀ e ∈ g.2, ∃ vector, (files g.1).vector e.cid = some (vectorJson vector)) →
      Good files g phase (.done ok)

/-- The flights and operations of these writes. -/
structure Aligned (s : State) (works : List (ShardId × List Entry)) : Prop where
  queue : s.shardFlights.Ordered
  flights : s.shardFlights.entries.length = works.length
  operations : s.operations.length = works.length
  good (o : ℕ) (e : Lanes.Entry ShardId) (op : Operation) (g : ShardId × List Entry) :
    s.shardFlights.entries[o]? = some e → s.operations[o]? = some op → works[o]? = some g →
      e.key = g.1 ∧ Good s.files g e.phase op

variable {s s' : State} {o : ℕ} {works : List (ShardId × List Entry)}

theorem Aligned.enqueue (h : Aligned s works) (g : ShardId × List Entry) :
    Aligned (enqueueShardWrite s g.1) (works ++ [g]) where
  queue := h.queue.enter g.1
  flights := by simp [enqueueShardWrite, Lanes.Queue.enter, h.flights]
  operations := by simp [enqueueShardWrite, h.operations]
  good o e op g' he hop hg := by
    simp only [enqueueShardWrite] at he hop ⊢
    rw [Lanes.Queue.getElem?_enter] at he
    split at he
    · next heq =>
      have hlast : o = s.operations.length := by rw [heq, h.flights, h.operations]
      have hworks : o = works.length := heq.trans h.flights
      cases he
      rw [hlast, List.getElem?_concat_length, Option.some.injEq] at hop
      rw [hworks, List.getElem?_concat_length, Option.some.injEq] at hg
      subst hop hg
      exact ⟨rfl, .waiting⟩
    · have hlt := Lanes.Queue.lt_of_getElem? he
      rw [List.getElem?_append_left (by rw [h.operations, ← h.flights]; exact hlt)] at hop
      rw [List.getElem?_append_left (by rw [← h.flights]; exact hlt)] at hg
      exact h.good o e op g' he hop hg

theorem Aligned.enqueueAll (h : Aligned s works) (begun : List (ShardId × List Entry)) :
    Aligned (enqueueAll s begun) (works ++ begun) := by
  induction begun generalizing s works with
  | nil => rwa [List.append_nil]
  | cons g begun ih =>
    rw [← List.singleton_append, ← List.append_assoc]
    exact ih (h.enqueue g)

/-- Nothing but the writes is touched, and nothing that is known of them. -/
theorem enqueueAll_frame (s : State) (begun : List (ShardId × List Entry)) :
    (enqueueAll s begun).files = s.files ∧ (enqueueAll s begun).saves = s.saves ∧
      (enqueueAll s begun).loads = s.loads ∧ (enqueueAll s begun).results = s.results ∧
      ∀ (o : ℕ) (op : Operation), s.operations[o]? = some op →
        (enqueueAll s begun).operations[o]? = some op := by
  induction begun generalizing s with
  | nil => exact ⟨rfl, rfl, rfl, rfl, fun _ _ h => h⟩
  | cons g begun ih =>
    obtain ⟨hfiles, hsaves, hloads, hresults, hops⟩ := ih (enqueueShardWrite s g.1)
    refine ⟨hfiles, hsaves, hloads, hresults, fun o op hop => hops o op ?_⟩
    rw [enqueueShardWrite, List.getElem?_append_left (List.getElem_of_getElem? hop).1, hop]

/-- Only the files and the writes matter. -/
theorem Aligned.congr (h : Aligned s works) (hfiles : s'.files = s.files)
    (hflights : s'.shardFlights = s.shardFlights) (hops : s'.operations = s.operations) :
    Aligned s' works where
  queue := hflights ▸ h.queue
  flights := hflights ▸ h.flights
  operations := hops ▸ h.operations
  good := by
    rw [hflights, hops, hfiles]
    exact h.good

/-- One write goes on and the others stand by. -/
theorem Aligned.advance (h : Aligned s works) {q : Lanes.Queue ShardId} {op' : Operation}
    {files : ShardId → File} (hadvance : s.shardFlights.advance o = some q)
    (hothers : ∀ (i : ℕ) (e : Lanes.Entry ShardId) (op : Operation) (g : ShardId × List Entry), i ≠ o →
      s.shardFlights.entries[i]? = some e → works[i]? = some g → e.key = g.1 →
      Good s.files g e.phase op → Good files g e.phase op)
    (hself : ∀ (e : Lanes.Entry ShardId) (g : ShardId × List Entry) (phase : Lanes.Phase),
      s.shardFlights.entries[o]? = some e → works[o]? = some g → e.key = g.1 →
      s.shardFlights.next e = some phase → Good files g phase op') :
    Aligned { s with files := files, shardFlights := q, operations := s.operations.set o op' }
      works := by
  obtain ⟨e₀, phase, he₀, hnext, rfl⟩ := Lanes.Queue.advance_cases hadvance
  refine ⟨h.queue.advance hadvance, ?_, ?_, fun i e op g he hop hg => ?_⟩
  · simpa [Lanes.Queue.setPhase] using h.flights
  · simpa using h.operations
  · rw [Lanes.Queue.getElem?_setPhase] at he
    split at he
    · next heq =>
      subst heq
      rw [he₀, Option.map_some] at he
      cases he
      have hlt : o < s.operations.length := by
        rw [h.operations]
        exact (List.getElem_of_getElem? hg).1
      obtain ⟨hkey, -⟩ := h.good o e₀ _ g he₀ (List.getElem?_eq_getElem hlt) hg
      rw [List.getElem?_set_self hlt] at hop
      cases hop
      exact ⟨hkey, hself e₀ g phase he₀ hg hkey hnext⟩
    · next hne =>
      rw [List.getElem?_set_ne hne] at hop
      obtain ⟨hkey, hgood⟩ := h.good i e op g he hop hg
      exact ⟨hkey, hothers i e op g (Ne.symm hne) he hg hkey hgood⟩

theorem flight_cases (h : flight s o = some s') : ∃ e q, s.shardFlights.entries[o]? = some e ∧
    (e.phase = .waiting ∨ e.phase = .finished) ∧ s.shardFlights.advance o = some q ∧
    s' = { s with shardFlights := q } := by
  unfold flight at h
  split at h
  · next key previous he =>
    obtain ⟨q, hq, rfl⟩ := Option.map_eq_some_iff.mp h
    exact ⟨_, q, he, .inl rfl, hq, rfl⟩
  · next key previous he =>
    obtain ⟨q, hq, rfl⟩ := Option.map_eq_some_iff.mp h
    exact ⟨_, q, he, .inr rfl, hq, rfl⟩
  · cases h

theorem Aligned.flight (h : Aligned s works) (hstep : flight s o = some s') : Aligned s' works := by
  obtain ⟨e, q, he, hphase, hadvance, rfl⟩ := flight_cases hstep
  have hlt : o < s.operations.length := by
    rw [h.operations, ← h.flights]
    exact Lanes.Queue.lt_of_getElem? he
  have hsame : s.operations.set o s.operations[o] = s.operations := List.set_getElem_self hlt
  have hop := List.getElem?_eq_getElem hlt
  have halign := @Aligned.advance _ _ _ h _ s.operations[o] s.files hadvance
    (fun i e op g _ _ _ _ hgood => hgood) fun e' g phase he' hg hkey hnext => by
      cases he.symm.trans he'
      obtain ⟨-, hgood⟩ := h.good o e _ g he hop hg
      generalize s.operations[o] = op at hgood
      rcases hphase with hwaits | hended
      · simp only [Lanes.Queue.next, hwaits, Option.ite_none_right_eq_some, Option.some.injEq] at hnext
        rw [hwaits] at hgood
        cases hgood with
        | waiting => exact hnext.2 ▸ .reading
        | done hfalse => cases hfalse
      · simp only [Lanes.Queue.next, hended, Option.ite_none_right_eq_some, Option.some.injEq] at hnext
        rw [hended] at hgood
        cases hgood with
        | done _ hstored => exact hnext.2 ▸ .done rfl hstored
  rwa [hsame] at halign

/-- A write ends, and the files are as they were. -/
theorem Aligned.finish (h : Aligned s works) {ok : Bool} {e : Lanes.Entry ShardId}
    (he : s.shardFlights.entries[o]? = some e) (hworking : e.phase = .working)
    (hstored : ok = true → ∀ g, works[o]? = some g → ∀ e ∈ g.2, ∃ vector,
      (s.files g.1).vector e.cid = some (vectorJson vector))
    (hstep : finish s o ok = some s') : Aligned s' works := by
  obtain ⟨q, hq, rfl⟩ := Option.map_eq_some_iff.mp hstep
  refine h.advance hq (fun i e op g _ _ _ _ hgood => hgood) fun e' g phase he' hg hkey hnext => ?_
  cases he.symm.trans he'
  simp only [Lanes.Queue.next, hworking, Option.some.injEq] at hnext
  exact hnext ▸ .done rfl fun hok => hstored hok g hg

theorem readShard_cases (h : readShard s o ok = some s') :
    ∃ e t, s.shardFlights.entries[o]? = some e ∧ e.phase = .working ∧
      s.operations[o]? = some .pending ∧ s.saves.tasks[o]? = some t ∧
      (finish s o false = some s' ∨
        ∃ base shard changed, loadShard (s.files e.key) e.key true = some base ∧
          addVectors base t.work.2 = .ok (shard, changed) ∧
          (changed = false ∧ finish s o true = some s' ∨
            changed = true ∧ s' = { s with operations := s.operations.set o (.loaded shard) })) := by
  unfold readShard at h
  split at h
  · next id previous t he hop ht =>
    refine ⟨_, t, he, rfl, hop, ht, ?_⟩
    split at h
    · exact .inl h
    · next shard hload =>
      obtain ⟨base, hbase, hadds⟩ := Option.bind_eq_some_iff.mp hload
      exact .inr ⟨base, shard, false, loadShard_true hbase, toOption_eq_some.mp hadds, .inl ⟨rfl, h⟩⟩
    · next shard hload =>
      obtain ⟨base, hbase, hadds⟩ := Option.bind_eq_some_iff.mp hload
      cases h
      exact .inr ⟨base, shard, true, loadShard_true hbase, toOption_eq_some.mp hadds, .inr ⟨rfl, rfl⟩⟩
  · cases h

theorem Aligned.readShard (h : Aligned s (s.saves.tasks.map Task.work))
    (hstep : readShard s o ok = some s') : Aligned s' (s.saves.tasks.map Task.work) := by
  obtain ⟨e, t, he, hworking, hop, ht, hcase⟩ := readShard_cases hstep
  have hwork : (s.saves.tasks.map Task.work)[o]? = some t.work := by
    rw [List.getElem?_map, ht, Option.map_some]
  obtain ⟨hkey, -⟩ := h.good o e _ _ he hop hwork
  rcases hcase with hfinish | ⟨base, shard, changed, hbase, hadds, ⟨rfl, hfinish⟩ | ⟨rfl, rfl⟩⟩
  · exact h.finish he hworking (fun hfalse => by cases hfalse) hfinish
  · refine h.finish he hworking (fun _ g hg e' he' => ?_) hfinish
    cases hwork.symm.trans hg
    obtain rfl := addVectors_unchanged hadds
    obtain ⟨vector, hvector⟩ := (addVectors_adds hadds).has e' he'
    exact ⟨vector, by rw [← hkey, (loadShard_ok hbase).2, hvector]⟩
  · refine ⟨h.queue, h.flights, by simpa using h.operations, fun i e' op g he' hop' hg => ?_⟩
    by_cases hi : o = i
    · subst hi
      cases he.symm.trans he'
      cases hwork.symm.trans hg
      rw [List.getElem?_set_self (List.getElem_of_getElem? hop).1] at hop'
      cases hop'
      rw [hworking]
      exact ⟨hkey, .writing (hkey ▸ hbase) hadds⟩
    · rw [List.getElem?_set_ne hi] at hop'
      exact h.good i e' op g he' hop' hg

theorem writeShard_cases (h : writeShard s o ok = some s') :
    ∃ e shard, s.shardFlights.entries[o]? = some e ∧ e.phase = .working ∧
      s.operations[o]? = some (.loaded shard) ∧ ∃ q, s.shardFlights.advance o = some q ∧ s' =
        { s with
          files := if ok then Function.update s.files e.key (written shard) else s.files
          shardFlights := q
          operations := s.operations.set o (.done ok) } := by
  unfold writeShard at h
  split at h
  · next id previous shard he hop =>
    obtain ⟨q, hq, rfl⟩ := Option.map_eq_some_iff.mp h
    exact ⟨_, shard, he, rfl, hop, q, hq, rfl⟩
  · cases h

/-- What a write leaves in its file. -/
theorem Aligned.writing (h : Aligned s works) {e : Lanes.Entry ShardId}
    (he : s.shardFlights.entries[o]? = some e) (hop : s.operations[o]? = some (.loaded shard)) :
    ∃ g base, works[o]? = some g ∧ e.key = g.1 ∧ loadShard (s.files g.1) g.1 true = some base ∧
      Adds base shard g.2 := by
  have hlt : o < works.length := by
    rw [← h.flights]
    exact Lanes.Queue.lt_of_getElem? he
  have hg := List.getElem?_eq_getElem hlt
  obtain ⟨hkey, hgood⟩ := h.good o e _ _ he hop hg
  generalize e.phase = phase at hgood
  cases hgood with
  | writing hbase hadds => exact ⟨_, _, hg, hkey, hbase, addVectors_adds hadds⟩

/-- A vector in a file stays as it is when the file is written. -/
theorem update_keeps {files : ShardId → File} {base : Shard}
    (hbase : loadShard (files id) id true = some base) (hadds : Adds base shard additions)
    {id' : ShardId} {cid : JsString} {v : Json} (hv : (files id').vector cid = some v) :
    (Function.update files id (written shard) id').vector cid = some v := by
  by_cases hid : id' = id
  · subst hid
    rw [Function.update_self, vector_written]
    exact hadds.keeps cid v ((loadShard_ok hbase).2 cid ▸ hv)
  · rw [Function.update_of_ne hid, hv]

theorem Aligned.writeShard (h : Aligned s works) (hstep : writeShard s o ok = some s') :
    Aligned s' works := by
  obtain ⟨e, shard, he, hworking, hop, q, hq, rfl⟩ := writeShard_cases hstep
  obtain ⟨g, base, hg, hkey, hbase, hadds⟩ := h.writing he hop
  cases ok with
  | false =>
    refine h.advance hq (fun i e op g _ _ _ _ hgood => hgood) fun e' g' phase he' _ _ hnext => ?_
    cases he.symm.trans he'
    simp only [Lanes.Queue.next, hworking, Option.some.injEq] at hnext
    exact hnext ▸ .done rfl fun hfalse => by cases hfalse
  | true =>
    rw [if_pos rfl, hkey]
    refine h.advance hq (fun i e' op g' hi he' _ hkey' hgood => ?_) fun e' g' phase he' hg' _ hnext => ?_
    · generalize hphase : e'.phase = phase at hgood
      cases hgood with
      | waiting => exact .waiting
      | reading => exact .reading
      | writing hbase' hadds' =>
        -- nobody else works on this file
        have hne : g'.1 ≠ g.1 := fun heq =>
          hi (h.queue.one_working he' he (by rw [hkey', hkey, heq]) hphase hworking)
        exact .writing (by rw [Function.update_of_ne hne, hbase']) hadds'
      | done hended hstored =>
        refine .done hended fun hok e'' he'' => ?_
        obtain ⟨vector, hvector⟩ := hstored hok e'' he''
        exact ⟨vector, update_keeps hbase hadds hvector⟩
    · cases he.symm.trans he'
      cases hg.symm.trans hg'
      simp only [Lanes.Queue.next, hworking, Option.some.injEq] at hnext
      refine hnext ▸ .done rfl fun _ e' he' => ?_
      obtain ⟨vector, hvector⟩ := hadds.has e' he'
      exact ⟨vector, by rw [Function.update_self, vector_written, hvector]⟩

end Truyn.ShardedStore
