import Truyn.Dht.Values
import Truyn.Schemes.Along
import Truyn.Schemes.Checks
import Truyn.Schemes.Maps

/-! discovery:peer-records | the signed peer records that a node holds, one for each node id

    `ingest` compares a record with the one it holds; `restore` ingests persisted records, and keeps an
    expired one as a routing hint without comparing. `Fresh` is what a write must not do to the record
    that was there, and `Guarded` when a hint may be written. -/

namespace Truyn.Discovery
open Checks
open Trust (Value truthy strictEq)
open Dht (Platform plain)

/-- What the constructor keeps. -/
structure Config extends Dht.Config where
  maxCachedRecords : ℕ

structure Peers where
  records : List (JsString × Value)
  routing : Dht.Table
  ingestChanges : ℕ
  recordEvictions : ℕ
  /-- The cache of the module. -/
  signatures : List JsString

def Peers.new : Peers := ⟨[], .new, 0, 0, []⟩

variable (P : Platform) (c : Config) (s : Peers)

/-- `Array.isArray(record.endpoints) && record.endpoints.length > 0`. -/
def hasEndpoints (record : Value) : Bool :=
  match record.get "endpoints" with
  | some (.array endpoints) => !endpoints.isEmpty
  | _ => false

/-- Gives the remembered signatures. -/
def verifyPeerRecord (verified : List JsString) (record : Value) (now : ℤ) (allowExpired : Bool) :
    Except String (List JsString) := do
  if !truthy (record.get "recordId") ∨
      !strictEq (record.get "protocol") (some (.string (js "truyn-peer-record-v1"))) ∨
      !truthy (record.get "nodeId") ∨ !truthy (record.get "publicKey") ∨
      !truthy (record.get "signature") then throw "peer_record_missing"
  let nodeId ← P.nodeIdFromPublicKey ((record.get "publicKey").getD .null)
  if !strictEq (some (.string nodeId)) (record.get "nodeId") then throw "peer_record_key_mismatch"
  if !strictEq (record.get "dhtId") (some (.string (Dht.dhtId P nodeId))) then
    throw "peer_record_dht_id"
  if !hasEndpoints record then throw "peer_record_endpoints"
  let expires ← Dht.date P (record.get "expiresAt")
  if expires.all fun e => !allowExpired && e ≤ now then throw "peer_record_expired"
  let signed := Dht.without ["publicKey", "signature"] record
  let body := Dht.without ["recordId"] signed
  let digest ← Dht.hash P (some body)
  let expectedId := js "truyn:peer:" ++ digest
  if !strictEq (some (.string expectedId)) (record.get "recordId") then throw "peer_record_id"
  Dht.verifySignature P verified record signed "peer_record_signature"

/-- `expiryMs(record) > now`, of a record that was verified. -/
def leaseLive (record : Value) (now : ℤ) : Bool :=
  match Dht.date P (record.get "expiresAt") with
  | .ok (some expires) => now < expires
  | _ => true

/-- The node id of a record that was verified. -/
def nodeIdOf (record : Value) : JsString :=
  match record.get "nodeId" with
  | some (.string nodeId) => nodeId
  | _ => []

def sameEndpoints (left right : Option Value) : Bool :=
  match left, right with
  | some (.array left), some (.array right) =>
    left.length = right.length && (left.zip right).all fun e => strictEq (some e.1) (some e.2)
  | _, _ => false

/-- `existing && existing.sequence > record.sequence`; `none` is thrown. -/
def older (existing : Option Value) (record : Value) : Option Bool :=
  match existing with
  | none => some false
  | some existing =>
    Dht.greater P.toLanguage (existing.get "sequence") (record.get "sequence")

/-- The same sequence and another id. -/
def equivocal (existing record : Value) : Bool :=
  strictEq (existing.get "sequence") (record.get "sequence") &&
    !strictEq (existing.get "recordId") (record.get "recordId")

inductive Outcome
  | accepted (updated unchanged novel : Bool)
  | refused (reason : String)
  | threw

def Outcome.ok : Outcome → Bool
  | .accepted .. => true
  | _ => false

/-- The contact of a record in the routing table. -/
def contact (record : Value) (lastSeenAt : JsString) : Dht.Peer where
  nodeId := nodeIdOf record
  lastSeenAt := lastSeenAt
  fields := .object [(js "endpoints", (record.get "endpoints").getD .null),
    (js "publicKey", (record.get "publicKey").getD .null)]

/-- The oldest records of nodes that are no routing contacts go, as many as are too many. -/
def evict (has : JsString → Bool) : ℕ → List (JsString × Value) → List (JsString × Value)
  | 0, records => records
  | _, [] => []
  | excess + 1, r :: records =>
    if has r.1 then r :: evict has (excess + 1) records else evict has excess records

def recordTrimSlack : ℕ := 32

/-- `#trimRecordCache`; `routing.size()` counts the members. -/
def Peers.trim : Peers :=
  let limit := s.routing.members.length + c.maxCachedRecords
  if s.records.length ≤ limit + recordTrimSlack then s
  else
    let records := evict s.routing.has (s.records.length - limit) s.records
    { s with
      records := records
      recordEvictions := s.recordEvictions + (s.records.length - records.length) }

/-- `seenAt` is `new Date().toISOString()`. -/
def Peers.ingest (record : Value) (now : ℤ) (allowExpired : Bool) (seenAt : JsString) :
    Peers × Outcome :=
  match verifyPeerRecord P s.signatures record now allowExpired with
  | .error reason => (s, .refused reason)
  | .ok signatures =>
    let s := { s with signatures := signatures }
    let nodeId := nodeIdOf record
    let existing := Maps.get s.records nodeId
    match older P existing record with
    | none => (s, .threw)
    | some true => (s, .refused "peer_record_older_sequence")
    | some false =>
      if existing.any (equivocal · record) then (s, .refused "peer_record_equivocation")
      else
        let changed := !existing.any fun e => strictEq (e.get "recordId") (record.get "recordId")
        let novel := !existing.any fun e => strictEq (e.get "instanceId") (record.get "instanceId") &&
          sameEndpoints (e.get "endpoints") (record.get "endpoints")
        let kept := if changed then record else existing.getD record
        let s := { s with
          ingestChanges := if changed then s.ingestChanges + 1 else s.ingestChanges
          records := Maps.delete nodeId s.records ++ [(nodeId, kept)]
          routing := (s.routing.upsert P.toHost c.toConfig (contact record seenAt) seenAt).1 }
        (s.trim c, .accepted (existing.isSome && changed) (!changed) novel)

/-- `record.issuedAt || new Date(0).toISOString()`, as text. -/
def issuedText (record : Value) : JsString :=
  if truthy (record.get "issuedAt") then
    match Dht.string P (record.get "issuedAt") with
    | .ok s => s
    | .error _ => []
  else js "1970-01-01T00:00:00.000Z"

/-- An expired record is kept as a hint where the record that is held is. -/
def Peers.hint (record : Value) (seenAt : JsString) : Peers :=
  { s with
    records := Maps.set (nodeIdOf record) record s.records
    routing :=
      (s.routing.upsert P.toHost c.toConfig (contact record (issuedText P record)) seenAt).1 }

/-- A persisted record, when `Date.now()` is read for it a second time, and the date that is then
    written. -/
structure Given where
  record : Value
  later : ℤ
  seenAt : JsString

/-- The record verifies when expiry is allowed, and without it has expired. `none`: it is no hint. -/
def staleHint (verified : List JsString) (g : Given) : Option (List JsString) :=
  match verifyPeerRecord P verified g.record g.later true with
  | .error _ => none
  | .ok verified =>
    match verifyPeerRecord P verified g.record g.later false with
    | .ok _ => none
    | .error reason => if reason = "peer_record_expired" then some verified else none

/-- One turn of the loop of `restore`. -/
def Peers.restoreOne (g : Given) (now : ℤ) (allowExpired : Bool) : Peers × Outcome :=
  let (s, outcome) := s.ingest P c g.record now allowExpired g.seenAt
  match outcome with
  | .refused reason =>
    match staleHint P s.signatures g with
    | none => (s, .refused reason)
    | some signatures => ({ s with signatures := signatures }.hint P c g.record g.seenAt, .refused reason)
  | outcome => (s, outcome)

/-- Gives the number of accepted records; `none` is thrown. -/
def Peers.restore (now : ℤ) (allowExpired : Bool) : Peers → ℕ → List Given → Peers × Option ℕ
  | s, accepted, [] => (s.trim c, some accepted)
  | s, accepted, g :: gs =>
    let (s, outcome) := s.restoreOne P c g now allowExpired
    match outcome with
    | .threw => (s, none)
    | outcome => restore now allowExpired s (if outcome.ok then accepted + 1 else accepted) gs

def Peers.sweep (now : ℤ) : Peers × ℕ :=
  let gone := s.records.filter fun r => !leaseLive P r.2 now
  ({ s with
    records := s.records.filter fun r => leaseLive P r.2 now
    routing := gone.foldl (fun t r => (t.remove P.toHost c.toConfig r.1).1) s.routing }, gone.length)

def Peers.get (nodeId : JsString) (now : ℤ) : Option Value :=
  (Maps.get s.records nodeId).filter fun record => leaseLive P record now

/-! ### Runs -/

/-- `verify` is for the other users of the module: they share the cache. -/
inductive Single
  | ingest (record : Value) (now : ℤ) (allowExpired : Bool) (seenAt : JsString)
  | sweep (now : ℤ)
  | verify (record : Value) (now : ℤ) (allowExpired : Bool)

inductive Call
  | single (one : Single)
  | restore (given : List Given) (now : ℤ) (allowExpired : Bool)

def Peers.verified (record : Value) (now : ℤ) (allowExpired : Bool) : Peers :=
  match verifyPeerRecord P s.signatures record now allowExpired with
  | .ok signatures => { s with signatures := signatures }
  | .error _ => s

def Peers.single : Single → Peers
  | .ingest record now allowExpired seenAt => (s.ingest P c record now allowExpired seenAt).1
  | .sweep now => (s.sweep P c now).1
  | .verify record now allowExpired => s.verified P record now allowExpired

def Peers.apply : Call → Peers
  | .single one => s.single P c one
  | .restore given now allowExpired => (s.restore P c now allowExpired 0 given).1

/-- A call, or one record of `restore`, or what `restore` does last. -/
inductive Turn
  | single (one : Single)
  | restored (g : Given) (now : ℤ) (allowExpired : Bool)
  | trim

def Peers.turn : Turn → Peers
  | .single one => s.single P c one
  | .restored g now allowExpired => (s.restoreOne P c g now allowExpired).1
  | .trim => s.trim c

/-- The turns of `restore`. An error ends it. -/
def restoreTurns (now : ℤ) (allowExpired : Bool) : Peers → List Given → List Turn
  | _, [] => [.trim]
  | s, g :: gs =>
    let (s, outcome) := s.restoreOne P c g now allowExpired
    .restored g now allowExpired :: match outcome with
      | .threw => []
      | _ => restoreTurns now allowExpired s gs

def Call.turns : Call → List Turn
  | .single one => [.single one]
  | .restore given now allowExpired => restoreTurns P c now allowExpired s given

/-- The turns of the calls, one after the other. -/
def turnsOf : Peers → List Call → List Turn
  | _, [] => []
  | s, one :: calls => one.turns P c s ++ turnsOf (s.apply P c one) calls

/-! ### Fresh and guarded -/

/-- What `restore` makes of a record: it is kept as a hint. -/
def Peers.hints (g : Given) (now : ℤ) (allowExpired : Bool) : Bool :=
  let (s, outcome) := s.ingest P c g.record now allowExpired g.seenAt
  match outcome with
  | .refused _ => (staleHint P s.signatures g).isSome
  | _ => false

/-- The time when `restore` writes. -/
def Turn.restoredAt : Turn → Option ℤ
  | .restored g now allowExpired => some (if s.hints P c g now allowExpired then g.later else now)
  | _ => none

/-- `after` may take the place of `before`: no lower sequence, no other record of the same sequence. -/
def Follows (before after : Value) : Prop :=
  older P (some before) after ≠ some true ∧ equivocal before after = false

/-- A turn leaves the record of a node, or replaces it by one that may follow it; where it restores,
    it replaces no live record by an expired one. -/
def Fresh (t : Turn) : Prop :=
  ∀ nodeId before after, Maps.get s.records nodeId = some before →
    Maps.get (s.turn P c t).records nodeId = some after →
      after = before ∨ Follows P before after ∧ ∀ now, t.restoredAt P c s = some now →
        leaseLive P before now → leaseLive P after now

/-- Where `restore` keeps a hint, the record of that node that is held, if there is one, has expired,
    and the hint may follow it. Where it allows expired records, they come after no live one. -/
def Guarded : Turn → Prop
  | .restored g now allowExpired =>
    ∀ held, Maps.get s.records (nodeIdOf g.record) = some held →
      (s.hints P c g now allowExpired = true →
        Follows P held g.record ∧ leaseLive P held g.later = false) ∧
      (allowExpired = true → (verifyPeerRecord P s.signatures g.record now true).isOk →
        leaseLive P held now → leaseLive P g.record now)
  | _ => True

variable {P c s}

/-! ### Records -/

theorem evict_sublist (has : JsString → Bool) (excess : ℕ) (records : List (JsString × Value)) :
    (evict has excess records).Sublist records := by
  induction records generalizing excess with
  | nil => cases excess <;> simp [evict]
  | cons r records ih =>
    cases excess with
    | zero => simp [evict]
    | succ excess =>
      rw [evict]
      split
      · exact (ih (excess + 1)).cons_cons r
      · exact (ih excess).cons r

theorem trim_sublist : (s.trim c).records.Sublist s.records := by
  unfold Peers.trim
  simp only
  split
  · exact List.Sublist.refl _
  · exact evict_sublist ..

variable {nodeId : JsString} {record : Value}

/-- What is held of fewer records was held. -/
theorem get_of_sublist {records fewer : List (JsString × Value)} {r : Value}
    (hnodup : (records.map Prod.fst).Nodup) (hsub : fewer.Sublist records)
    (h : Maps.get fewer nodeId = some r) : Maps.get records nodeId = some r :=
  Maps.get_of_mem hnodup (hsub.subset (Maps.mem_of_get h))

/-- What a call of `ingest` may do to the records. -/
inductive Wrote (s : Peers) (record : Value) : List (JsString × Value) → Outcome → Prop
  | refused (reason : String) : Wrote s record s.records (.refused reason)
  | threw : Wrote s record s.records .threw
  | kept {kept : Value} {after : List (JsString × Value)} {updated unchanged novel : Bool}
      (hfollows : ∀ held, Maps.get s.records (nodeIdOf record) = some held → Follows P held record)
      (hkept : kept = record ∨ Maps.get s.records (nodeIdOf record) = some kept)
      (hafter : after.Sublist (Maps.delete (nodeIdOf record) s.records ++ [(nodeIdOf record, kept)])) :
      Wrote s record after (.accepted updated unchanged novel)

theorem ingest_wrote (record : Value) (now : ℤ) (allowExpired : Bool) (seenAt : JsString) :
    Wrote (P := P) s record (s.ingest P c record now allowExpired seenAt).1.records
      (s.ingest P c record now allowExpired seenAt).2 := by
  unfold Peers.ingest
  cases hv : verifyPeerRecord P s.signatures record now allowExpired with
  | error reason => exact .refused reason
  | ok signatures =>
    simp only
    generalize hexisting : Maps.get s.records (nodeIdOf record) = existing
    split
    · exact .threw
    · exact .refused _
    · next holder =>
      split
      · exact .refused _
      · next hequiv =>
        refine .kept (fun held hheld => ?_) ?_ trim_sublist
        · rw [hexisting] at hheld
          subst hheld
          constructor
          · simp [holder]
          · simpa using hequiv
        · cases existing with
          | none => exact .inl (by simp)
          | some held =>
            split
            · exact .inl rfl
            · exact .inr hexisting

/-- The keys are the ids of the records, and no key is there twice. -/
def Held (s : Peers) : Prop :=
  (s.records.map Prod.fst).Nodup ∧ ∀ r ∈ s.records, nodeIdOf r.2 = r.1

theorem Held.sublist {t : Peers} (h : Held s) (hsub : t.records.Sublist s.records) : Held t :=
  ⟨h.1.sublist (hsub.map _), fun r hr => h.2 r (hsub.subset hr)⟩

theorem nodeId_of_get (h : Held s) {r : Value} (hget : Maps.get s.records nodeId = some r) :
    nodeIdOf r = nodeId :=
  h.2 _ (Maps.mem_of_get hget)

/-- The record of one node takes its place at the end. -/
theorem Held.moved {kept : Value} (h : Held s) (hid : nodeIdOf kept = nodeId) :
    ((Maps.delete nodeId s.records ++ [(nodeId, kept)]).map Prod.fst).Nodup ∧
      ∀ r ∈ Maps.delete nodeId s.records ++ [(nodeId, kept)], nodeIdOf r.2 = r.1 := by
  constructor
  · rw [List.map_append, List.nodup_append]
    refine ⟨Maps.nodup_delete h.1, List.nodup_singleton _, ?_⟩
    rintro x hx y hy rfl
    obtain ⟨r, hr, rfl⟩ := List.mem_map.mp hx
    have hne : r.1 ≠ nodeId := by simpa [Maps.delete] using (List.mem_filter.mp hr).2
    exact hne (by simpa using hy)
  · intro r hr
    rcases List.mem_append.mp hr with hr | hr
    · exact h.2 r (Maps.mem_delete hr)
    · obtain rfl := List.mem_singleton.mp hr
      exact hid

theorem Wrote.held {s t : Peers} {outcome : Outcome}
    (hw : Wrote (P := P) s record t.records outcome) (h : Held s) : Held t := by
  generalize hrecords : t.records = records at hw
  cases hw with
  | refused reason => exact h.sublist (by rw [hrecords])
  | threw => exact h.sublist (by rw [hrecords])
  | kept hfollows hkept hafter =>
    have hid : nodeIdOf _ = nodeIdOf record := hkept.elim (fun e => by rw [e]) (nodeId_of_get h)
    obtain ⟨hnodup, hids⟩ := h.moved hid
    rw [← hrecords] at hafter
    exact ⟨hnodup.sublist (hafter.map _), fun r hr => hids r (hafter.subset hr)⟩

/-- Another node keeps its record, or loses it; this node has the same record, or the new one. -/
theorem Wrote.get {s : Peers} {records : List (JsString × Value)} {outcome : Outcome}
    (hw : Wrote (P := P) s record records outcome) (h : Held s) {before after : Value}
    (hbefore : Maps.get s.records nodeId = some before)
    (hafter : Maps.get records nodeId = some after) :
    after = before ∨ outcome.ok = true ∧ nodeId = nodeIdOf record ∧ after = record ∧
      Follows P before record := by
  cases hw with
  | refused reason => exact .inl (Option.some.inj (hafter.symm.trans hbefore))
  | threw => exact .inl (Option.some.inj (hafter.symm.trans hbefore))
  | @kept kept _ _ _ _ hfollows hkept hsub =>
    have hid : nodeIdOf kept = nodeIdOf record := hkept.elim (fun e => by rw [e]) (nodeId_of_get h)
    have hmem := hsub.subset (Maps.mem_of_get hafter)
    rcases List.mem_append.mp hmem with hmem | hmem
    · have hget := Maps.get_of_mem h.1 (Maps.mem_delete hmem)
      exact .inl (Option.some.inj (hget.symm.trans hbefore))
    · cases List.mem_singleton.mp hmem
      rcases hkept with rfl | hkept
      · exact .inr ⟨rfl, rfl, rfl, hfollows before hbefore⟩
      · exact .inl (Option.some.inj (hkept.symm.trans hbefore))

theorem records_verified (record : Value) (now : ℤ) (allowExpired : Bool) :
    (s.verified P record now allowExpired).records = s.records := by
  unfold Peers.verified
  split <;> rfl

/-- A record that is accepted has not expired, if expired ones are not allowed. -/
theorem live_of_verified {verified signatures : List JsString} {now : ℤ}
    (h : verifyPeerRecord P verified record now false = .ok signatures) :
    leaseLive P record now = true := by
  rw [verifyPeerRecord, guard_ok] at h
  obtain ⟨-, h⟩ := h
  obtain ⟨nodeId, -, h⟩ := bind_ok.mp h
  rw [guard_ok] at h
  obtain ⟨-, h⟩ := h
  rw [guard_ok] at h
  obtain ⟨-, h⟩ := h
  rw [guard_ok] at h
  obtain ⟨-, h⟩ := h
  obtain ⟨expires, hdate, h⟩ := bind_ok.mp h
  rw [guard_ok] at h
  obtain ⟨hlive, -⟩ := h
  cases expires with
  | none => simp at hlive
  | some expires => simpa [leaseLive, hdate] using hlive

theorem verified_of_accepted {now : ℤ} {allowExpired : Bool} {seenAt : JsString}
    (h : (s.ingest P c record now allowExpired seenAt).2.ok = true) :
    ∃ signatures, verifyPeerRecord P s.signatures record now allowExpired = .ok signatures := by
  unfold Peers.ingest at h
  cases hv : verifyPeerRecord P s.signatures record now allowExpired with
  | error reason =>
    rw [hv] at h
    cases h
  | ok signatures => exact ⟨signatures, rfl⟩

/-! ### Turns -/

/-- A restored record is kept as a hint in its place, or is ingested. -/
theorem restoreOne_cases (g : Given) (now : ℤ) (allowExpired : Bool) :
    (s.hints P c g now allowExpired = true ∧
      (s.restoreOne P c g now allowExpired).1.records =
        Maps.set (nodeIdOf g.record) g.record s.records) ∨
    (s.hints P c g now allowExpired = false ∧
      s.restoreOne P c g now allowExpired = s.ingest P c g.record now allowExpired g.seenAt) := by
  have hw := ingest_wrote (P := P) (c := c) (s := s) g.record now allowExpired g.seenAt
  unfold Peers.hints Peers.restoreOne
  generalize s.ingest P c g.record now allowExpired g.seenAt = result at hw ⊢
  obtain ⟨t, outcome⟩ := result
  cases outcome with
  | accepted updated unchanged novel => exact .inr ⟨rfl, rfl⟩
  | threw => exact .inr ⟨rfl, rfl⟩
  | refused reason =>
    have hrecords : t.records = s.records := by
      generalize hr : t.records = records at hw
      cases hw
      rfl
    simp only
    cases staleHint P t.signatures g with
    | none => exact .inr ⟨rfl, rfl⟩
    | some signatures =>
      refine .inl ⟨rfl, ?_⟩
      rw [← hrecords]
      rfl

theorem Held.turn (h : Held s) (t : Turn) : Held (s.turn P c t) := by
  have hingest : ∀ record now allowExpired seenAt,
      Held (s.ingest P c record now allowExpired seenAt).1 := fun record now allowExpired seenAt =>
    (ingest_wrote record now allowExpired seenAt).held h
  cases t with
  | single one =>
    cases one with
    | ingest record now allowExpired seenAt => exact hingest ..
    | sweep now => exact h.sublist List.filter_sublist
    | verify record now allowExpired =>
      exact h.sublist (by rw [Peers.turn, Peers.single, records_verified])
  | trim => exact h.sublist trim_sublist
  | restored g now allowExpired =>
    rw [Peers.turn]
    rcases restoreOne_cases (P := P) (c := c) (s := s) g now allowExpired with
      ⟨-, hrecords⟩ | ⟨-, hsame⟩
    · rw [Held, hrecords]
      refine ⟨Maps.nodup_set h.1, fun r hr => ?_⟩
      rcases Maps.mem_set hr with rfl | hr
      · rfl
      · exact h.2 r hr
    · rw [hsame]
      exact hingest ..

/-- Fewer records: a record that stays is the one that was there. -/
theorem fresh_of_sublist (h : Held s) {t : Turn}
    (hsub : (s.turn P c t).records.Sublist s.records) : Fresh P c s t :=
  fun _ _ _ hbefore hafter =>
    .inl (Option.some.inj ((get_of_sublist h.1 hsub hafter).symm.trans hbefore))

theorem Held.fresh (h : Held s) {t : Turn} (hg : Guarded P c s t) : Fresh P c s t := by
  cases t with
  | single one =>
    cases one with
    | ingest record now allowExpired seenAt =>
      intro nodeId before after hbefore hafter
      rcases (ingest_wrote record now allowExpired seenAt).get h hbefore hafter with
        hsame | ⟨-, -, rfl, hfollows⟩
      · exact .inl hsame
      · exact .inr ⟨hfollows, fun _ hat => by cases hat⟩
    | sweep now => exact fresh_of_sublist h List.filter_sublist
    | verify record now allowExpired =>
      exact fresh_of_sublist h (by rw [Peers.turn, Peers.single, records_verified])
  | trim => exact fresh_of_sublist h trim_sublist
  | restored g now allowExpired =>
    intro nodeId before after hbefore hafter
    rw [Peers.turn] at hafter
    rcases restoreOne_cases (P := P) (c := c) (s := s) g now allowExpired with
      ⟨hhint, hrecords⟩ | ⟨hhint, hsame⟩
    · rw [hrecords, Maps.get_set] at hafter
      split at hafter
      · next hid =>
        cases hafter
        subst hid
        obtain ⟨hfollows, hdead⟩ := (hg before hbefore).1 hhint
        refine .inr ⟨hfollows, fun at_ hat hlive => ?_⟩
        rw [Turn.restoredAt, if_pos hhint] at hat
        cases hat
        rw [hdead] at hlive
        cases hlive
      · exact .inl (Option.some.inj (hafter.symm.trans hbefore))
    · rw [hsame] at hafter
      rcases (ingest_wrote g.record now allowExpired g.seenAt).get h hbefore hafter with
        heq | ⟨hok, rfl, rfl, hfollows⟩
      · exact .inl heq
      · refine .inr ⟨hfollows, fun at_ hat hlive => ?_⟩
        rw [Turn.restoredAt, if_neg (by rw [hhint]; decide)] at hat
        cases hat
        obtain ⟨signatures, hverified⟩ := verified_of_accepted hok
        cases hallow : allowExpired with
        | false => exact live_of_verified (by rw [← hallow]; exact hverified)
        | true =>
          rw [hallow] at hverified
          exact (hg before hbefore).2 hallow (by rw [hverified]; rfl) hlive

/-! ### The calls -/

theorem restore_turns (given : List Given) (now : ℤ) (allowExpired : Bool) (accepted : ℕ) :
    (restoreTurns P c now allowExpired s given).foldl (Peers.turn P c) s =
      (s.restore P c now allowExpired accepted given).1 := by
  induction given generalizing s accepted with
  | nil => rfl
  | cons g given ih =>
    rw [restoreTurns, Peers.restore]
    generalize hone : s.restoreOne P c g now allowExpired = result
    obtain ⟨t, outcome⟩ := result
    have hturn : s.turn P c (.restored g now allowExpired) = t := by rw [Peers.turn, hone]
    cases outcome with
    | threw => simp [hturn]
    | refused reason => simpa [hturn] using ih _
    | accepted updated unchanged novel => simpa [hturn] using ih _

/-- The turns do what the calls do. -/
theorem run_turns (calls : List Call) :
    (turnsOf P c s calls).foldl (Peers.turn P c) s = calls.foldl (Peers.apply P c) s := by
  induction calls generalizing s with
  | nil => rfl
  | cons one calls ih =>
    have hone : (one.turns P c s).foldl (Peers.turn P c) s = s.apply P c one := by
      cases one with
      | single one => rfl
      | restore given now allowExpired => exact restore_turns given now allowExpired 0
    rw [turnsOf, List.foldl_append, hone, ih, List.foldl_cons]

/-- Where every hint comes after what is held of its node, and that has expired, no turn of the calls
    replaces a record by an older one, and none that restores a live record by an expired one. -/
theorem records_fresh (calls : List Call)
    (h : Runs.Along (Peers.turn P c) (Guarded P c) .new (turnsOf P c .new calls)) :
    Runs.Along (Peers.turn P c) (Fresh P c) .new (turnsOf P c .new calls) ∧
      (turnsOf P c .new calls).foldl (Peers.turn P c) .new =
        calls.foldl (Peers.apply P c) .new := by
  have hnew : Held .new := ⟨.nil, fun r hr => by cases hr⟩
  exact ⟨h.imp hnew (fun _ t hs _ => hs.turn t) (fun _ _ hs hg => hs.fresh hg), run_turns calls⟩

/-! ### A persisted record -/

/-- A record of node A, in the form in which it is signed. -/
def signedByA (sequence expiresAt : ℕ) : Value :=
  .object [(js "recordId", .string (js "truyn:peer:" ++ numeral sequence ++ js "/" ++ numeral expiresAt)),
    (js "protocol", .string (js "truyn-peer-record-v1")), (js "nodeId", .string (js "A")),
    (js "dhtId", .string (js "A")), (js "endpoints", .array [.string (js "quic://a:1")]),
    (js "sequence", .number sequence), (js "expiresAt", .string (numeral expiresAt)),
    (js "publicKey", .string (js "A")), (js "signature", .string (js "s"))]

def nodeB : Config := ⟨⟨js "B", 20, by decide, by decide⟩, 512⟩

/-- Record 2 of A is live until 90; the state file has record 1, which expired at 5. -/
def restoredLate : List Call :=
  [.single (.ingest (signedByA 2 90) 10 false (js "t")),
    .restore [⟨signedByA 1 5, 10, js "t"⟩] 10 false]

/-- The expired record takes the place of the newer one that is live. -/
theorem hint_replaces_live : ¬Runs.Along (Peers.turn plain nodeB) (Fresh plain nodeB) .new
    (turnsOf plain nodeB .new restoredLate) := by
  rintro ⟨-, hfresh, -⟩
  rcases hfresh (js "A") (signedByA 2 90) (signedByA 1 5) rfl rfl with hsame | ⟨⟨holder, -⟩, -⟩
  · have hsequence := congrArg (Value.get "sequence") hsame
    cases hsequence
  · exact holder rfl

/-- The state file has two expired records of A, the older first; then A is heard of. -/
def restoredFirst : List Call :=
  [.restore [⟨signedByA 1 5, 10, js "t"⟩, ⟨signedByA 2 7, 10, js "t"⟩] 10 false,
    .single (.ingest (signedByA 3 90) 11 false (js "t")), .single (.sweep 20)]

theorem records_fresh_first :
    Runs.Along (Peers.turn plain nodeB) (Fresh plain nodeB) .new
      (turnsOf plain nodeB .new restoredFirst) ∧
    Maps.get (restoredFirst.foldl (Peers.apply plain nodeB) .new).records (js "A") =
      some (signedByA 3 90) := by
  have hturns : turnsOf plain nodeB .new restoredFirst =
      [.restored ⟨signedByA 1 5, 10, js "t"⟩ 10 false, .restored ⟨signedByA 2 7, 10, js "t"⟩ 10 false,
        .trim, .single (.ingest (signedByA 3 90) 11 false (js "t")), .single (.sweep 20)] := rfl
  refine ⟨(records_fresh restoredFirst ?_).1, rfl⟩
  rw [hturns]
  refine ⟨?_, ?_, trivial, trivial, trivial, trivial⟩
  · rintro held hheld
    cases hheld
  · intro held hheld
    have hfirst : Maps.get (Peers.new.turn plain nodeB
        (.restored ⟨signedByA 1 5, 10, js "t"⟩ 10 false)).records (js "A") =
          some (signedByA 1 5) := rfl
    cases hfirst.symm.trans hheld
    refine ⟨fun _ => ⟨⟨fun holder => ?_, rfl⟩, rfl⟩, fun hallow => ?_⟩
    · have hless : older plain (some (signedByA 1 5)) (signedByA 2 7) = some false := rfl
      cases hless.symm.trans holder
    · cases hallow

end Truyn.Discovery
