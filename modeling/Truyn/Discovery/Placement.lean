import Truyn.Dht.Values
import Truyn.Schemes.Checks
import Truyn.Schemes.Maps

/-! discovery:placement | where the parts of a context are, as signed records, and their revocations

    A directory has one record and one revocation for each root, partition and holder. What comes
    later takes the place of what is there if its sequence is not lower; `gossipWith` gives each of two
    directories what the other has. -/

namespace Truyn.Discovery
open Checks
open Trust (Value truthy strictEq)
open Dht (Platform)

variable (P : Platform)

/-! ### Checks -/

/-- `Number.isInteger(value) ? value : none`. -/
def integer (value : Option Value) : Option ℤ :=
  match value with
  | some (.number x) => if x.den = 1 then some x.num else none
  | _ => none

/-- The text of a string that starts as every root does. -/
def normalizeRootCid (value : Option Value) : Except String JsString :=
  match value with
  | some (.string root) =>
    if (js "truyn:ctx:").isPrefixOf root then .ok root else .error "placement root CID is required"
  | _ => .error "placement root CID is required"

/-- Gives the index of a partition. -/
def normalizePartition (index count : Option Value) : Except String ℤ :=
  match integer count with
  | some count =>
    if count < 1 ∨ 4096 < count then .error "placement partition count must be 1..4096"
    else match integer index with
      | some index =>
        if index < 0 ∨ count ≤ index then .error "placement partition index is invalid" else .ok index
      | none => .error "placement partition index is invalid"
  | none => .error "placement partition count must be 1..4096"

/-- `new Date(value).getTime()`. -/
def getTime (value : Option Value) : Except String (Option ℤ) :=
  match value with
  | none => .ok none
  | some .null => .ok (some 0)
  | some (.bool b) => .ok (some (if b then 1 else 0))
  | some (.number x) =>
    .ok (if |x| ≤ 8640000000000000 then some (if x < 0 then ⌈x⌉ else ⌊x⌋) else none)
  | value => Dht.date P value

/-- The capability to ask a holder for a partition, of checked parts. -/
def distributedRequestCapability (root holder : JsString) (index : ℤ) : JsString :=
  js "context.distributed." ++ (P.sha256 root).take 32 ++ js "." ++ decimal (some index) ++ js "." ++
    (P.sha256 holder).take 16

def placementKey (body : Value) : Except String JsString := do
  let root ← normalizeRootCid (body.get "rootCid")
  let index ← Dht.string P (body.get "partitionIndex")
  let holder ← Dht.string P (body.get "holderNodeId")
  return root ++ js "|" ++ index ++ js "|" ++ holder

def bodyOf (item : Value) : Value := (item.get "body").getD .null

def sequenceOf (item : Value) : Option Value := (bodyOf item).get "sequence"

/-- `!value || value < least`, of what must be an integer. -/
def notFrom (least : ℤ) (value : Option Value) : Bool :=
  match integer value with
  | some n => n < least
  | none => true

def holderOf (value : Option Value) : Except String JsString :=
  match value with
  | some (.string (c :: holder)) => .ok (c :: holder)
  | _ => .error "distributed holder node ID is required"

def laterThan (issued expires : Option ℤ) : Except String ℤ :=
  match issued, expires with
  | some issued, some expires =>
    if expires ≤ issued then .error "placement_time_invalid" else .ok expires
  | _, _ => .error "placement_time_invalid"

/-- `{ a, b, … }` of the members of a value that has them. -/
def members (keys : List String) (item : Value) : Value :=
  .object (keys.map fun k => (js k, (item.get k).getD .null))

/-- Gives the expiry. -/
def verifyPlacementRecord (record : Value) (now : ℤ) (allowExpired : Bool) : Except String ℤ := do
  if ["recordId", "body", "issuedAt", "expiresAt", "publicKey", "signature"].any
      fun k => !truthy (record.get k) then throw "placement_missing_required_field"
  let body := bodyOf record
  if !strictEq (body.get "protocol") (some (.string (js "truyn-placement-v1"))) ∨
      !strictEq (body.get "version") (some (.number 1)) then throw "placement_protocol_mismatch"
  let root ← normalizeRootCid (body.get "rootCid")
  let index ← normalizePartition (body.get "partitionIndex") (body.get "partitionCount")
  if notFrom 0 (body.get "blockCount") then throw "placement_block_count_invalid"
  if notFrom 1 (body.get "sequence") then throw "placement_sequence_invalid"
  let holder ← holderOf (body.get "holderNodeId")
  if !strictEq (body.get "requestCapability")
      (some (.string (distributedRequestCapability P root holder index))) then
    throw "placement_request_capability_mismatch"
  let nodeId ← P.nodeIdFromPublicKey ((record.get "publicKey").getD .null)
  if nodeId ≠ holder then throw "placement_holder_key_mismatch"
  let digest ← Dht.hash P (some body)
  if !strictEq (some (.string (js "truyn:placement:" ++ digest))) (record.get "recordId") then
    throw "placement_content_id_mismatch"
  let issued ← getTime P (record.get "issuedAt")
  let expires ← getTime P (record.get "expiresAt")
  let expires ← laterThan issued expires
  if !allowExpired ∧ expires ≤ now then throw "placement_expired"
  let signed := members ["body", "expiresAt", "issuedAt", "recordId"] record
  if !(← P.verifyValue signed ((record.get "signature").getD .null)
      ((record.get "publicKey").getD .null)) then throw "placement_signature_invalid"
  return expires

def verifyPlacementRevocation (revocation : Value) : Except String Unit := do
  if ["revocationId", "body", "revokedAt", "publicKey", "signature"].any
      fun k => !truthy (revocation.get k) then throw "placement_revocation_missing_required_field"
  let body := bodyOf revocation
  if !strictEq (body.get "protocol") (some (.string (js "truyn-placement-revoke-v1"))) ∨
      !strictEq (body.get "version") (some (.number 1)) then
    throw "placement_revocation_protocol_mismatch"
  let nodeId ← P.nodeIdFromPublicKey ((revocation.get "publicKey").getD .null)
  if !strictEq (some (.string nodeId)) (body.get "holderNodeId") then
    throw "placement_revocation_holder_key_mismatch"
  let digest ← Dht.hash P (some body)
  if !strictEq (some (.string (js "truyn:placement-revoke:" ++ digest)))
      (revocation.get "revocationId") then throw "placement_revocation_content_id_mismatch"
  let signed := members ["body", "revocationId", "revokedAt"] revocation
  if !(← P.verifyValue signed ((revocation.get "signature").getD .null)
      ((revocation.get "publicKey").getD .null)) then throw "placement_revocation_signature_invalid"

/-! ### Directories -/

structure Directory where
  records : List (JsString × Value)
  revocations : List (JsString × Value)

def Directory.new : Directory := ⟨[], []⟩

inductive Ingest
  | accepted
  | refused (reason : String)
  | threw

variable (d : Directory)

def Directory.ingestRecord (record : Value) (now : ℤ) : Directory × Ingest :=
  match verifyPlacementRecord P record now false with
  | .error reason => (d, .refused reason)
  | .ok _ =>
    match placementKey P (bodyOf record) with
    | .error _ => (d, .threw)
    | .ok key =>
      match Maps.get d.records key with
      | none => ({ d with records := Maps.set key record d.records }, .accepted)
      | some existing =>
        match Dht.greater P.toLanguage (sequenceOf existing) (sequenceOf record) with
        | none => (d, .threw)
        | some true => (d, .refused "placement_older_sequence")
        | some false =>
          if strictEq (sequenceOf existing) (sequenceOf record) &&
              !strictEq (existing.get "recordId") (record.get "recordId") then
            (d, .refused "placement_equivocation_same_sequence")
          else ({ d with records := Maps.set key record d.records }, .accepted)

def Directory.ingestRevocation (revocation : Value) : Directory × Ingest :=
  match verifyPlacementRevocation P revocation with
  | .error reason => (d, .refused reason)
  | .ok () =>
    match placementKey P (bodyOf revocation) with
    | .error _ => (d, .threw)
    | .ok key =>
      match Maps.get d.revocations key with
      | none => ({ d with revocations := Maps.set key revocation d.revocations }, .accepted)
      | some existing =>
        match Dht.atMost P.toLanguage (sequenceOf existing) (sequenceOf revocation) with
        | none => (d, .threw)
        | some true =>
          ({ d with revocations := Maps.set key revocation d.revocations }, .accepted)
        | some false => (d, .accepted)

/-- `revocation.body.sequence >= record.body.sequence`. -/
def covers (revocation record : Value) : Option Bool :=
  Dht.atMost P.toLanguage (sequenceOf record) (sequenceOf revocation)

/-- By partition, then by holder. -/
def Before (a b : Value) : Prop :=
  let index (v : Value) : ℤ := (integer ((bodyOf v).get "partitionIndex")).getD 0
  let holder (v : Value) : JsString :=
    match (bodyOf v).get "holderNodeId" with
    | some (.string holder) => holder
    | _ => []
  index a < index b ∨ index a = index b ∧ P.collation.le (holder a) (holder b) = true

instance : DecidableRel (Before P) := fun _ _ => inferInstanceAs (Decidable (_ ∨ _ ∧ _))

/-- `none` is thrown. -/
def Directory.find (root : JsString) (now : ℤ) : Option (List Value) :=
  match normalizeRootCid (some (.string root)) with
  | .error _ => none
  | .ok root =>
    let live := d.records.filter fun r =>
      strictEq ((bodyOf r.2).get "rootCid") (some (.string root)) &&
        (verifyPlacementRecord P r.2 now false).isOk
    let revoked (r : JsString × Value) : Option Bool :=
      match Maps.get d.revocations r.1 with
      | none => some false
      | some revocation => covers P revocation r.2
    if live.any fun r => (revoked r).isNone then none
    else some (((live.filter fun r => revoked r = some false).map Prod.snd).insertionSort (Before P))

/-- Gives what is there, in the order of the maps. -/
def Directory.exportState : List Value × List Value :=
  (d.records.map Prod.snd, d.revocations.map Prod.snd)

/-- One item after the other; `none` is thrown, and ends it. -/
def importAll (ingest : Directory → Value → Directory × Ingest) :
    Directory → ℕ → List Value → Directory × Option ℕ
  | d, accepted, [] => (d, some accepted)
  | d, accepted, item :: items =>
    match ingest d item with
    | (d, .threw) => (d, none)
    | (d, .accepted) => importAll ingest d (accepted + 1) items
    | (d, .refused _) => importAll ingest d accepted items

def Directory.importState (state : List Value × List Value) (now : ℤ) : Directory × Option (ℕ × ℕ) :=
  match importAll (fun d r => d.ingestRecord P r now) d 0 state.1 with
  | (d, none) => (d, none)
  | (d, some records) =>
    match importAll (fun d v => d.ingestRevocation P v) d 0 state.2 with
    | (d, none) => (d, none)
    | (d, some revocations) => (d, some (records, revocations))

/-! ### Verified records -/

variable {P} {record : Value} {now expires : ℤ} {allowExpired : Bool}

/-- A record that verifies verifies until it expires. -/
theorem verify_at {later : ℤ} {allow : Bool}
    (h : verifyPlacementRecord P record now allowExpired = .ok expires)
    (hlater : allow = true ∨ later < expires) :
    verifyPlacementRecord P record later allow = .ok expires := by
  simp only [verifyPlacementRecord, guard_ok, bind_ok] at h ⊢
  obtain ⟨hfields, hprotocol, root, hroot, index, hindex, hcount, hsequence, holder, hholder,
    hcapability, nodeId, hnodeId, hkey, digest, hdigest, hid, issued, hissued, expires', hexpires,
    last, hlast, -, verified, hverified, hsignature, hresult⟩ := h
  obtain rfl := Except.ok.inj hresult
  refine ⟨hfields, hprotocol, root, hroot, index, hindex, hcount, hsequence, holder, hholder,
    hcapability, nodeId, hnodeId, hkey, digest, hdigest, hid, issued, hissued, expires', hexpires,
    last, hlast, ?_, verified, hverified, hsignature, rfl⟩
  rcases hlater with rfl | hlater
  · simp
  · omega

theorem integer_eq {value : Option Value} {n : ℤ} (h : integer value = some n) :
    value = some (.number n) := by
  unfold integer at h
  split at h
  · next x =>
    split at h
    · next hden =>
      cases h
      rw [Rat.den_eq_one_iff] at hden
      rw [hden]
    · cases h
  · cases h

/-- What the checks of a record say. -/
structure Verified (P : Platform) (record : Value) : Prop where
  sequence : ∃ n : ℤ, sequenceOf record = some (.number n)
  key : ∃ key, placementKey P (bodyOf record) = .ok key
  root : ∃ root, (bodyOf record).get "rootCid" = some (.string root) ∧
    normalizeRootCid (some (.string root)) = .ok root
  recordId : ∃ id, record.get "recordId" = some (.string id)

theorem verified (h : verifyPlacementRecord P record now allowExpired = .ok expires) :
    Verified P record := by
  simp only [verifyPlacementRecord, guard_ok, bind_ok] at h
  obtain ⟨-, -, root, hroot, index, hindex, -, hsequence, holder, hholder,
    -, -, -, -, digest, -, hid, -⟩ := h
  have hstring : (bodyOf record).get "rootCid" = some (.string root) ∧
      normalizeRootCid (some (.string root)) = .ok root := by
    rw [normalizeRootCid.eq_def] at hroot
    split at hroot
    · next s hs =>
      split at hroot
      · next hstart =>
        cases hroot
        exact ⟨hs, by rw [normalizeRootCid, if_pos hstart]⟩
      · cases hroot
    · cases hroot
  refine ⟨?_, ?_, ⟨root, hstring⟩, ?_⟩
  · unfold notFrom at hsequence
    split at hsequence
    · next n hn => exact ⟨n, integer_eq hn⟩
    · simp at hsequence
  · have hi : ∃ s, Dht.string P ((bodyOf record).get "partitionIndex") = .ok s := by
      unfold normalizePartition at hindex
      split at hindex
      · split at hindex
        · cases hindex
        · split at hindex
          · next n hn =>
            rw [integer_eq hn]
            exact ⟨P.numberText n, rfl⟩
          · cases hindex
      · cases hindex
    have hh : ∃ s, Dht.string P ((bodyOf record).get "holderNodeId") = .ok s := by
      unfold holderOf at hholder
      split at hholder
      · next c rest hs =>
        rw [hs]
        exact ⟨c :: rest, rfl⟩
      · cases hholder
    obtain ⟨i, hi⟩ := hi
    obtain ⟨s, hs⟩ := hh
    exact ⟨_, by rw [placementKey, hroot, hi, hs]; rfl⟩
  · rw [Bool.not_eq_true', Bool.not_eq_false] at hid
    exact ⟨_, (Dht.eq_of_strictEq hid).symm⟩

end Truyn.Discovery
