import Truyn.Context.Partitions

/-! context:holders | what a holder of a partition has, and the candidates that it signs

    A holder's blocks are accepted when they are those of its partition, in any order and with
    repetitions. A candidate comes with a receipt, whose payload is made again from what was asked
    and compared as text; so what is accepted was signed for that root, query, holder and block
    (`partitions_verified`). -/

namespace Truyn.Context
open Checks

/-- Ed25519 over texts; `verify` throws on a key that is none. -/
structure Signatures extends Platform where
  sign : JsString → JsString → JsString
  verify : JsString → JsString → JsString → Option Bool

structure Identity where
  nodeId : JsString
  privateKeyPem : JsString

structure HolderRef where
  nodeId : JsString
  partitionIndex : ℤ
  partitionCount : ℤ

structure Receipt where
  payload : Json
  signature : JsString

/-- A candidate as it came in; `payload` and `signature` are those of its receipt. -/
structure Candidate extends Item where
  bytes : Option Json
  localRank : Option Json
  payload : Option Json
  signature : Option JsString

/-- The text of an integer. -/
def intText (z : ℤ) : NumberText where
  text := if 0 ≤ z then numeral z.toNat else 45 :: numeral (-z).toNat
  first := by
    split
    · exact (NumberText.ofNat _).first
    · exact ⟨45, _, rfl, .inl rfl⟩
  units := by
    split
    · exact (NumberText.ofNat _).units
    · intro u hu
      rcases List.mem_cons.mp hu with rfl | hu
      · decide
      · exact (NumberText.ofNat _).units u hu

/-- `bytes ?? Buffer.byteLength(text)` -/
def bytesOr (bytes : Option Json) (text : JsString) : Json :=
  match bytes with
  | none | some .null => .number (.ofNat (byteLength text))
  | some v => v

/-- The members of a receipt's payload; a rank that is `undefined` has no text. -/
def receiptMembers (rootCid queryHash : JsString) (h : HolderRef) (id cid : JsString) (bytes : Json)
    (localRank : Option Json) : List (JsString × Json) :=
  [(js "version", .number (.ofNat 1)),
    (js "protocol", .string (js "truyn-distributed-context-v1")),
    (js "rootCid", .string rootCid), (js "queryHash", .string queryHash),
    (js "holderNodeId", .string h.nodeId),
    (js "partitionIndex", .number (intText h.partitionIndex)),
    (js "partitionCount", .number (intText h.partitionCount)),
    (js "blockId", .string id), (js "blockCid", .string cid), (js "bytes", bytes)] ++
    localRank.toList.map fun rank => (js "localRank", rank)

def receiptPayload (rootCid queryHash : JsString) (h : HolderRef) (id cid : JsString) (bytes : Json)
    (localRank : Option Json) : Json :=
  .object (receiptMembers rootCid queryHash h id cid bytes localRank)

variable (S : Signatures)

def signValue (value : Json) (privateKeyPem : JsString) : Except JsString JsString := do
  let canonical ← value.canonicalize
  return S.sign privateKeyPem canonical

def createDistributedHolderReceipt (identity : Identity) (rootCid queryHash : JsString)
    (id cid text : JsString) (bytes : Option Json) (index count : ℤ) (localRank : Option Json) :
    Except JsString Receipt := do
  if identity.nodeId = [] ∨ identity.privateKeyPem = [] then
    throw (js "distributed holder identity is required")
  if localRank.isNone then throw (js "TCJ1 requires JSON value")
  let payload := receiptPayload rootCid queryHash ⟨identity.nodeId, index, count⟩ id cid
    (bytesOr bytes text) localRank
  let signature ← signValue S payload identity.privateKeyPem
  return ⟨payload, signature⟩

/-- The candidate of a block with its receipt, as it comes out of JSON. -/
def candidateOf (id cid text : JsString) (bytes localRank : Option Json) (r : Receipt) : Candidate :=
  ⟨⟨some id, some cid, some text⟩, bytes, localRank, some r.payload, some r.signature⟩

/-- `none`, or the reason to refuse. -/
def checkReceipt (rootCid queryHash : JsString) (h : HolderRef) (c : Candidate) (payload : Json)
    (signature publicKeyPem : JsString) : Except JsString (Option JsString) := do
  let partition ← distributedPartitionForBlockCid (c.cid.getD []) h.partitionCount
  if partition ≠ h.partitionIndex then return some (js "distributed_candidate_wrong_partition")
  else
    let expected := receiptPayload rootCid queryHash h (c.id.getD []) (c.cid.getD [])
      (bytesOr c.bytes (c.text.getD [])) c.localRank
    if payload.text ≠ expected.text then
      return some (js "distributed_candidate_receipt_payload_mismatch")
    else
      let canonical ← payload.canonicalize
      match S.verify publicKeyPem canonical signature with
      | none => throw (js "invalid key")
      | some false => return some (js "distributed_candidate_receipt_signature_invalid")
      | some true => return none

def verifyDistributedCandidate (m : Manifest) (rootCid queryHash : JsString) (h : HolderRef)
    (c : Candidate) (publicKeyPem : JsString) : Except JsString (Option JsString) :=
  match c.payload, c.signature with
  | some payload, some signature =>
    if !payload.truthy then return some (js "distributed_candidate_receipt_missing")
    else do
      let selection ← verifyContextSelection S.toPlatform m [c.toItem] (some rootCid)
      match selection with
      | some reason => return some reason
      | none => checkReceipt S rootCid queryHash h c payload signature publicKeyPem
  | _, _ => return some (js "distributed_candidate_receipt_missing")

variable {S : Signatures} {P : Platform} {m : Manifest} {refs part : List Ref} {index count : ℤ}
  {blocks : List Item}

/-- A manifest that verifies, with distinct blocks under their digests. -/
structure Proper (P : Platform) (m : Manifest) (refs : List Ref) : Prop where
  verified : ∃ root, m.cid = some root ∧ verifyContextManifest P m m.cid = .ok root
  read : m.refs = .ok refs
  ids : (refs.map Ref.id).Nodup
  cids : (refs.map Ref.cid).Nodup
  digests : ∀ r ∈ refs, IsBlockCid r.cid

/-! ### Selections and partitions -/

theorem verifyContextSelection_ok {expectedCid : Option JsString} :
    verifyContextSelection P m blocks expectedCid = .ok none ↔
      ∃ root refs, verifyContextManifest P m expectedCid = .ok root ∧ m.refs = .ok refs ∧
        ∀ b ∈ blocks, selectBlock P refs b = .ok none := by
  unfold verifyContextSelection
  cases hroot : verifyContextManifest P m expectedCid with
  | error reason => simp [pure, Except.pure]
  | ok root =>
    cases hrefs : m.refs with
    | error reason => simp [pure, Except.pure]
    | ok refs => simp [selectAll_ok]

theorem expectedManifestPartition_ok (h : expectedManifestPartition P m index count = .ok part) :
    0 ≤ index ∧ index < count ∧
      ∃ refs, m.refs = .ok refs ∧ inPartition index count refs = .ok part := by
  simp only [expectedManifestPartition, bind_ok, guard_ok, not_or, not_lt, not_le] at h
  obtain ⟨-, -, ⟨hlo, hhi⟩, refs, hrefs, hpart⟩ := h
  exact ⟨hlo, hhi, refs, hrefs, hpart⟩

/-- The blocks of a partition are those whose digest lies in it. -/
theorem mem_partition (hm : Proper P m refs)
    (h : expectedManifestPartition P m index count = .ok part) (r : Ref) :
    r ∈ part ↔ r ∈ refs ∧ distributedPartitionForBlockCid r.cid count = .ok index := by
  obtain ⟨-, -, refs', hrefs, hpart⟩ := expectedManifestPartition_ok h
  cases hm.read.symm.trans hrefs
  rw [(inPartition_ok hpart).1, List.mem_filter, decide_eq_true_iff]

theorem Proper.partition (hm : Proper P m refs) (hlo : 1 ≤ count) (hhi : count ≤ 4096)
    (h0 : 0 ≤ index) (hn : index < count) :
    ∃ part, expectedManifestPartition P m index count = .ok part := by
  obtain ⟨root, -, hroot⟩ := hm.verified
  obtain ⟨part, hpart⟩ : ∃ part, inPartition index count refs = .ok part :=
    inPartition_total fun r hr =>
      (partition_of_blockCid (hm.digests r hr) hlo hhi).imp fun k hk => hk.1
  refine ⟨part, ?_⟩
  simp only [expectedManifestPartition, bind_ok, guard_ok, mapError_ok, not_or, not_lt, not_le]
  exact ⟨root, hroot, ⟨h0, hn⟩, refs, hm.read, hpart⟩

/-- Each block lies in one partition. -/
theorem Proper.cover (hm : Proper P m refs) (hlo : 1 ≤ count) (hhi : count ≤ 4096) {r : Ref}
    (hr : r ∈ refs) :
    ∃! k, ∃ part, expectedManifestPartition P m k count = .ok part ∧ r ∈ part := by
  obtain ⟨k, hk, h0, hn⟩ := partition_of_blockCid (hm.digests r hr) hlo hhi
  obtain ⟨part, hpart⟩ := hm.partition hlo hhi h0 hn
  refine ⟨k, ⟨part, hpart, (mem_partition hm hpart r).mpr ⟨hr, hk⟩⟩, ?_⟩
  rintro j ⟨part', hpart', hmem⟩
  have hj := ((mem_partition hm hpart' r).mp hmem).2
  exact Except.ok.inj (hj.symm.trans hk)

/-! ### The blocks of a holder -/

theorem checkInside_ok {u : Unit} : checkInside index count blocks = .ok u ↔
    ∀ b ∈ blocks, distributedPartitionForBlockCid (b.cid.getD []) count = .ok index := by
  induction blocks with
  | nil => simp [checkInside, pure, Except.pure]
  | cons b bs ih =>
    simp only [checkInside, bind_ok, guard_ok, not_not, List.forall_mem_cons, ih]
    constructor
    · rintro ⟨k, hk, rfl, hbs⟩
      exact ⟨hk, hbs⟩
    · rintro ⟨hk, hbs⟩
      exact ⟨index, hk, rfl, hbs⟩

/-- A holder's blocks are those of the partition, each with its true content. -/
def Holds (P : Platform) (blocks : List Item) (part : List Ref) : Prop :=
  (∀ b ∈ blocks, ∃ r ∈ part, b.Is P r) ∧ ∀ r ∈ part, ∃ b ∈ blocks, b.Is P r

theorem Proper.holds_of_valid (hm : Proper P m refs) {n : ℕ}
    (h : validateHolderPartition P m blocks index count = .ok n) :
    ∃ part, expectedManifestPartition P m index count = .ok part ∧ Holds P blocks part := by
  simp only [validateHolderPartition, bind_ok, guard_ok, not_not] at h
  obtain ⟨selection, hselection, rfl, part, hpart, -, hcids, u, hinside, -⟩ := h
  obtain ⟨root, refs', -, hrefs, hblocks⟩ := verifyContextSelection_ok.mp hselection
  cases hm.read.symm.trans hrefs
  have his : ∀ b ∈ blocks, ∃ r ∈ part, b.Is P r := by
    intro b hb
    obtain ⟨r, hr, hbr⟩ := selectBlock_sound (hblocks b hb)
    have hk := checkInside_ok.mp hinside b hb
    rw [hbr.2.1, Option.getD_some] at hk
    exact ⟨r, (mem_partition hm hpart r).mpr ⟨hr, hk⟩, hbr⟩
  refine ⟨part, hpart, his, fun r hr => ?_⟩
  have hmem : some r.cid ∈ (blocks.map Item.cid).eraseDups :=
    hcids _ (List.mem_eraseDups.mpr (List.mem_map_of_mem hr))
  obtain ⟨b, hb, hcid⟩ := List.mem_map.mp (List.mem_eraseDups.mp hmem)
  obtain ⟨r', hr', hbr⟩ := his b hb
  -- Distinct blocks have distinct CIDs, so the block with this CID is the one that is expected.
  obtain rfl : r' = r := by
    refine List.inj_on_of_nodup_map hm.cids ((mem_partition hm hpart r').mp hr').1
      ((mem_partition hm hpart r).mp hr).1 ?_
    exact Option.some.inj (hbr.2.1.symm.trans hcid)
  exact ⟨b, hb, hbr⟩

theorem Proper.valid_of_holds (hm : Proper P m refs)
    (hpart : expectedManifestPartition P m index count = .ok part) (h : Holds P blocks part) :
    validateHolderPartition P m blocks index count = .ok part.length := by
  obtain ⟨root, -, hroot⟩ := hm.verified
  have hin := mem_partition hm hpart
  have hselection : verifyContextSelection P m blocks m.cid = .ok none := by
    refine verifyContextSelection_ok.mpr ⟨root, refs, hroot, hm.read, fun b hb => ?_⟩
    obtain ⟨r, hr, hbr⟩ := h.1 b hb
    exact selectBlock_complete hm.ids ((hin r).mp hr).1 hbr
  have hsame : ∀ c, c ∈ (part.map fun r => some r.cid).eraseDups ↔
      c ∈ (blocks.map Item.cid).eraseDups := by
    intro c
    rw [List.mem_eraseDups, List.mem_eraseDups, List.mem_map, List.mem_map]
    constructor
    · rintro ⟨r, hr, rfl⟩
      obtain ⟨b, hb, hbr⟩ := h.2 r hr
      exact ⟨b, hb, hbr.2.1⟩
    · rintro ⟨b, hb, rfl⟩
      obtain ⟨r, hr, hbr⟩ := h.1 b hb
      exact ⟨r, hr, hbr.2.1.symm⟩
  have hlength : (part.map fun r => some r.cid).eraseDups.length =
      (blocks.map Item.cid).eraseDups.length :=
    ((List.perm_ext_iff_of_nodup (nodup_eraseDups _) (nodup_eraseDups _)).mpr hsame).length_eq
  have hnodup : (part.map fun r => some r.cid).Nodup := by
    obtain ⟨-, -, refs', hrefs, hlist⟩ := expectedManifestPartition_ok hpart
    cases hm.read.symm.trans hrefs
    have hcids : (part.map Ref.cid).Nodup := by
      rw [(inPartition_ok hlist).1]
      exact hm.cids.sublist (List.filter_sublist.map _)
    have hsome := hcids.map (Option.some_injective _)
    rwa [List.map_map] at hsome
  have hpartLength : (part.map fun r => some r.cid).eraseDups.length = part.length := by
    have hperm := (List.perm_ext_iff_of_nodup (nodup_eraseDups _) hnodup).mpr fun c =>
      List.mem_eraseDups
    rw [hperm.length_eq, List.length_map]
  have hinside : checkInside index count blocks = .ok () := by
    refine checkInside_ok.mpr fun b hb => ?_
    obtain ⟨r, hr, hbr⟩ := h.1 b hb
    rw [hbr.2.1]
    exact ((hin r).mp hr).2
  simp only [validateHolderPartition, bind_ok, guard_ok, not_not]
  exact ⟨none, hselection, rfl, part, hpart, hlength, fun c hc => (hsame c).mp hc, (), hinside,
    by rw [← hlength, hpartLength]; rfl⟩

/-! ### Candidates -/

/-- A receipt passes when its payload is the one that is expected and the signature is over it. -/
theorem checkReceipt_ok {payload : Json} {signature : JsString} :
    checkReceipt S rootCid queryHash h c payload signature publicKeyPem = .ok none ↔
      distributedPartitionForBlockCid (c.cid.getD []) h.partitionCount = .ok h.partitionIndex ∧
      payload = receiptPayload rootCid queryHash h (c.id.getD []) (c.cid.getD [])
        (bytesOr c.bytes (c.text.getD [])) c.localRank ∧
      ∃ canonical, payload.canonicalize = .ok canonical ∧
        S.verify publicKeyPem canonical signature = some true := by
  unfold checkReceipt
  rw [bind_ok]
  constructor
  · rintro ⟨partition, hpartition, hok⟩
    by_cases hne : partition ≠ h.partitionIndex
    · rw [if_pos hne] at hok
      simp [pure, Except.pure] at hok
    rw [if_neg hne] at hok
    dsimp only at hok
    split at hok
    · simp [pure, Except.pure] at hok
    next htext =>
    obtain ⟨canonical, hcanonical, hok⟩ := bind_ok.mp hok
    refine ⟨not_not.mp hne ▸ hpartition, Json.text_injective (not_not.mp htext), canonical,
      hcanonical, ?_⟩
    cases hverify : S.verify publicKeyPem canonical signature with
    | none => simp [hverify, throw, throwThe, MonadExceptOf.throw] at hok
    | some b =>
      cases b with
      | true => rfl
      | false => simp [hverify, pure, Except.pure] at hok
  · rintro ⟨hpartition, rfl, canonical, hcanonical, hverify⟩
    refine ⟨h.partitionIndex, hpartition, ?_⟩
    rw [if_neg (not_not.mpr rfl)]
    dsimp only
    rw [if_neg (not_not.mpr rfl), bind_ok]
    exact ⟨canonical, hcanonical, by rw [hverify]; rfl⟩

/-- The receipt of a candidate that is accepted is the one that was asked for. -/
theorem verifyDistributedCandidate_sound
    (hok : verifyDistributedCandidate S m rootCid queryHash h c publicKeyPem = .ok none) :
    ∃ refs r canonical signature, m.refs = .ok refs ∧
      verifyContextManifest S.toPlatform m (some rootCid) = .ok rootCid ∧ r ∈ refs ∧
      c.Is S.toPlatform r ∧
      distributedPartitionForBlockCid r.cid h.partitionCount = .ok h.partitionIndex ∧
      (receiptPayload rootCid queryHash h r.id r.cid (bytesOr c.bytes (c.text.getD []))
        c.localRank).canonicalize = .ok canonical ∧
      c.signature = some signature ∧ S.verify publicKeyPem canonical signature = some true := by
  unfold verifyDistributedCandidate at hok
  split at hok
  · next payload signature hpayload hsignature =>
    split at hok
    · simp [pure, Except.pure] at hok
    obtain ⟨selection, hselection, hok⟩ := bind_ok.mp hok
    cases selection with
    | some reason => simp [pure, Except.pure] at hok
    | none =>
      obtain ⟨root, refs, hroot, hrefs, hblocks⟩ := verifyContextSelection_ok.mp hselection
      obtain ⟨r, hr, hcr⟩ := selectBlock_sound (hblocks c.toItem (List.mem_singleton_self _))
      obtain rfl : root = rootCid := by
        simp only [verifyContextManifest, bind_ok, guard_ok, pure_ok, not_or, not_not] at hroot
        obtain ⟨-, refs, -, cid, -, ⟨hcid, -⟩, rfl⟩ := hroot
        exact Option.some.inj hcid
      obtain ⟨hpartition, rfl, canonical, hcanonical, hverify⟩ := checkReceipt_ok.mp hok
      rw [hcr.2.1, Option.getD_some] at hpartition
      rw [hcr.1, hcr.2.1, Option.getD_some, Option.getD_some] at hcanonical
      exact ⟨refs, r, canonical, signature, hrefs, hroot, hr, hcr, hpartition, hcanonical,
        hsignature, hverify⟩
  · simp [pure, Except.pure] at hok

/-- A candidate with the receipt that its holder signed is accepted. -/
theorem Proper.accepts (hm : Proper S.toPlatform m refs) {r : Ref} {part : List Ref}
    {identity : Identity} {text : JsString} {bytes localRank : Option Json} {receipt : Receipt}
    (hroot : m.cid = some rootCid)
    (hpart : expectedManifestPartition S.toPlatform m index count = .ok part) (hr : r ∈ part)
    (htext : contextBlockCid S.toPlatform r.id text = .ok r.cid)
    (hkeys : ∀ t, S.verify publicKeyPem t (S.sign identity.privateKeyPem t) = some true)
    (hreceipt : createDistributedHolderReceipt S identity rootCid queryHash r.id r.cid text bytes
      index count localRank = .ok receipt) :
    verifyDistributedCandidate S m rootCid queryHash ⟨identity.nodeId, index, count⟩
      (candidateOf r.id r.cid text bytes localRank receipt) publicKeyPem = .ok none := by
  obtain ⟨hrefs, hindex⟩ := (mem_partition hm hpart r).mp hr
  obtain ⟨root, hcid, hverified⟩ := hm.verified
  simp only [createDistributedHolderReceipt, signValue, bind_ok, guard_ok, pure_ok] at hreceipt
  obtain ⟨-, -, signature, ⟨canonical, hcanonical, rfl⟩, rfl⟩ := hreceipt
  have hselection : verifyContextSelection S.toPlatform m
      [⟨some r.id, some r.cid, some text⟩] (some rootCid) = .ok none := by
    rw [← hroot]
    refine verifyContextSelection_ok.mpr ⟨root, refs, hverified, hm.read, fun b hb => ?_⟩
    obtain rfl := List.mem_singleton.mp hb
    exact selectBlock_complete hm.ids hrefs ⟨rfl, rfl, text, rfl, htext⟩
  unfold verifyDistributedCandidate candidateOf
  dsimp only
  rw [if_neg (by simp [receiptPayload, Json.truthy]), bind_ok]
  exact ⟨none, hselection, checkReceipt_ok.mpr ⟨hindex, rfl, canonical, hcanonical, hkeys canonical⟩⟩

/-- Distributed partitions: with distinct blocks under their digests, each block lies in one of the
    partitions, a holder's blocks are accepted when they are those of its partition with their true
    content, and so are the candidates it signs. Whatever is accepted of a manifest is one of its
    blocks, in the holder's partition, and its receipt is signed. -/
theorem partitions_verified (S : Signatures) (m : Manifest) :
    (∀ refs count, Proper S.toPlatform m refs → 1 ≤ count → count ≤ 4096 →
      (∀ r ∈ refs, ∃! k, ∃ part,
        expectedManifestPartition S.toPlatform m k count = .ok part ∧ r ∈ part) ∧
      ∀ index, 0 ≤ index → index < count → ∃ part,
        expectedManifestPartition S.toPlatform m index count = .ok part ∧
        (∀ blocks n, validateHolderPartition S.toPlatform m blocks index count = .ok n ↔
          Holds S.toPlatform blocks part ∧ n = part.length) ∧
        ∀ r ∈ part, ∀ rootCid queryHash identity publicKeyPem text bytes localRank receipt,
          m.cid = some rootCid → contextBlockCid S.toPlatform r.id text = .ok r.cid →
          (∀ t, S.verify publicKeyPem t (S.sign identity.privateKeyPem t) = some true) →
          createDistributedHolderReceipt S identity rootCid queryHash r.id r.cid text bytes index
            count localRank = .ok receipt →
          verifyDistributedCandidate S m rootCid queryHash ⟨identity.nodeId, index, count⟩
            (candidateOf r.id r.cid text bytes localRank receipt) publicKeyPem = .ok none) ∧
    ∀ rootCid queryHash h c publicKeyPem (signed : JsString → Prop),
      (∀ t signature, S.verify publicKeyPem t signature = some true → signed t) →
      verifyDistributedCandidate S m rootCid queryHash h c publicKeyPem = .ok none →
      ∃ refs r canonical, m.refs = .ok refs ∧
        verifyContextManifest S.toPlatform m (some rootCid) = .ok rootCid ∧ r ∈ refs ∧
        c.Is S.toPlatform r ∧
        distributedPartitionForBlockCid r.cid h.partitionCount = .ok h.partitionIndex ∧
        (receiptPayload rootCid queryHash h r.id r.cid (bytesOr c.bytes (c.text.getD []))
          c.localRank).canonicalize = .ok canonical ∧ signed canonical := by
  refine ⟨fun refs count hm hlo hhi => ⟨fun r hr => hm.cover hlo hhi hr, fun index h0 hn => ?_⟩,
    fun rootCid queryHash h c publicKeyPem signed hsigned hok => ?_⟩
  · obtain ⟨part, hpart⟩ := hm.partition hlo hhi h0 hn
    refine ⟨part, hpart, fun blocks n => ⟨fun hn => ?_, ?_⟩, ?_⟩
    · obtain ⟨part', hpart', hholds⟩ := hm.holds_of_valid hn
      cases hpart.symm.trans hpart'
      exact ⟨hholds, Except.ok.inj (hn.symm.trans (hm.valid_of_holds hpart hholds))⟩
    · rintro ⟨hholds, rfl⟩
      exact hm.valid_of_holds hpart hholds
    · intro r hr rootCid queryHash identity publicKeyPem text bytes localRank receipt hroot htext
        hkeys hreceipt
      exact hm.accepts hroot hpart hr htext hkeys hreceipt
  · obtain ⟨refs, r, canonical, signature, hrefs, hroot, hr, hcr, hpartition, hcanonical, -,
      hverify⟩ := verifyDistributedCandidate_sound hok
    exact ⟨refs, r, canonical, hrefs, hroot, hr, hcr, hpartition, hcanonical,
      hsigned canonical signature hverify⟩

/-! ### Manifests of one and two blocks -/

def hexX : JsString := hexText 0x40c0bc08fb0525db40e29b471e3a9d104357bddc4e10f852cb32d53cd4feb59b

def hexY : JsString := hexText 0xce8b78724affc3d8052d59edf0c2846cf36e2fc13d0804009c331e0d4831292c

def hexZ : JsString := hexText 0x94099aa76b0a8497d8bed867f0bca09ea29877dffca3ccc195f6f1f7805d3670

/-- The block `a` with the text `x`, or `y`. -/
def refX : Ref := ⟨js "a", blockPrefix ++ hexX⟩

def refY : Ref := ⟨js "a", blockPrefix ++ hexY⟩

/-- The block `b` with the text `z`. -/
def refZ : Ref := ⟨js "b", blockPrefix ++ hexZ⟩

/-- A block whose CID is a prefix and a negative number. -/
def refSigned : Ref := ⟨js "a", blockPrefix ++ js "-5"⟩

/-- A block with the CID of another one. -/
def refB : Ref := ⟨js "b", blockPrefix ++ hexX⟩

/-- The digests of these blocks and their manifests; a signature names the key. -/
def someDigests : Signatures where
  collation := ⟨unitsLe, unitsLe_trans, unitsLe_total⟩
  sha256 t :=
    if t = blockText (js "a") (js "x") then hexX
    else if t = blockText (js "a") (js "y") then hexY
    else if t = blockText (js "b") (js "z") then hexZ
    else if t = manifestText [refX] then
      hexText 0x7b4432e82066e8817e0dde0b028e4588cdea5dafa3e7a9a1d7b6812e539332bb
    else if t = manifestText [refSigned] then
      hexText 0x546d2e0d34c5f11989bc7d7cfb2084033a50e477638f97cf528938d3beaf4865
    else if t = manifestText [refX, refY] then
      hexText 0x32d0b324ce6b304e670cbd35136143a6f9af474aefc93f1f750c717b4a78fa75
    else if t = manifestText [refX, refZ] then
      hexText 0xefb6ee9c375b200c34847f433263391ce36519d79ad2dcda14ed5b8eba03e04b
    else hexText 0x277e75ad7a7f8780672cee1612ac18ed20f7fd443ae8df10b4b6666858975ffb
  sign key t := key ++ t
  verify key t signature := some (signature = key ++ t)

def manifestOf (refs : List Ref) : Manifest :=
  ⟨some 1, some (js "truyn:ctx:" ++ someDigests.sha256 (manifestText refs)),
    some (refs.map fun r => ⟨some r.id, some r.cid⟩)⟩

def itemOf (r : Ref) (text : JsString) : Item := ⟨some r.id, some r.cid, some text⟩

/-- A document of two blocks, which lie in different ones of two partitions. -/
def twoBlocks : Manifest := manifestOf [refX, refZ]

set_option maxRecDepth 4000 in
theorem proper_two : Proper someDigests.toPlatform twoBlocks [refX, refZ] where
  verified := ⟨_, rfl, by decide⟩
  read := by rfl
  ids := by decide
  cids := by decide
  digests := by
    have hx : hexX.all (fun u => decide (IsHex u)) = true := by rfl
    have hz : hexZ.all (fun u => decide (IsHex u)) = true := by rfl
    intro r hr
    rcases List.mem_pair.mp hr with rfl | rfl
    · exact ⟨hexX, rfl, by rfl, fun u hu => of_decide_eq_true (List.all_eq_true.mp hx u hu)⟩
    · exact ⟨hexZ, rfl, by rfl, fun u hu => of_decide_eq_true (List.all_eq_true.mp hz u hu)⟩

set_option maxRecDepth 4000 in
/-- Each partition has one block, and its holder signs a candidate that is accepted. -/
theorem partitions_verified_two :
    expectedManifestPartition someDigests.toPlatform twoBlocks 0 2 = .ok [refZ] ∧
    expectedManifestPartition someDigests.toPlatform twoBlocks 1 2 = .ok [refX] ∧
    (∀ blocks n, validateHolderPartition someDigests.toPlatform twoBlocks blocks 1 2 = .ok n ↔
      Holds someDigests.toPlatform blocks [refX] ∧ n = 1) ∧
    ∀ rootCid ∈ twoBlocks.cid, ∃ receipt,
      createDistributedHolderReceipt someDigests ⟨js "h", js "k"⟩ rootCid (js "q") refX.id refX.cid
        (js "x") none 1 2 (some .null) = .ok receipt ∧
      verifyDistributedCandidate someDigests twoBlocks rootCid (js "q") ⟨js "h", 1, 2⟩
        (candidateOf refX.id refX.cid (js "x") none (some .null) receipt) (js "k") = .ok none := by
  have hsecond : expectedManifestPartition someDigests.toPlatform twoBlocks 1 2 = .ok [refX] := by
    decide
  obtain ⟨part, hpart, hvalid, hsigned⟩ := ((partitions_verified someDigests twoBlocks).1
    [refX, refZ] 2 proper_two (by decide) (by decide)).2 1 (by decide) (by decide)
  cases hpart.symm.trans hsecond
  refine ⟨by decide, hsecond, hvalid, fun rootCid hroot => ?_⟩
  have hok : ∀ root ∈ twoBlocks.cid, (createDistributedHolderReceipt someDigests ⟨js "h", js "k"⟩ root
      (js "q") refX.id refX.cid (js "x") none 1 2 (some .null)).isOk = true := by
    rintro _ ⟨⟩
    decide
  cases hreceipt : createDistributedHolderReceipt someDigests ⟨js "h", js "k"⟩ rootCid (js "q") refX.id
      refX.cid (js "x") none 1 2 (some .null) with
  | error reason => cases hreceipt ▸ hok rootCid hroot
  | ok receipt =>
    exact ⟨receipt, rfl, hsigned refX (by simp) rootCid _ ⟨js "h", js "k"⟩ _ _ _ _ _ hroot (by rfl)
      (fun t => by simp [someDigests]) hreceipt⟩

set_option maxRecDepth 4000 in
/-- A holder may repeat a block. A manifest that verifies may have a block in no partition, one that
    its holder cannot have, and one that it need not have. -/
theorem not_exactly_the_partition :
    validateHolderPartition someDigests.toPlatform (manifestOf [refX])
      [itemOf refX (js "x"), itemOf refX (js "x")] 0 1 = .ok 1 ∧
    (verifyContextManifest someDigests.toPlatform (manifestOf [refSigned])
        (manifestOf [refSigned]).cid).isOk = true ∧
      expectedManifestPartition someDigests.toPlatform (manifestOf [refSigned]) 0 2 = .ok [] ∧
      expectedManifestPartition someDigests.toPlatform (manifestOf [refSigned]) 1 2 = .ok [] ∧
    (validateHolderPartition someDigests.toPlatform (manifestOf [refX, refY])
      [itemOf refX (js "x"), itemOf refY (js "y")] 0 1).isOk = false ∧
    validateHolderPartition someDigests.toPlatform (manifestOf [refX, refB])
      [itemOf refX (js "x")] 0 1 = .ok 1 := by
  refine ⟨?_, ?_, ?_, ?_, ?_, ?_⟩
  all_goals decide

end Truyn.Context
