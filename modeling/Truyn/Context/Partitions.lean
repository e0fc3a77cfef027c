import Truyn.Context.Documents

/-! context:partitions | the blocks of a manifest, spread over partitions by their CIDs

    The first twelve digits of a block's digest, modulo the number of partitions, are the partition
    it lies in. A holder's blocks are checked one by one against the manifest, and as a set of CIDs
    against the partition (`validateHolderPartition`). -/

namespace Truyn.Context
open Checks

/-- A block of a manifest as it came in: `none` stands for what is not a string. -/
structure RawRef where
  id : Option JsString
  cid : Option JsString

/-- `none` stands for what is no integer, no string, no array. -/
structure Manifest where
  version : Option ℤ
  cid : Option JsString
  blocks : Option (List RawRef)

/-- A block that a holder has or sends. -/
structure Item where
  id : Option JsString
  cid : Option JsString
  text : Option JsString

variable (P : Platform)

/-! ### Manifests -/

def refsOf : List RawRef → Except JsString (List Ref)
  | [] => return []
  | ⟨some id, some cid⟩ :: l => do
    let rest ← refsOf l
    return ⟨id, cid⟩ :: rest
  | _ :: _ => throw (js "invalid context manifest block")

def Manifest.refs (m : Manifest) : Except JsString (List Ref) :=
  match m.blocks with
  | none | some [] => throw (js "context manifest blocks are required")
  | some l => refsOf l

/-- The CID, or the reason to refuse. -/
def verifyContextManifest (m : Manifest) (expectedCid : Option JsString) :
    Except JsString JsString := do
  if m.version ≠ some 1 ∨ expectedCid.getD [] = [] then throw (js "invalid_context_manifest")
  let refs ← m.refs
  let cid ← contextCidFromManifest P refs
  if some cid ≠ expectedCid ∨ m.cid ≠ expectedCid then throw (js "context_manifest_cid_mismatch")
  return cid

/-- `allowed.get(id)`: of two blocks with one id, the last. -/
def allowed (refs : List Ref) (id : JsString) : Option JsString :=
  (refs.reverse.find? fun r => r.id = id).map Ref.cid

/-- `contextBlockCid(block.id, block.text)` -/
def Item.trueCid (b : Item) : Except JsString JsString :=
  match b.id, b.text with
  | some id, some text => contextBlockCid P id text
  | some (u :: id), none =>
    throw (js "context block " ++ u :: id ++ js " text must be a string")
  | _, _ => throw (js "context block id is required")

/-- `none`, or the reason to refuse. -/
def selectBlock (refs : List Ref) (b : Item) : Except JsString (Option JsString) :=
  match b.id.bind (allowed refs) with
  | none => return some (js "context_block_not_in_manifest")
  | some cid => do
    let trueCid ← b.trueCid P
    if some trueCid ≠ b.cid ∨ trueCid ≠ cid then
      return some (js "context_block_cid_mismatch")
    else return none

def selectAll (refs : List Ref) : List Item → Except JsString (Option JsString)
  | [] => return none
  | b :: bs => do
    let reason ← selectBlock P refs b
    match reason with
    | some reason => return some reason
    | none => selectAll refs bs

def verifyContextSelection (m : Manifest) (blocks : List Item) (expectedCid : Option JsString) :
    Except JsString (Option JsString) :=
  match verifyContextManifest P m expectedCid, m.refs with
  | .error reason, _ | _, .error reason => return some reason
  | .ok _, .ok refs => selectAll P refs blocks

/-! ### Partitions -/

/-- The value of a hexadecimal digit. -/
def hexDigitValue (u : UInt16) : Option ℕ :=
  if 48 ≤ u ∧ u ≤ 57 then some (u.toNat - 48)
  else if 97 ≤ u ∧ u ≤ 102 then some (u.toNat - 87)
  else if 65 ≤ u ∧ u ≤ 70 then some (u.toNat - 55)
  else none

/-- The digits at the front of a text. -/
def hexDigits : JsString → List ℕ
  | [] => []
  | u :: s =>
    match hexDigitValue u with
    | some d => d :: hexDigits s
    | none => []

/-- The text without its sign, and the sign. -/
def signOf : JsString → ℤ × JsString
  | 45 :: s => (-1, s)
  | 43 :: s => (1, s)
  | s => (1, s)

def withoutPrefix : JsString → JsString
  | 48 :: 120 :: s | 48 :: 88 :: s => s
  | s => s

/-- `Number.parseInt(text, 16)`; `none` is `NaN`. -/
def parseHex (text : JsString) : Option ℤ :=
  let (sign, s) := signOf (text.dropWhile isSpace)
  match hexDigits (withoutPrefix s) with
  | [] => none
  | digits => some (sign * (digits.foldl (fun v d => 16 * v + d) 0 : ℕ))

def blockPrefix : JsString := js "truyn:ctxb:"

/-- The remainder has the sign of the dividend. -/
def distributedPartitionForBlockCid (cid : JsString) (count : ℤ) : Except JsString ℤ := do
  if ¬blockPrefix <+: cid then throw (js "distributed block CID is required")
  if count < 1 ∨ 4096 < count then throw (js "distributed partition count must be 1..4096")
  match parseHex ((cid.drop blockPrefix.length).take 12) with
  | none => throw (js "invalid distributed block CID")
  | some value => return value.tmod count

/-- The blocks that lie in a partition. -/
def inPartition (index count : ℤ) : List Ref → Except JsString (List Ref)
  | [] => return []
  | r :: rs => do
    let partition ← distributedPartitionForBlockCid r.cid count
    let rest ← inPartition index count rs
    return if partition = index then r :: rest else rest

def expectedManifestPartition (m : Manifest) (index count : ℤ) : Except JsString (List Ref) := do
  let _ ← (verifyContextManifest P m m.cid).mapError
    fun reason => js "distributed manifest verification failed: " ++ reason
  if index < 0 ∨ count ≤ index then throw (js "invalid distributed partition index")
  let refs ← m.refs
  inPartition index count refs

/-- No block lies outside the partition. -/
def checkInside (index count : ℤ) : List Item → Except JsString Unit
  | [] => return ()
  | b :: bs => do
    let partition ← distributedPartitionForBlockCid (b.cid.getD []) count
    if partition ≠ index then throw (js "distributed holder contains a block outside its partition")
    checkInside index count bs

/-- The number of blocks. -/
def validateHolderPartition (m : Manifest) (blocks : List Item) (index count : ℤ) :
    Except JsString ℕ := do
  let selection ← verifyContextSelection P m blocks m.cid
  if selection ≠ none then
    throw (js "distributed holder partition verification failed: " ++ selection.getD [])
  let expected ← expectedManifestPartition P m index count
  let expectedCids := (expected.map fun r => some r.cid).eraseDups
  let actualCids := (blocks.map Item.cid).eraseDups
  if expectedCids.length ≠ actualCids.length then
    throw (js "distributed holder partition is incomplete")
  if ¬∀ cid ∈ expectedCids, cid ∈ actualCids then
    throw (js "distributed holder partition is incomplete")
  checkInside index count blocks
  return actualCids.length

/-! ### Where a digest lies -/

variable {P : Platform} {m : Manifest} {index count : ℤ} {refs part : List Ref} {r : Ref}

/-- A lower-case hexadecimal digit. -/
def IsHex (u : UInt16) : Prop := 48 ≤ u ∧ u ≤ 57 ∨ 97 ≤ u ∧ u ≤ 102

/-- The CID of a block is a digest of 64 digits. -/
def IsBlockCid (cid : JsString) : Prop :=
  ∃ hex, cid = blockPrefix ++ hex ∧ hex.length = 64 ∧ ∀ u ∈ hex, IsHex u

theorem hexDigits_of_hex {s : JsString} (h : ∀ u ∈ s, IsHex u) :
    (hexDigits s).length = s.length := by
  induction s with
  | nil => rfl
  | cons u s ih =>
    have hvalue : ∃ d, hexDigitValue u = some d := by
      rcases h u List.mem_cons_self with hu | hu
      · exact ⟨_, by rw [hexDigitValue, if_pos hu]⟩
      · by_cases hdigit : 48 ≤ u ∧ u ≤ 57
        · exact ⟨_, by rw [hexDigitValue, if_pos hdigit]⟩
        · exact ⟨_, by rw [hexDigitValue, if_neg hdigit, if_pos hu]⟩
    obtain ⟨d, hd⟩ := hvalue
    simp only [hexDigits, hd, List.length_cons, ih fun v hv => h v (List.mem_cons_of_mem u hv)]

theorem isHex_ne {u v : UInt16} (h : IsHex u) (hv : ¬IsHex v) : u ≠ v := by
  rintro rfl
  exact hv h

instance (u : UInt16) : Decidable (IsHex u) :=
  inferInstanceAs (Decidable (48 ≤ u ∧ u ≤ 57 ∨ 97 ≤ u ∧ u ≤ 102))

theorem not_isSpace_of_hex {u : UInt16} (h : IsHex u) : isSpace u = false := by
  have hlow : ¬0x2000 ≤ u := by
    have hle : u ≤ 102 := h.elim (fun hd => UInt16.le_trans hd.2 (by decide)) And.right
    exact fun hge => absurd (UInt16.le_trans hge hle) (by decide)
  simp only [isSpace, List.mem_cons, List.not_mem_nil, hlow, false_and, or_false,
    decide_eq_false_iff_not]
  rintro (rfl | rfl | rfl | rfl | rfl | rfl | rfl | rfl | rfl | rfl | rfl | rfl | rfl | rfl) <;>
    simp [IsHex] at h

/-- Digits are a number without a sign. -/
theorem parseHex_of_hex {s : JsString} (hs : s ≠ []) (h : ∀ u ∈ s, IsHex u) :
    ∃ n : ℕ, parseHex s = some (n : ℤ) := by
  obtain ⟨u, t, rfl⟩ := List.exists_cons_of_ne_nil hs
  have hu := h u List.mem_cons_self
  have hspace : (u :: t).dropWhile isSpace = u :: t := by
    rw [List.dropWhile_cons_of_neg (by simp [not_isSpace_of_hex hu])]
  have hsign : signOf (u :: t) = (1, u :: t) := by
    have hminus := isHex_ne hu (v := 45) (by decide)
    have hplus := isHex_ne hu (v := 43) (by decide)
    unfold signOf
    split <;> simp_all
  have hwithout : withoutPrefix (u :: t) = u :: t := by
    unfold withoutPrefix
    split
    · next heq =>
      obtain ⟨rfl, rfl⟩ := List.cons.inj heq
      exact absurd (h 120 (by simp)) (by decide)
    · next heq =>
      obtain ⟨rfl, rfl⟩ := List.cons.inj heq
      exact absurd (h 88 (by simp)) (by decide)
    · rfl
  have hlength := hexDigits_of_hex h
  unfold parseHex
  rw [hspace, hsign]
  dsimp only
  rw [hwithout]
  split
  · next hnil =>
    rw [hnil] at hlength
    simp at hlength
  · exact ⟨(hexDigits (u :: t)).foldl (fun v d => 16 * v + d) 0, by rw [one_mul]⟩

/-- A digest lies in one of the partitions. -/
theorem partition_of_blockCid {cid : JsString} (h : IsBlockCid cid) (hlo : 1 ≤ count)
    (hhi : count ≤ 4096) :
    ∃ k, distributedPartitionForBlockCid cid count = .ok k ∧ 0 ≤ k ∧ k < count := by
  obtain ⟨hex, rfl, hlength, hhex⟩ := h
  have hne : hex.take 12 ≠ [] := by
    intro hnil
    have := congrArg List.length hnil
    simp [hlength] at this
  obtain ⟨n, hn⟩ := parseHex_of_hex hne fun u hu => hhex u (List.mem_of_mem_take hu)
  refine ⟨(n : ℤ).tmod count, ?_, Int.tmod_nonneg _ (Int.natCast_nonneg n), ?_⟩
  · simp only [distributedPartitionForBlockCid, guard_ok, List.drop_left, hn]
    exact ⟨not_not.mpr (List.prefix_append _ _), by omega, rfl⟩
  · exact Int.tmod_lt_of_pos _ (by omega)

theorem inPartition_ok (h : inPartition index count refs = .ok part) :
    part = refs.filter (fun r => decide (distributedPartitionForBlockCid r.cid count = .ok index)) ∧
      ∀ r ∈ refs, ∃ k, distributedPartitionForBlockCid r.cid count = .ok k := by
  induction refs generalizing part with
  | nil =>
    obtain rfl := pure_ok.mp h
    simp
  | cons r refs ih =>
    simp only [inPartition, bind_ok, pure_ok] at h
    obtain ⟨k, hk, rest, hrest, rfl⟩ := h
    obtain ⟨rfl, hall⟩ := ih hrest
    refine ⟨?_, fun x hx => ?_⟩
    · by_cases heq : k = index
      · rw [if_pos heq, List.filter_cons_of_pos (by simp [hk, heq])]
      · rw [if_neg heq, List.filter_cons_of_neg (by simp [hk, heq])]
    · rcases List.mem_cons.mp hx with rfl | hx
      · exact ⟨k, hk⟩
      · exact hall x hx

theorem inPartition_total
    (h : ∀ r ∈ refs, ∃ k, distributedPartitionForBlockCid r.cid count = .ok k) :
    ∃ part, inPartition index count refs = .ok part := by
  induction refs with
  | nil => exact ⟨[], rfl⟩
  | cons r refs ih =>
    obtain ⟨k, hk⟩ := h r List.mem_cons_self
    obtain ⟨rest, hrest⟩ := ih fun x hx => h x (List.mem_cons_of_mem r hx)
    exact ⟨_, by simp only [inPartition, hk, hrest, bind_ok]; exact ⟨k, rfl, rest, rfl, rfl⟩⟩

/-! ### What a selection has -/

variable {blocks : List Item} {b : Item} {id cid : JsString}

theorem mem_of_allowed (h : allowed refs id = some cid) : ⟨id, cid⟩ ∈ refs := by
  obtain ⟨r, hr, rfl⟩ := Option.map_eq_some_iff.mp h
  have hid : r.id = id := by simpa using List.find?_some hr
  have hmem : r ∈ refs := List.mem_reverse.mp (List.mem_of_find?_eq_some hr)
  rwa [← hid]

/-- With distinct ids the map has each block of the manifest. -/
theorem allowed_of_mem (hids : (refs.map Ref.id).Nodup) (h : r ∈ refs) :
    allowed refs r.id = some r.cid := by
  cases hfind : refs.reverse.find? fun x => x.id = r.id with
  | none =>
    have hnone := List.find?_eq_none.mp hfind r (List.mem_reverse.mpr h)
    simp at hnone
  | some x =>
    have hid : x.id = r.id := by simpa using List.find?_some hfind
    have hx : x ∈ refs := List.mem_reverse.mp (List.mem_of_find?_eq_some hfind)
    obtain rfl := List.inj_on_of_nodup_map hids hx h hid
    rw [allowed, hfind, Option.map_some]

/-- The block of the manifest that an item is, with its true content. -/
def Item.Is (P : Platform) (b : Item) (r : Ref) : Prop :=
  b.id = some r.id ∧ b.cid = some r.cid ∧
    ∃ text, b.text = some text ∧ contextBlockCid P r.id text = .ok r.cid

theorem Item.trueCid_ok (h : b.trueCid P = .ok cid) :
    ∃ id text, b.id = some id ∧ b.text = some text ∧ contextBlockCid P id text = .ok cid := by
  unfold Item.trueCid at h
  split at h
  · next id text hid htext => exact ⟨id, text, hid, htext, h⟩
  · simp [throw, throwThe, MonadExceptOf.throw] at h
  · simp [throw, throwThe, MonadExceptOf.throw] at h

theorem selectBlock_sound (h : selectBlock P refs b = .ok none) : ∃ r ∈ refs, b.Is P r := by
  unfold selectBlock at h
  split at h
  · simp [pure, Except.pure] at h
  · next cid hcid =>
    obtain ⟨id, hid, hallowed⟩ := Option.bind_eq_some_iff.mp hcid
    obtain ⟨trueCid, htrue, h⟩ := bind_ok.mp h
    obtain ⟨id', text, hid', htext, hblock⟩ := Item.trueCid_ok htrue
    obtain rfl : id = id' := Option.some.inj (hid.symm.trans hid')
    by_cases hne : some trueCid ≠ b.cid ∨ trueCid ≠ cid
    · rw [if_pos hne] at h
      simp [pure, Except.pure] at h
    · simp only [not_or, not_not] at hne
      obtain ⟨hb, rfl⟩ := hne
      exact ⟨⟨id, trueCid⟩, mem_of_allowed hallowed, hid, hb.symm, text, htext, hblock⟩

theorem selectBlock_complete (hids : (refs.map Ref.id).Nodup) (hr : r ∈ refs) (h : b.Is P r) :
    selectBlock P refs b = .ok none := by
  obtain ⟨hid, hcid, text, htext, hblock⟩ := h
  have htrue : b.trueCid P = .ok r.cid := by
    simp only [Item.trueCid, hid, htext, hblock]
  simp only [selectBlock, hid, Option.bind_some, allowed_of_mem hids hr, htrue, hcid]
  simp [bind, Except.bind, pure, Except.pure]

theorem selectAll_ok : selectAll P refs blocks = .ok none ↔
    ∀ b ∈ blocks, selectBlock P refs b = .ok none := by
  induction blocks with
  | nil => simp [selectAll, pure, Except.pure]
  | cons b bs ih =>
    rw [selectAll, bind_ok, List.forall_mem_cons, ← ih]
    constructor
    · rintro ⟨reason, hreason, h⟩
      cases reason with
      | none => exact ⟨hreason, h⟩
      | some reason => simp [pure, Except.pure] at h
    · rintro ⟨hb, hbs⟩
      exact ⟨none, hb, hbs⟩

end Truyn.Context
