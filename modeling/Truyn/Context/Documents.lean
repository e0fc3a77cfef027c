import Truyn.Js.Values
import Truyn.Schemes.Checks

/-! context:documents | blocks of text under the digest of their contents

    The CID of a block is over its id and text, that of a document over the ids and CIDs of its
    blocks, in the order of the ids. Where no two of the texts that are digested collide, a CID
    stands for one list of blocks (`blocks_of_cid`). -/

namespace Truyn.Context
open Checks

abbrev NodeId := JsString
abbrev Cid := JsString

/-- What the program takes from its surroundings: a language to sort in, and SHA-256 in hex. -/
structure Platform where
  collation : Collation
  sha256 : JsString → JsString

/-- What is no string is equal to itself only. -/
instance : LawfulBEq (Option JsString) := inferInstance

/-- A block as it came in: `none` stands for what is not a string. -/
structure RawBlock where
  id : Option JsString
  text : Option JsString

structure Block where
  id : JsString
  text : JsString
  deriving DecidableEq

structure DocumentBlock extends Block where
  cid : JsString
  bytes : ℕ
  deriving DecidableEq

structure Ref where
  id : JsString
  cid : JsString
  deriving DecidableEq

structure Document where
  cid : JsString
  blocks : List DocumentBlock
  contentBytes : ℕ
  serializedBytes : ℕ
  deriving DecidableEq

/-- What is digested of a block, `[id,text]`. -/
def blockText (id text : JsString) : JsString := array [quote id, quote text]

def refText (r : Ref) : JsString := object [(js "cid", quote r.cid), (js "id", quote r.id)]

/-- What is digested of a document, `{"blocks":[...],"v":1}`. -/
def manifestText (refs : List Ref) : JsString :=
  object [(js "blocks", array (refs.map refText)), (js "v", js "1")]

variable (P : Platform)

def contextBlockCid (id text : JsString) : Except JsString JsString :=
  if id = [] then throw (js "context block id is required")
  else if !checkUnicode id || !checkUnicode text then throw (js "TCJ1 unpaired surrogate")
  else return js "truyn:ctxb:" ++ P.sha256 (blockText id text)

/-- The blocks with an id that was not seen and a text, as they come. -/
def normalizeFrom : List JsString → List RawBlock → Except JsString (List Block)
  | _, [] => return []
  | seen, b :: bs => do
    let id := b.id.getD []
    if id = [] then throw (js "context block id is required")
    if id ∈ seen then throw (js "duplicate context block id: " ++ id)
    match b.text with
    | none => throw (js "context block " ++ id ++ js " text must be a string")
    | some text => do
      let rest ← normalizeFrom (id :: seen) bs
      return ⟨id, text⟩ :: rest

/-- `none` stands for what is not an array. -/
def normalizeContextBlocks (blocks : Option (List RawBlock)) : Except JsString (List Block) :=
  match blocks with
  | none | some [] => throw (js "context blocks must be a non-empty array")
  | some bs => do
    let normalized ← normalizeFrom [] bs
    return P.collation.sortBy Block.id normalized

def contextCidFromManifest (refs : List Ref) : Except JsString JsString :=
  if refs = [] then throw (js "context manifest blocks are required")
  else if refs.any fun r => !checkUnicode r.cid || !checkUnicode r.id then
    throw (js "TCJ1 unpaired surrogate")
  else return js "truyn:ctx:" ++ P.sha256 (manifestText (P.collation.sortBy Ref.id refs))

def addCids : List Block → Except JsString (List DocumentBlock)
  | [] => return []
  | b :: bs => do
    let cid ← contextBlockCid P b.id b.text
    let rest ← addCids bs
    return ⟨b, cid, byteLength b.text⟩ :: rest

def refs (blocks : List DocumentBlock) : List Ref := blocks.map fun b => ⟨b.id, b.cid⟩

/-- `JSON.stringify` of the blocks, with their ids and texts. -/
def serialized (blocks : List DocumentBlock) : JsString :=
  array (blocks.map fun b => object [(js "id", quote b.id), (js "text", quote b.text)])

def buildContextDocument (blocks : Option (List RawBlock)) : Except JsString Document := do
  let normalized ← normalizeContextBlocks P blocks
  let bs ← addCids P normalized
  let cid ← contextCidFromManifest P (refs bs)
  return ⟨cid, bs, (bs.map DocumentBlock.bytes).sum, byteLength (serialized bs)⟩

/-! ### Deltas -/

/-- An operation as it came in: `none` stands for what is not a string. -/
structure RawOp where
  op : Option JsString
  id : Option JsString
  text : Option JsString

/-- The blocks by their ids, in the order of the source's map. -/
def setBlock (b : Block) : List Block → List Block
  | [] => [b]
  | c :: bs => if c.id = b.id then b :: bs else c :: setBlock b bs

def applyOp (bs : List Block) (o : RawOp) : Except JsString (List Block) :=
  match o.op, o.id with
  | some op, some (u :: rest) =>
    let id := u :: rest
    let there := bs.any fun b => b.id = id
    let missing := js "context block not found: " ++ id
    if op = js "delete" then
      if there then return bs.filter fun b => b.id ≠ id else throw missing
    else if op ≠ js "replace" ∧ op ≠ js "upsert" then
      throw (js "unsupported context delta op: " ++ op)
    else
      match o.text with
      | none => throw (js "context delta " ++ op ++ js " requires text")
      | some text =>
        if op = js "replace" ∧ there = false then throw missing
        else return setBlock ⟨id, text⟩ bs
  | _, _ => throw (js "invalid context delta op")

def applyOps : List Block → List RawOp → Except JsString (List Block)
  | bs, [] => return bs
  | bs, o :: os => do
    let next ← applyOp bs o
    applyOps next os

def raw (b : Block) : RawBlock := ⟨some b.id, some b.text⟩

def applyContextDelta (blocks : List DocumentBlock) (ops : Option (List RawOp)) :
    Except JsString (List Block) := do
  let bs ← normalizeContextBlocks P (some (blocks.map fun b => raw b.toBlock))
  match ops with
  | none | some [] => throw (js "context delta ops must be a non-empty array")
  | some os =>
    let next ← applyOps bs os
    normalizeContextBlocks P (some (next.map raw))

/-! ### What a CID stands for -/

variable {P : Platform} {d e : Document} {S : Set JsString}

theorem blockText_tells : Tells fun p : JsString × JsString => blockText p.1 p.2 := by
  have h := (quote_cancel.append quote_cancel [44]).wrap [91] [93]
  simpa [blockText, array, commas] using h

theorem refText_tells : Tells refText := by
  have hpair : Function.Injective fun r : Ref => (r.cid, r.id) := by
    rintro ⟨i, c⟩ ⟨j, d⟩ h
    simp_all
  have h := ((quote_cancel.append quote_cancel (44 :: quote (js "id") ++ [58])).wrap
    (123 :: quote (js "cid") ++ [58]) [125]).comp hpair
  intro r s x y hrs
  exact h r s x y (by simpa [refText, object, commas, member] using hrs)

theorem manifestText_tells : Tells manifestText := by
  have hbrace : ∀ r x y, refText r ++ x ≠ 93 :: y := by
    intro r x y h
    simp [refText, object] at h
  have h := (array_cancel refText_tells hbrace).wrap (123 :: quote (js "blocks") ++ [58])
    (44 :: quote (js "v") ++ 58 :: js "1" ++ [125])
  intro l m x y hlm
  exact h l m x y (by simpa [manifestText, object, commas, member] using hlm)

/-- The texts whose digests a document has. -/
def Document.digested (d : Document) : Set JsString :=
  {t | t = manifestText (refs d.blocks) ∨ ∃ b ∈ d.blocks, t = blockText b.id b.text}

/-- The parts of a document agree. -/
structure Built (P : Platform) (d : Document) : Prop where
  blocks : ∀ b ∈ d.blocks,
    b.cid = js "truyn:ctxb:" ++ P.sha256 (blockText b.id b.text) ∧ b.bytes = byteLength b.text
  cid : d.cid = js "truyn:ctx:" ++ P.sha256 (manifestText (refs d.blocks))
  contentBytes : d.contentBytes = (d.blocks.map DocumentBlock.bytes).sum
  serializedBytes : d.serializedBytes = byteLength (serialized d.blocks)

theorem contextBlockCid_ok {id text cid : JsString} (h : contextBlockCid P id text = .ok cid) :
    cid = js "truyn:ctxb:" ++ P.sha256 (blockText id text) := by
  simp only [contextBlockCid, throw_ok, pure_ok] at h
  exact h.2.2.symm

theorem addCids_ok {bs : List Block} {ds : List DocumentBlock} (h : addCids P bs = .ok ds) :
    ds.map DocumentBlock.toBlock = bs ∧ ∀ b ∈ ds,
      b.cid = js "truyn:ctxb:" ++ P.sha256 (blockText b.id b.text) ∧ b.bytes = byteLength b.text := by
  induction bs generalizing ds with
  | nil =>
    obtain rfl := pure_ok.mp h
    simp
  | cons b bs ih =>
    simp only [addCids, bind_ok, pure_ok] at h
    obtain ⟨cid, hcid, rest, hrest, rfl⟩ := h
    obtain ⟨rfl, hblocks⟩ := ih hrest
    refine ⟨rfl, fun c hc => ?_⟩
    rcases List.mem_cons.mp hc with rfl | hc
    · exact ⟨contextBlockCid_ok hcid, rfl⟩
    · exact hblocks c hc

theorem normalizeContextBlocks_sorted {blocks : Option (List RawBlock)} {bs : List Block}
    (h : normalizeContextBlocks P blocks = .ok bs) :
    bs.Pairwise (P.collation.by Block.id) := by
  unfold normalizeContextBlocks at h
  split at h
  · simp [throw, throwThe, MonadExceptOf.throw] at h
  · simp [throw, throwThe, MonadExceptOf.throw] at h
  · simp only [bind_ok, pure_ok] at h
    obtain ⟨normalized, -, rfl⟩ := h
    exact Collation.pairwise_sortBy normalized

theorem buildContextDocument_ok {blocks : Option (List RawBlock)}
    (h : buildContextDocument P blocks = .ok d) : Built P d := by
  simp only [buildContextDocument, bind_ok, pure_ok] at h
  obtain ⟨normalized, hnormal, bs, hbs, cid, hcid, rfl⟩ := h
  obtain ⟨hmap, hblocks⟩ := addCids_ok hbs
  -- The blocks are in order, so their references are, and are not sorted again.
  have hsorted : (refs bs).Pairwise (P.collation.by Ref.id) := by
    rw [refs, List.pairwise_map]
    have hpair := normalizeContextBlocks_sorted hnormal
    rw [← hmap, List.pairwise_map] at hpair
    exact hpair
  simp only [contextCidFromManifest, throw_ok, pure_ok] at hcid
  refine ⟨hblocks, ?_, rfl, rfl⟩
  rw [← hcid.2.2, Collation.sortBy, hsorted.insertionSort_eq]

/-- Blocks with the same ids and CIDs are the same, where the texts of blocks do not collide. -/
theorem blocks_of_refs {bs cs : List DocumentBlock} (hcoll : Set.InjOn P.sha256 S)
    (hbs : ∀ b ∈ bs, (b.cid = js "truyn:ctxb:" ++ P.sha256 (blockText b.id b.text) ∧
      b.bytes = byteLength b.text) ∧ blockText b.id b.text ∈ S)
    (hcs : ∀ c ∈ cs, (c.cid = js "truyn:ctxb:" ++ P.sha256 (blockText c.id c.text) ∧
      c.bytes = byteLength c.text) ∧ blockText c.id c.text ∈ S)
    (h : refs bs = refs cs) : bs = cs := by
  induction bs generalizing cs with
  | nil => exact (List.map_eq_nil_iff.mp h.symm).symm
  | cons b bs ih =>
    cases cs with
    | nil => simp [refs] at h
    | cons c cs =>
      simp only [refs, List.map_cons, List.cons.injEq, Ref.mk.injEq] at h
      obtain ⟨⟨hid, hcid⟩, hrest⟩ := h
      obtain ⟨⟨hb, hbytes⟩, hbS⟩ := hbs b List.mem_cons_self
      obtain ⟨⟨hc, hcbytes⟩, hcS⟩ := hcs c List.mem_cons_self
      have hdigest : P.sha256 (blockText b.id b.text) = P.sha256 (blockText c.id c.text) := by
        rw [hb, hc] at hcid
        exact List.append_cancel_left hcid
      have hpair : (b.id, b.text) = (c.id, c.text) :=
        blockText_tells.injective (hcoll hbS hcS hdigest)
      have htext : b.text = c.text := congrArg Prod.snd hpair
      have hblock : b = c := by
        obtain ⟨⟨i, t⟩, k, n⟩ := b
        obtain ⟨⟨j, u⟩, l, m⟩ := c
        simp_all
      rw [hblock, ih (fun x hx => hbs x (List.mem_cons_of_mem b hx))
        (fun x hx => hcs x (List.mem_cons_of_mem c hx)) hrest]

/-- A CID stands for one document. -/
theorem blocks_of_cid (hd : Built P d) (he : Built P e) (hcoll : Set.InjOn P.sha256 S)
    (hdS : d.digested ⊆ S) (heS : e.digested ⊆ S) (hcid : d.cid = e.cid) : d = e := by
  have hdigest : P.sha256 (manifestText (refs d.blocks)) =
      P.sha256 (manifestText (refs e.blocks)) := by
    rw [hd.cid, he.cid] at hcid
    exact List.append_cancel_left hcid
  have hrefs : refs d.blocks = refs e.blocks :=
    manifestText_tells.injective (hcoll (hdS (.inl rfl)) (heS (.inl rfl)) hdigest)
  have hblocks : d.blocks = e.blocks := blocks_of_refs hcoll
    (fun b hb => ⟨hd.blocks b hb, hdS (.inr ⟨b, hb, rfl⟩)⟩)
    (fun b hb => ⟨he.blocks b hb, heS (.inr ⟨b, hb, rfl⟩)⟩) hrefs
  have hcontent := hd.contentBytes
  have hserialized := hd.serializedBytes
  rw [hblocks, ← he.contentBytes] at hcontent
  rw [hblocks, ← he.serializedBytes] at hserialized
  cases d
  cases e
  simp_all

end Truyn.Context
