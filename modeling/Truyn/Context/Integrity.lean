import Truyn.Context.Holders
import Truyn.Context.Laws

/-! context:integrity | what a manifest and a selection that verify say of the document

    A selection is accepted when its blocks are blocks of the document. A manifest is accepted when
    it has the hashed ids and CIDs in an order that sorts to the hashed one; the order itself, the
    sizes and further members are not hashed (`context_integrity`). -/

namespace Truyn.Context
open Checks

/-! ### Manifests as JSON -/

def ManifestBlock.json (b : ManifestBlock) : Json := .object
  [(js "id", .string b.id), (js "cid", .string b.cid), (js "bytes", .number (.ofNat b.bytes))]

def DocumentManifest.json (m : DocumentManifest) : Json := .object
  [(js "version", .number (.ofNat m.version)), (js "cid", .string m.cid),
    (js "blocks", .array (m.blocks.map ManifestBlock.json))]

/-- Of the numbers, only 1 is told from what is no number. -/
def versionOf : Json → Option ℤ
  | .number n => if n = .ofNat 1 then some 1 else none
  | _ => none

def readRef (v : Json) : RawRef where
  id := asText (v.get (js "id"))
  cid := asText (v.get (js "cid"))

def readRefs : Json → Option (List RawRef)
  | .array l => some (l.map readRef)
  | _ => none

/-- What the checks read of a value. -/
def readManifest (v : Json) : Manifest where
  version := (v.get (js "version")).bind versionOf
  cid := asText (v.get (js "cid"))
  blocks := (v.get (js "blocks")).bind readRefs

variable {P : Platform} {d : Document} {m : Manifest} {rs : List Ref} {l : List RawRef}
  {blocks : List RawBlock} {items : List Item} {cid : JsString} {S : Set JsString}

/-! ### What is wanted -/

/-- A block of the document, as an item. -/
def Item.Of (d : Document) (i : Item) : Prop :=
  ∃ b ∈ d.blocks, i.id = some b.id ∧ i.text = some b.text ∧ i.cid = some b.cid

/-- The texts that are digested to check items. -/
def offered (items : List Item) : Set JsString :=
  {t | ∃ i ∈ items, ∃ id text, i.id = some id ∧ i.text = some text ∧ t = blockText id text}

/-- The ids and CIDs, sorted as they are hashed. -/
def hashed (P : Platform) (rs : List Ref) : List Ref := P.collation.sortBy Ref.id rs

/-- The texts that are digested to check a manifest. -/
def Manifest.digested (P : Platform) (m : Manifest) : Set JsString :=
  {t | ∃ rs, m.refs = .ok rs ∧ t = manifestText (hashed P rs)}

/-- The members of the value that name a CID and its blocks. -/
structure Says (v : Json) (cid : JsString) (rs : List Ref) : Prop where
  version : v.get (js "version") = some (.number (.ofNat 1))
  cid : v.get (js "cid") = some (.string cid)
  blocks : ∃ l, v.get (js "blocks") = some (.array l) ∧
    List.Forall₂ (fun b r => b.get (js "id") = some (.string r.id) ∧
      b.get (js "cid") = some (.string r.cid)) l rs

/-! ### Manifests -/

theorem refsOf_ok : refsOf l = .ok rs ↔ l = rs.map fun r => ⟨some r.id, some r.cid⟩ := by
  induction l generalizing rs with
  | nil =>
    rw [refsOf, pure_ok]
    exact ⟨fun h => h ▸ rfl, fun h => (List.map_eq_nil_iff.mp h.symm).symm⟩
  | cons r l ih =>
    obtain ⟨_ | id, _ | cid⟩ := r
    · refine iff_of_false throw_ne fun h => ?_
      cases rs <;> simp at h
    · refine iff_of_false throw_ne fun h => ?_
      cases rs <;> simp at h
    · refine iff_of_false throw_ne fun h => ?_
      cases rs <;> simp at h
    · simp only [refsOf, bind_ok, pure_ok, ih]
      constructor
      · rintro ⟨rest, rfl, rfl⟩
        rfl
      · intro h
        cases rs with
        | nil => simp at h
        | cons s rs =>
          simp only [List.map_cons, List.cons.injEq, RawRef.mk.injEq, Option.some.injEq] at h
          obtain ⟨⟨rfl, rfl⟩, rfl⟩ := h
          exact ⟨rs, rfl, rfl⟩

theorem refs_ok : m.refs = .ok rs ↔
    rs ≠ [] ∧ m.blocks = some (rs.map fun r => ⟨some r.id, some r.cid⟩) := by
  obtain ⟨version, cid, _ | _ | ⟨r, l⟩⟩ := m
  · exact iff_of_false throw_ne (by simp)
  · refine iff_of_false throw_ne ?_
    rintro ⟨hne, h⟩
    exact hne (List.map_eq_nil_iff.mp (Option.some.inj h).symm)
  · rw [Manifest.refs, refsOf_ok, Option.some.injEq]
    refine ⟨fun h => ⟨?_, h⟩, And.right⟩
    rintro rfl
    cases h

theorem verifyContextManifest_ok {root : JsString} :
    verifyContextManifest P m (some cid) = .ok root ↔
      m.version = some 1 ∧ cid ≠ [] ∧ m.cid = some cid ∧
        ∃ rs, m.refs = .ok rs ∧ contextCidFromManifest P rs = .ok cid ∧ root = cid := by
  simp only [verifyContextManifest, guard_ok, bind_ok, pure_ok, not_or, not_not, Option.getD_some]
  grind

theorem contextCidFromManifest_ok : contextCidFromManifest P rs = .ok cid ↔
    rs ≠ [] ∧ (∀ r ∈ rs, checkUnicode r.cid = true ∧ checkUnicode r.id = true) ∧
      cid = js "truyn:ctx:" ++ P.sha256 (manifestText (hashed P rs)) := by
  simp only [contextCidFromManifest, throw_ok, pure_ok, hashed, eq_comm (a := cid)]
  simp

theorem cid_ne (h : contextCidFromManifest P rs = .ok cid) : cid ≠ [] := by
  rw [(contextCidFromManifest_ok.mp h).2.2]
  exact List.append_ne_nil_of_left_ne_nil (by decide) _

theorem readRefs_map {l : List Json} :
    l.map readRef = rs.map (fun r => ⟨some r.id, some r.cid⟩) ↔
      List.Forall₂ (fun b r => b.get (js "id") = some (.string r.id) ∧
        b.get (js "cid") = some (.string r.cid)) l rs := by
  induction l generalizing rs with
  | nil => cases rs <;> simp
  | cons b l ih =>
    cases rs with
    | nil => simp
    | cons r rs => simp [readRef, asText_eq, ih]

theorem versionOf_bind {o : Option Json} :
    o.bind versionOf = some 1 ↔ o = some (.number (.ofNat 1)) := by
  rw [Option.bind_eq_some_iff]
  constructor
  · rintro ⟨v, rfl, h⟩
    cases v <;> simp_all [versionOf]
  · rintro rfl
    exact ⟨_, rfl, by rw [versionOf, if_pos rfl]⟩

theorem readRefs_bind {o : Option Json} :
    o.bind readRefs = some l ↔ ∃ vs, o = some (.array vs) ∧ vs.map readRef = l := by
  rw [Option.bind_eq_some_iff]
  constructor
  · rintro ⟨v, rfl, h⟩
    cases v <;> simp_all [readRefs]
  · rintro ⟨vs, rfl, rfl⟩
    exact ⟨_, rfl, rfl⟩

/-- What is read of a value is what it says. -/
theorem says_iff {v : Json} : Says v cid rs ↔
    (readManifest v).version = some 1 ∧ (readManifest v).cid = some cid ∧
      (readManifest v).blocks = some (rs.map fun r => ⟨some r.id, some r.cid⟩) := by
  simp only [readManifest, versionOf_bind, asText_eq, readRefs_bind, readRefs_map]
  exact ⟨fun h => ⟨h.version, h.cid, h.blocks⟩, fun h => ⟨h.1, h.2.1, h.2.2⟩⟩

/-- A manifest is accepted under the CID of other blocks when it sorts to them. -/
theorem accepted_iff {v : Json} (hrs : contextCidFromManifest P rs = .ok cid)
    (hcoll : Set.InjOn P.sha256
      (insert (manifestText (hashed P rs)) ((readManifest v).digested P))) :
    verifyContextManifest P (readManifest v) (some cid) = .ok cid ↔
      ∃ rs', Says v cid rs' ∧ rs'.Perm rs ∧ hashed P rs' = hashed P rs := by
  obtain ⟨hne, hunicode, hcid⟩ := contextCidFromManifest_ok.mp hrs
  rw [verifyContextManifest_ok]
  constructor
  · rintro ⟨hversion, -, hread, rs', hrs', hcid', -⟩
    have hdigest := (contextCidFromManifest_ok.mp hcid').2.2
    have hsame : hashed P rs' = hashed P rs := by
      refine manifestText_tells.injective (hcoll (.inr ⟨rs', hrs', rfl⟩) (.inl rfl) ?_)
      exact List.append_cancel_left (hdigest.symm.trans hcid)
    refine ⟨rs', says_iff.mpr ⟨hversion, hread, (refs_ok.mp hrs').2⟩, ?_, hsame⟩
    have hperm : (hashed P rs').Perm rs := hsame ▸ Collation.sortBy_perm rs
    exact (Collation.sortBy_perm rs').symm.trans hperm
  · rintro ⟨rs', hsays, hperm, hsame⟩
    obtain ⟨hversion, hread, hblocks⟩ := says_iff.mp hsays
    have hne' : rs' ≠ [] := fun h => hne (h ▸ hperm).symm.eq_nil
    refine ⟨hversion, cid_ne hrs, hread, rs', refs_ok.mpr ⟨hne', hblocks⟩, ?_, rfl⟩
    rw [contextCidFromManifest_ok, hsame]
    exact ⟨hne', fun r hr => hunicode r (hperm.subset hr), hcid⟩

/-! ### Documents -/

theorem says_json : Says d.manifest.json d.cid (refs d.blocks) where
  version := rfl
  cid := rfl
  blocks := by
    refine ⟨_, rfl, ?_⟩
    rw [Document.manifest, refs, List.forall₂_map_left_iff, List.forall₂_map_left_iff,
      List.forall₂_map_right_iff]
    exact List.forall₂_same.mpr fun b _ => ⟨rfl, rfl⟩

theorem build_cid (h : buildContextDocument P (some blocks) = .ok d) :
    contextCidFromManifest P (refs d.blocks) = .ok d.cid := by
  simp only [buildContextDocument, bind_ok, pure_ok] at h
  obtain ⟨-, -, ds, -, cid, hcid, rfl⟩ := h
  exact hcid

theorem addCids_cid (h : buildContextDocument P (some blocks) = .ok d) :
    ∀ b ∈ d.blocks, contextBlockCid P b.id b.text = .ok b.cid := by
  simp only [buildContextDocument, bind_ok, pure_ok] at h
  obtain ⟨normalized, -, ds, hds, -, -, rfl⟩ := h
  induction normalized generalizing ds with
  | nil =>
    obtain rfl := pure_ok.mp hds
    simp
  | cons b bs ih =>
    simp only [addCids, bind_ok, pure_ok] at hds
    obtain ⟨cid, hcid, rest, hrest, rfl⟩ := hds
    exact List.forall_mem_cons.mpr ⟨hcid, ih rest hrest⟩

theorem verify_built (h : buildContextDocument P (some blocks) = .ok d) :
    verifyContextManifest P (readManifest d.manifest.json) (some d.cid) = .ok d.cid := by
  obtain ⟨hversion, hread, hblocks⟩ := says_iff.mp (says_json (d := d))
  have hcid := build_cid h
  obtain ⟨hne, -, -⟩ := contextCidFromManifest_ok.mp hcid
  rw [verifyContextManifest_ok]
  exact ⟨hversion, cid_ne hcid, hread, _, refs_ok.mpr ⟨hne, hblocks⟩, hcid, rfl⟩

theorem build_ids (h : buildContextDocument P (some blocks) = .ok d) :
    ((refs d.blocks).map Ref.id).Nodup := by
  obtain ⟨bs, -, hbs, htexts⟩ := normalizeContextBlocks_ok.mp (build_texts h)
  have hlistable : Listable d.texts := htexts ▸ hbs.perm (Collation.sortBy_perm bs)
  have hids := hlistable.ids
  rw [Document.texts, List.map_map] at hids
  rwa [refs, List.map_map]

/-- The references of a document are in order. -/
theorem hashed_built (h : buildContextDocument P (some blocks) = .ok d) :
    hashed P (refs d.blocks) = refs d.blocks := by
  have hsorted : (refs d.blocks).Pairwise (P.collation.by Ref.id) := by
    have hpair := normalizeContextBlocks_sorted (build_texts h)
    rw [Document.texts, List.pairwise_map] at hpair
    rw [refs, List.pairwise_map]
    exact hpair
  exact hsorted.insertionSort_eq

/-- An item that is a block of the manifest is a block of the document, and the other way round. -/
theorem is_iff (h : buildContextDocument P (some blocks) = .ok d)
    (hcoll : Set.InjOn P.sha256 (d.digested ∪ offered items)) {i : Item} (hi : i ∈ items) :
    (∃ r ∈ refs d.blocks, i.Is P r) ↔ i.Of d := by
  have hbuilt := buildContextDocument_ok h
  constructor
  · rintro ⟨r, hr, hid, hcid, text, htext, hblock⟩
    obtain ⟨b, hb, rfl⟩ := List.mem_map.mp hr
    have hdigest : P.sha256 (blockText b.id text) = P.sha256 (blockText b.id b.text) :=
      List.append_cancel_left ((contextBlockCid_ok hblock).symm.trans (hbuilt.blocks b hb).1)
    have hsame : (b.id, text) = (b.id, b.text) := blockText_tells.injective
      (hcoll (.inr ⟨i, hi, b.id, text, hid, htext, rfl⟩) (.inl (.inr ⟨b, hb, rfl⟩)) hdigest)
    exact ⟨b, hb, hid, htext.trans (congrArg (some ∘ Prod.snd) hsame), hcid⟩
  · rintro ⟨b, hb, hid, htext, hcid⟩
    refine ⟨⟨b.id, b.cid⟩, List.mem_map_of_mem hb, hid, hcid, b.text, htext, ?_⟩
    exact addCids_cid h b hb

/-- What is accepted under the CID of a document has its ids and CIDs. -/
theorem accepted_refs {v : Json} {root : JsString}
    (h : buildContextDocument P (some blocks) = .ok d)
    (hcoll : Set.InjOn P.sha256 (d.digested ∪ (readManifest v).digested P))
    (hv : verifyContextManifest P (readManifest v) (some d.cid) = .ok root) :
    ∃ rs, (readManifest v).refs = .ok rs ∧ rs.Perm (refs d.blocks) := by
  have hroot := verifyContextManifest_ok.mp hv
  obtain ⟨-, -, -, rs, hrs, -, rfl⟩ := hroot
  have hsub : insert (manifestText (hashed P (refs d.blocks))) ((readManifest v).digested P) ⊆
      d.digested ∪ (readManifest v).digested P := by
    rw [hashed_built h]
    exact Set.insert_subset (.inl (.inl rfl)) Set.subset_union_right
  obtain ⟨rs', hsays, hperm, -⟩ := (accepted_iff (build_cid h) (hcoll.mono hsub)).mp hv
  have hblocks := (says_iff.mp hsays).2.2
  have hne : rs' ≠ [] := fun hnil =>
    (contextCidFromManifest_ok.mp (build_cid h)).1 (hnil ▸ hperm).symm.eq_nil
  exact ⟨rs', refs_ok.mpr ⟨hne, hblocks⟩, hperm⟩

/-- Against the ids and CIDs of the document, in any order, its blocks are what is selected. -/
theorem selectBlocks_iff (h : buildContextDocument P (some blocks) = .ok d)
    (hcoll : Set.InjOn P.sha256 (d.digested ∪ offered items)) (hperm : rs.Perm (refs d.blocks)) :
    (∀ i ∈ items, selectBlock P rs i = .ok none) ↔ ∀ i ∈ items, i.Of d := by
  have hids : (rs.map Ref.id).Nodup := (hperm.map Ref.id).nodup_iff.mpr (build_ids h)
  constructor
  · intro hall i hi
    obtain ⟨r, hr, his⟩ := selectBlock_sound (hall i hi)
    exact (is_iff h hcoll hi).mp ⟨r, hperm.subset hr, his⟩
  · intro hall i hi
    obtain ⟨r, hr, his⟩ := (is_iff h hcoll hi).mpr (hall i hi)
    exact selectBlock_complete hids (hperm.symm.subset hr) his

/-- A selection is accepted when its items are blocks of the document. -/
theorem selection_iff (h : buildContextDocument P (some blocks) = .ok d)
    (hcoll : Set.InjOn P.sha256 (d.digested ∪ offered items)) :
    verifyContextSelection P (readManifest d.manifest.json) items (some d.cid) = .ok none ↔
      ∀ i ∈ items, i.Of d := by
  have hrefs : (readManifest d.manifest.json).refs = .ok (refs d.blocks) :=
    refs_ok.mpr ⟨(contextCidFromManifest_ok.mp (build_cid h)).1, (says_iff.mp says_json).2.2⟩
  rw [verifyContextSelection_ok, ← selectBlocks_iff h hcoll (.refl _)]
  constructor
  · rintro ⟨root, rs, -, hrs, hall⟩
    rwa [Except.ok.inj (hrefs.symm.trans hrs)]
  · exact fun hall => ⟨_, _, verify_built h, hrefs, hall⟩

/-- A document's manifest is accepted under its CID, and of items those that are its blocks. A value
    that is accepted has the hashed ids and CIDs, in an order that sorts to the hashed one. -/
theorem context_integrity (P : Platform) :
    (∀ blocks d, buildContextDocument P (some blocks) = .ok d →
      verifyContextManifest P (readManifest d.manifest.json) (some d.cid) = .ok d.cid ∧
      ∀ items, Set.InjOn P.sha256 (d.digested ∪ offered items) →
        (verifyContextSelection P (readManifest d.manifest.json) items (some d.cid) = .ok none ↔
          ∀ i ∈ items, i.Of d)) ∧
    ∀ rs cid v, contextCidFromManifest P rs = .ok cid →
      Set.InjOn P.sha256 (insert (manifestText (hashed P rs)) ((readManifest v).digested P)) →
        (verifyContextManifest P (readManifest v) (some cid) = .ok cid ↔
          ∃ rs', Says v cid rs' ∧ rs'.Perm rs ∧ hashed P rs' = hashed P rs) :=
  ⟨fun _ _ h => ⟨verify_built h, fun _ hcoll => selection_iff h hcoll⟩,
    fun _ _ _ hrs hcoll => accepted_iff hrs hcoll⟩

/-! ### What the CID does not cover -/

def someBlocks : List RawBlock :=
  [⟨some (js "b"), some (js "y")⟩, ⟨some (js "a"), some (js "x")⟩]

/-- The document of these blocks. -/
def someDocument : Document where
  cid := js "truyn:ctx:" ++ manifestText
    [⟨js "a", js "truyn:ctxb:" ++ blockText (js "a") (js "x")⟩,
      ⟨js "b", js "truyn:ctxb:" ++ blockText (js "b") (js "y")⟩]
  blocks :=
    [⟨⟨js "a", js "x"⟩, js "truyn:ctxb:" ++ blockText (js "a") (js "x"), 1⟩,
      ⟨⟨js "b", js "y"⟩, js "truyn:ctxb:" ++ blockText (js "b") (js "y"), 1⟩]
  contentBytes := 2
  serializedBytes := 45

theorem someDocument_built :
    buildContextDocument someLanguage (some someBlocks) = .ok someDocument := by rfl

/-- Its manifest with the blocks in the other order and other sizes. -/
def altered : DocumentManifest :=
  { someDocument.manifest with
    blocks := someDocument.manifest.blocks.reverse.map fun b => { b with bytes := 0 } }

theorem context_integrity_two :
    verifyContextSelection someLanguage (readManifest someDocument.manifest.json)
        (someDocument.blocks.map fun b => ⟨some b.id, some b.cid, some b.text⟩)
          (some someDocument.cid) = .ok none ∧
      verifyContextManifest someLanguage (readManifest altered.json) (some someDocument.cid) =
        .ok someDocument.cid := by
  have h := context_integrity someLanguage
  refine ⟨((h.1 _ _ someDocument_built).2 _ (Function.injective_id.injOn)).mpr ?_,
    (h.2 (refs someDocument.blocks) _ _ (build_cid someDocument_built)
      (Function.injective_id.injOn)).mpr ⟨(refs someDocument.blocks).reverse,
        ⟨rfl, rfl, _, rfl, ?_⟩, List.reverse_perm _, by decide⟩⟩
  · simp only [List.forall_mem_map]
    exact fun b hb => ⟨b, hb, rfl, rfl, rfl⟩
  · exact .cons ⟨rfl, rfl⟩ (.cons ⟨rfl, rfl⟩ .nil)

/-- A manifest that is not the hashed one is accepted. -/
theorem altered_accepted :
    buildContextDocument someLanguage (some someBlocks) = .ok someDocument ∧
    verifyContextManifest someLanguage (readManifest altered.json) (some someDocument.cid) =
      .ok someDocument.cid ∧
    altered.blocks.map ManifestBlock.bytes ≠ someDocument.manifest.blocks.map ManifestBlock.bytes ∧
    altered.blocks.map ManifestBlock.id ≠ someDocument.manifest.blocks.map ManifestBlock.id := by
  refine ⟨someDocument_built, ?_, ?_, ?_⟩
  all_goals decide

end Truyn.Context
