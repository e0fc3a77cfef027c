import Truyn.Context.Documents

/-! context:laws | one CID for the blocks in any order, and deltas as edits of a map

    `Contents` is what a list of blocks says of each id. Blocks are sorted by `localeCompare`, which
    may give the same place to two ids; a document, and the result of a delta, depend on the contents
    alone just when no two of their ids are such (`context_laws`). -/

namespace Truyn.Context
open Checks

/-! ### What is wanted -/

structure ManifestBlock where
  id : JsString
  cid : JsString
  bytes : ℕ
  deriving DecidableEq

structure DocumentManifest where
  version : ℕ
  cid : JsString
  blocks : List ManifestBlock
  deriving DecidableEq

def Document.manifest (d : Document) : DocumentManifest :=
  ⟨1, d.cid, d.blocks.map fun b => ⟨b.id, b.cid, b.bytes⟩⟩

def Document.texts (d : Document) : List Block := d.blocks.map DocumentBlock.toBlock

/-- The texts of the ids. -/
abbrev Contents := JsString → Option JsString

def contents (bs : List Block) : Contents := fun id => (bs.find? fun b => b.id = id).map Block.text

/-- The text that an operation leaves under its id. -/
def RawOp.leaves (o : RawOp) : Option JsString := if o.op = some (js "delete") then none else o.text

def editOne (o : RawOp) (m : Contents) : Contents := fun id =>
  if o.id = some id then o.leaves else m id

/-- The map that the operations make of a map. -/
def edit (ops : List RawOp) (m : Contents) : Contents := ops.foldl (fun m o => editOne o m) m

/-- The operations of a list on an id, in their order. -/
def opsOn (id : JsString) (ops : List RawOp) : List RawOp := ops.filter fun o => o.id = some id

variable (P : Platform)

/-- The blocks in any order give the CID and the manifest of the document. -/
def Unordered (blocks : List RawBlock) (d : Document) : Prop :=
  ∀ blocks' : List RawBlock, blocks'.Perm blocks →
    ∃ e, buildContextDocument P (some blocks') = .ok e ∧ e.cid = d.cid ∧ e.manifest = d.manifest

/-- Operations on different ids may come in any order, and the result is that of any list of the
    blocks of the edited map. -/
def Edits (blocks : List DocumentBlock) (ops : List RawOp) : Prop :=
  ∀ ops', ops'.Perm ops → (∀ id, opsOn id ops' = opsOn id ops) →
    ∀ bs : List Block, (bs.map Block.id).Nodup →
      contents bs = edit ops (contents (blocks.map DocumentBlock.toBlock)) →
        ∃ next, applyContextDelta P blocks (some ops') = .ok next ∧
          normalizeContextBlocks P (some (bs.map raw)) = .ok next ∧
          buildContextDocument P (some (next.map raw)) = buildContextDocument P (some (bs.map raw))

/-- The language tells the ids of the blocks apart. -/
def Apart (bs : List Block) : Prop :=
  ∀ b ∈ bs, ∀ c ∈ bs, P.collation.same Block.id b c = true → b = c

variable {P} {bs cs : List Block} {blocks : List RawBlock} {o : RawOp} {ops : List RawOp}
  {d : Document} {m : Contents} {id : JsString} {old : List DocumentBlock}

/-! ### Sorting -/

/-- A list of different items that reads the same backwards has one item at most. -/
theorem eq_of_reverse {α : Type*} {l : List α} (hl : l.Nodup) (h : l.reverse = l) {a b : α}
    (ha : a ∈ l) (hb : b ∈ l) : a = b := by
  cases l with
  | nil => cases ha
  | cons c l =>
    rcases List.eq_nil_or_concat l with rfl | ⟨t, d, rfl⟩
    · rw [List.mem_singleton.mp ha, List.mem_singleton.mp hb]
    · have hcd : d = c := by
        rw [List.concat_eq_append, List.reverse_cons, List.reverse_append] at h
        exact (List.cons.inj h).1
      rw [List.nodup_cons, List.concat_eq_append] at hl
      exact absurd (by simp [hcd]) hl.1

theorem sortBy_congr (h : bs.Perm cs) (hapart : Apart P bs) :
    P.collation.sortBy Block.id bs = P.collation.sortBy Block.id cs :=
  Collation.sortBy_eq h fun b hb c hc hbc hcb => hapart b hb c hc (Collation.same_iff.mpr ⟨hbc, hcb⟩)

/-- Blocks that come out in one order, also when they come in backwards, are told apart. -/
theorem apart_of_reverse (hids : (bs.map Block.id).Nodup)
    (h : P.collation.sortBy Block.id bs.reverse = P.collation.sortBy Block.id bs) : Apart P bs := by
  intro b hb c hc hsame
  have hfilter := congrArg (List.filter (P.collation.same Block.id b)) h
  rw [Collation.filter_sortBy, Collation.filter_sortBy, List.filter_reverse] at hfilter
  have hself : P.collation.same Block.id b b = true :=
    Collation.same_iff.mpr ⟨refl_of _ b, refl_of _ b⟩
  exact eq_of_reverse ((List.Nodup.of_map _ hids).filter _) hfilter
    (List.mem_filter.mpr ⟨hb, hself⟩) (List.mem_filter.mpr ⟨hc, hsame⟩)

/-! ### Lists of blocks -/

theorem normalizeFrom_ok {seen : List JsString} : normalizeFrom seen blocks = .ok bs ↔
    blocks = bs.map raw ∧ (bs.map Block.id).Nodup ∧ ∀ b ∈ bs, b.id ≠ [] ∧ b.id ∉ seen := by
  induction blocks generalizing seen bs with
  | nil =>
    rw [normalizeFrom, pure_ok]
    constructor
    · rintro rfl
      simp
    · rintro ⟨h, -⟩
      exact (List.map_eq_nil_iff.mp h.symm).symm
  | cons r blocks ih =>
    obtain ⟨id, text⟩ := r
    rw [normalizeFrom, guard_ok, guard_ok]
    cases text with
    | none =>
      refine iff_of_false (fun h => throw_ne h.2.2) (fun h => ?_)
      cases bs with
      | nil => simp at h
      | cons b bs => simp [raw] at h
    | some text =>
      simp only [bind_ok, pure_ok, ih]
      constructor
      · rintro ⟨hne, hseen, rest, ⟨rfl, hids, hrest⟩, rfl⟩
        cases id with
        | none => exact absurd rfl hne
        | some id =>
          refine ⟨rfl, ?_, fun b hb => ?_⟩
          · rw [List.map_cons, List.nodup_cons]
            refine ⟨fun hmem => ?_, hids⟩
            obtain ⟨b, hb, hbid⟩ := List.mem_map.mp hmem
            exact (hrest b hb).2 (List.mem_cons.mpr (.inl hbid))
          · rcases List.mem_cons.mp hb with rfl | hb
            · exact ⟨hne, hseen⟩
            · exact ⟨(hrest b hb).1, fun h => (hrest b hb).2 (List.mem_cons_of_mem _ h)⟩
      · rintro ⟨hmap, hids, hall⟩
        cases bs with
        | nil => simp at hmap
        | cons b bs =>
          rw [List.map_cons, List.cons.injEq, raw, RawBlock.mk.injEq] at hmap
          obtain ⟨⟨rfl, htext⟩, rfl⟩ := hmap
          cases htext
          rw [List.map_cons, List.nodup_cons] at hids
          obtain ⟨hne, hseen⟩ := hall b List.mem_cons_self
          refine ⟨hne, hseen, bs, ⟨rfl, hids.2, fun c hc => ?_⟩, rfl⟩
          have hc' := hall c (List.mem_cons_of_mem b hc)
          refine ⟨hc'.1, fun h => ?_⟩
          rcases List.mem_cons.mp h with heq | h
          · exact hids.1 (List.mem_map.mpr ⟨c, hc, heq⟩)
          · exact hc'.2 h

/-- Named blocks with different ids. -/
structure Listable (bs : List Block) : Prop where
  some : bs ≠ []
  ids : (bs.map Block.id).Nodup
  named : ∀ b ∈ bs, b.id ≠ []

theorem Listable.perm (h : Listable bs) (hperm : cs.Perm bs) : Listable cs where
  some hcs := h.some (hperm.symm.trans (hcs ▸ List.Perm.nil)).eq_nil
  ids := (hperm.map Block.id).nodup_iff.mpr h.ids
  named b hb := h.named b (hperm.subset hb)

theorem raw_injective : Function.Injective raw := by
  rintro ⟨i, t⟩ ⟨j, u⟩ h
  simp_all [raw]

/-- What is accepted are listable blocks; they are sorted. -/
theorem normalizeContextBlocks_ok : normalizeContextBlocks P (some blocks) = .ok cs ↔
    ∃ bs, blocks = bs.map raw ∧ Listable bs ∧ cs = P.collation.sortBy Block.id bs := by
  cases blocks with
  | nil =>
    refine iff_of_false throw_ne ?_
    rintro ⟨bs, hmap, hbs, -⟩
    exact hbs.some (List.map_eq_nil_iff.mp hmap.symm)
  | cons r blocks =>
    simp only [normalizeContextBlocks, bind_ok, normalizeFrom_ok, pure_ok]
    constructor
    · rintro ⟨bs, ⟨hmap, hids, hall⟩, rfl⟩
      refine ⟨bs, hmap, ⟨?_, hids, fun b hb => (hall b hb).1⟩, rfl⟩
      rintro rfl
      simp at hmap
    · rintro ⟨bs, hmap, hbs, rfl⟩
      exact ⟨bs, ⟨hmap, hbs.ids, fun b hb => ⟨hbs.named b hb, List.not_mem_nil⟩⟩, rfl⟩

theorem normalize_raw : normalizeContextBlocks P (some (bs.map raw)) = .ok cs ↔
    Listable bs ∧ cs = P.collation.sortBy Block.id bs := by
  rw [normalizeContextBlocks_ok]
  constructor
  · rintro ⟨bs', hmap, h⟩
    obtain rfl := raw_injective.list_map hmap
    exact h
  · exact fun h => ⟨bs, rfl, h⟩

/-- Blocks with different ids are in one order when their ids are. -/
theorem eq_of_ids (hids : (bs.map Block.id).Nodup) (hperm : cs.Perm bs)
    (h : cs.map Block.id = bs.map Block.id) : cs = bs := by
  refine List.ext_getElem hperm.length_eq fun n hc hb => ?_
  have hid : cs[n].id = bs[n].id := by
    simpa [List.getElem?_eq_getElem hc, List.getElem?_eq_getElem hb] using congrArg (·[n]?) h
  exact List.inj_on_of_nodup_map hids (hperm.subset (List.getElem_mem hc)) (List.getElem_mem hb) hid

/-! ### Documents -/

theorem build_congr {blocks blocks' : Option (List RawBlock)}
    (h : normalizeContextBlocks P blocks = normalizeContextBlocks P blocks') :
    buildContextDocument P blocks = buildContextDocument P blocks' := by
  rw [buildContextDocument, buildContextDocument, h]

theorem build_texts (h : buildContextDocument P (some blocks) = .ok d) :
    normalizeContextBlocks P (some blocks) = .ok d.texts := by
  simp only [buildContextDocument, bind_ok, pure_ok] at h
  obtain ⟨normalized, hnormal, ds, hds, -, -, rfl⟩ := h
  rw [hnormal, Document.texts, (addCids_ok hds).1]

theorem unordered_iff (h : buildContextDocument P (some blocks) = .ok d) :
    Unordered P blocks d ↔ Apart P d.texts := by
  obtain ⟨bs, rfl, hbs, htexts⟩ := normalizeContextBlocks_ok.mp (build_texts h)
  have hsorted : (P.collation.sortBy Block.id bs).Perm bs := Collation.sortBy_perm bs
  constructor
  · intro hall
    obtain ⟨e, he, -, hmanifest⟩ := hall (bs.reverse.map raw) (bs.reverse_perm.map raw)
    have hetexts := (normalize_raw.mp (build_texts he)).2
    have hids : e.texts.map Block.id = d.texts.map Block.id := by
      have h := congrArg (fun m => m.blocks.map ManifestBlock.id) hmanifest
      simpa [Document.manifest, Document.texts, Function.comp_def] using h
    have heq : e.texts = d.texts := by
      refine eq_of_ids ?_ ?_ hids
      · rw [htexts]
        exact (hbs.perm hsorted).ids
      · rw [htexts, hetexts]
        exact ((Collation.sortBy_perm _).trans bs.reverse_perm).trans hsorted.symm
    have hapart : Apart P bs := apart_of_reverse hbs.ids (by rw [← hetexts, ← htexts, heq])
    intro b hb c hc
    rw [htexts] at hb hc
    exact hapart b (hsorted.subset hb) c (hsorted.subset hc)
  · intro hapart blocks' hperm
    obtain ⟨cs, rfl, hcs⟩ := (congrFun₂ (List.eq_map_comp_perm raw) blocks' bs).mpr hperm
    refine ⟨d, (build_congr ?_).trans h, rfl, rfl⟩
    have hbapart : Apart P bs := fun b hb c hc =>
      hapart b (htexts ▸ hsorted.symm.subset hb) c (htexts ▸ hsorted.symm.subset hc)
    rw [normalize_raw.mpr ⟨hbs.perm hcs, rfl⟩, normalize_raw.mpr ⟨hbs, rfl⟩,
      sortBy_congr hcs.symm hbapart]

/-- A document with the CID has the blocks. -/
theorem same_blocks {blocks' : List RawBlock} {e : Document}
    (hd : buildContextDocument P (some blocks) = .ok d)
    (he : buildContextDocument P (some blocks') = .ok e)
    (hcoll : Set.InjOn P.sha256 (d.digested ∪ e.digested)) (hcid : d.cid = e.cid) :
    blocks.Perm blocks' := by
  obtain rfl := blocks_of_cid (buildContextDocument_ok hd) (buildContextDocument_ok he) hcoll
    Set.subset_union_left Set.subset_union_right hcid
  obtain ⟨bs, rfl, -, hbs⟩ := normalizeContextBlocks_ok.mp (build_texts hd)
  obtain ⟨cs, rfl, -, hcs⟩ := normalizeContextBlocks_ok.mp (build_texts he)
  refine List.Perm.map raw ?_
  exact (Collation.sortBy_perm bs).symm.trans (hbs ▸ hcs ▸ Collation.sortBy_perm cs)

/-! ### Edits -/

/-- The blocks with the text of an id replaced; `none` deletes it. -/
def write (bs : List Block) (id : JsString) : Option JsString → List Block
  | none => bs.filter fun b => b.id ≠ id
  | some text => setBlock ⟨id, text⟩ bs

/-- What `applyContextDelta` takes, where the id has this text. -/
def RawOp.Fits (o : RawOp) (before : Option JsString) : Prop :=
  o.op = some (js "delete") ∧ before ≠ none ∨
    o.text ≠ none ∧ (o.op = some (js "upsert") ∨ o.op = some (js "replace") ∧ before ≠ none)

theorem contents_cons {b : Block} :
    contents (b :: bs) id = if b.id = id then some b.text else contents bs id := by
  by_cases h : b.id = id <;> simp [contents, h]

theorem contents_eq_none : contents bs id = none ↔ ∀ b ∈ bs, b.id ≠ id := by
  simp [contents]

theorem contents_of_mem (hids : (bs.map Block.id).Nodup) {b : Block} (hb : b ∈ bs) :
    contents bs b.id = some b.text := by
  induction bs with
  | nil => cases hb
  | cons c bs ih =>
    rw [List.map_cons, List.nodup_cons] at hids
    rw [contents_cons]
    rcases List.mem_cons.mp hb with rfl | hb
    · rw [if_pos rfl]
    · have hne : c.id ≠ b.id := fun h => hids.1 (h ▸ List.mem_map_of_mem hb)
      rw [if_neg hne, ih hids.2 hb]

theorem mem_of_contents {text : JsString} (h : contents bs id = some text) : ⟨id, text⟩ ∈ bs := by
  obtain ⟨b, hb, rfl⟩ := Option.map_eq_some_iff.mp h
  have hid : b.id = id := by simpa using List.find?_some hb
  exact hid ▸ List.mem_of_find?_eq_some hb

/-- Lists of blocks with different ids that say the same have the same blocks. -/
theorem perm_of_contents (hbs : (bs.map Block.id).Nodup) (hcs : (cs.map Block.id).Nodup)
    (h : contents bs = contents cs) : bs.Perm cs := by
  refine (List.perm_ext_iff_of_nodup (.of_map _ hbs) (.of_map _ hcs)).mpr fun b =>
    ⟨fun hb => ?_, fun hb => ?_⟩
  · exact mem_of_contents ((congrFun h b.id).symm.trans (contents_of_mem hbs hb))
  · exact mem_of_contents ((congrFun h b.id).trans (contents_of_mem hcs hb))

theorem contents_perm (hbs : (bs.map Block.id).Nodup) (h : bs.Perm cs) :
    contents cs = contents bs := by
  have hcs : (cs.map Block.id).Nodup := (h.map Block.id).nodup_iff.mp hbs
  funext id
  cases hc : contents cs id with
  | none =>
    rw [contents_eq_none] at hc
    exact (contents_eq_none.mpr fun b hb => hc b (h.mem_iff.mp hb)).symm
  | some text =>
    exact (contents_of_mem hbs (h.mem_iff.mpr (mem_of_contents hc))).symm

theorem setBlock_ids {b : Block} : (setBlock b bs).map Block.id =
    if b.id ∈ bs.map Block.id then bs.map Block.id else bs.map Block.id ++ [b.id] := by
  induction bs with
  | nil => rfl
  | cons c bs ih =>
    rw [setBlock]
    by_cases h : c.id = b.id
    · simp [h]
    · rw [if_neg h, List.map_cons, ih]
      by_cases hmem : b.id ∈ bs.map Block.id
      · simp [hmem]
      · simp [hmem, Ne.symm h]

theorem contents_setBlock {b : Block} :
    contents (setBlock b bs) id = if b.id = id then some b.text else contents bs id := by
  induction bs with
  | nil => rw [setBlock, contents_cons]
  | cons c bs ih =>
    rw [setBlock]
    by_cases h : c.id = b.id
    · rw [if_pos h, contents_cons, contents_cons]
      by_cases hid : b.id = id <;> simp [hid, h]
    · rw [if_neg h, contents_cons, ih, contents_cons]
      by_cases hid : b.id = id
      · subst hid
        simp [h]
      · simp [hid]

theorem write_ids {text : Option JsString} (hids : (bs.map Block.id).Nodup) :
    ((write bs id text).map Block.id).Nodup := by
  cases text with
  | none => exact hids.sublist (List.filter_sublist.map _)
  | some text =>
    rw [write, setBlock_ids]
    split
    · exact hids
    · next hmem => exact List.nodup_append.mpr ⟨hids, List.nodup_singleton _, by simpa using hmem⟩

theorem contents_write {text : Option JsString} {j : JsString} :
    contents (write bs id text) j = if id = j then text else contents bs j := by
  cases text with
  | some text => exact contents_setBlock
  | none =>
    by_cases h : id = j
    · subst h
      rw [if_pos rfl, contents_eq_none]
      intro b hb
      simpa using (List.mem_filter.mp hb).2
    · rw [if_neg h, write]
      induction bs with
      | nil => rfl
      | cons b bs ih =>
        by_cases hb : b.id = id
        · rw [List.filter_cons_of_neg (by simpa using hb), ih, contents_cons, if_neg (by rwa [hb])]
        · rw [List.filter_cons_of_pos (by simpa using hb), contents_cons, ih, contents_cons]

theorem any_id : (bs.any fun b => b.id = id) = true ↔ contents bs id ≠ none := by
  rw [Ne, contents_eq_none]
  simp

/-- An operation that is taken writes under its id. -/
theorem applyOp_ok : applyOp bs o = .ok cs ↔
    ∃ id, o.id = some id ∧ id ≠ [] ∧ o.Fits (contents bs id) ∧ cs = write bs id o.leaves := by
  obtain ⟨op, id, text⟩ := o
  rcases id with _ | _ | ⟨u, rest⟩
  · cases op <;> simp [applyOp, throw_ne]
  · cases op <;> simp [applyOp, throw_ne]
  rcases op with _ | op
  · simp [applyOp, RawOp.Fits, throw_ne]
  have hthere : (bs.any fun b => b.id = u :: rest) = true ↔ _ := any_id
  simp only [applyOp, RawOp.Fits, RawOp.leaves, Option.some.injEq, exists_eq_left', ne_eq,
    reduceCtorEq, not_false_eq_true, true_and]
  by_cases hdelete : op = js "delete"
  · subst hdelete
    have hupsert : js "delete" ≠ js "upsert" := by decide
    have hreplace : js "delete" ≠ js "replace" := by decide
    rw [if_pos rfl, if_pos rfl]
    simp only [hupsert, hreplace, false_and, or_false, and_false, true_and, ← hthere, write]
    by_cases h : (bs.any fun b => b.id = u :: rest) = true
    · simp only [h, if_true, pure_ok, true_and, ne_eq]
      exact eq_comm
    · simp [h, throw_ne]
  · rw [if_neg hdelete, if_neg hdelete, throw_ok]
    cases text with
    | none => simp [throw_ne, hdelete]
    | some text =>
      have hne : js "replace" ≠ js "upsert" := by decide
      simp only [throw_ok, pure_ok, hdelete, false_and, false_or, write, ← hthere, eq_comm (a := cs)]
      by_cases hreplace : op = js "replace"
      · simp [hreplace, hne]
      · simp [hreplace]

/-- What the operations on one id need of its text, one after the other. -/
def FitsOn : List RawOp → Option JsString → Prop
  | [], _ => True
  | o :: ops, before => o.Fits before ∧ FitsOn ops o.leaves

def Named (ops : List RawOp) : Prop := ∀ o ∈ ops, ∃ id, o.id = some id ∧ id ≠ []

theorem opsOn_cons :
    opsOn id (o :: ops) = if o.id = some id then o :: opsOn id ops else opsOn id ops := by
  by_cases h : o.id = some id <;> simp [opsOn, h]

theorem edit_on (m : Contents) :
    edit ops m id = (opsOn id ops).foldl (fun _ o => o.leaves) (m id) := by
  induction ops generalizing m with
  | nil => rfl
  | cons o ops ih =>
    rw [edit, List.foldl_cons, ← edit, ih, opsOn_cons, editOne]
    by_cases h : o.id = some id <;> simp [h]

theorem edit_congr {ops' : List RawOp} (h : ∀ id, opsOn id ops' = opsOn id ops) :
    edit ops' m = edit ops m := by
  funext id
  rw [edit_on, edit_on, h]

/-- Operations are taken when those on each id are, in their order. -/
theorem applyOps_ok (hids : (bs.map Block.id).Nodup) :
    (∃ cs, applyOps bs ops = .ok cs) ↔ Named ops ∧ ∀ id, FitsOn (opsOn id ops) (contents bs id) := by
  induction ops generalizing bs with
  | nil => simp [applyOps, Named, opsOn, FitsOn, pure, Except.pure]
  | cons o ops ih =>
    simp only [applyOps, bind_ok]
    constructor
    · rintro ⟨cs, next, hnext, hrest⟩
      obtain ⟨id, hid, hne, hfits, rfl⟩ := applyOp_ok.mp hnext
      obtain ⟨hnamed, hon⟩ := (ih (write_ids hids)).mp ⟨cs, hrest⟩
      refine ⟨List.forall_mem_cons.mpr ⟨⟨id, hid, hne⟩, hnamed⟩, fun j => ?_⟩
      have hj := hon j
      rw [contents_write] at hj
      rw [opsOn_cons, hid]
      by_cases h : id = j
      · subst h
        rw [if_pos rfl] at hj ⊢
        exact ⟨hfits, hj⟩
      · rw [if_neg h] at hj
        rwa [if_neg (by simpa using h)]
    · rintro ⟨hnamed, hon⟩
      obtain ⟨id, hid, hne⟩ := hnamed o List.mem_cons_self
      have hfits := hon id
      rw [opsOn_cons, if_pos hid] at hfits
      have hnext := applyOp_ok.mpr ⟨id, hid, hne, hfits.1, rfl⟩
      have hrest : ∀ j, FitsOn (opsOn j ops) (contents (write bs id o.leaves) j) := by
        intro j
        rw [contents_write]
        by_cases h : id = j
        · subst h
          rw [if_pos rfl]
          exact hfits.2
        · have hj := hon j
          rw [opsOn_cons, hid, if_neg (by simpa using h)] at hj
          rwa [if_neg h]
      obtain ⟨cs, hcs⟩ := (ih (write_ids hids)).mpr
        ⟨fun p hp => hnamed p (List.mem_cons_of_mem o hp), hrest⟩
      exact ⟨cs, _, hnext, hcs⟩

/-- What the operations leave is what they make of the map. -/
theorem contents_applyOps (hids : (bs.map Block.id).Nodup) (h : applyOps bs ops = .ok cs) :
    (cs.map Block.id).Nodup ∧ contents cs = edit ops (contents bs) := by
  induction ops generalizing bs with
  | nil =>
    obtain rfl := pure_ok.mp h
    exact ⟨hids, rfl⟩
  | cons o ops ih =>
    rw [applyOps, bind_ok] at h
    obtain ⟨next, hnext, hrest⟩ := h
    obtain ⟨id, hid, -, -, rfl⟩ := applyOp_ok.mp hnext
    obtain ⟨hcs, hcontents⟩ := ih (write_ids hids) hrest
    refine ⟨hcs, ?_⟩
    have hone : contents (write bs id o.leaves) = editOne o (contents bs) := by
      funext j
      rw [contents_write, editOne, hid]
      by_cases h : id = j <;> simp [h]
    rw [hcontents, hone, edit, edit, List.foldl_cons]

/-! ### Deltas -/

def textsOf (old : List DocumentBlock) : List Block := old.map DocumentBlock.toBlock

theorem applyContextDelta_ok : applyContextDelta P old (some ops) = .ok cs ↔
    Listable (textsOf old) ∧ ops ≠ [] ∧ ∃ next, Listable next ∧
      applyOps (P.collation.sortBy Block.id (textsOf old)) ops = .ok next ∧
        cs = P.collation.sortBy Block.id next := by
  have hraw : (old.map fun b => raw b.toBlock) = (textsOf old).map raw := by
    rw [textsOf, List.map_map]
    rfl
  rw [applyContextDelta, hraw, bind_ok]
  cases ops with
  | nil => simp [throw_ne]
  | cons o ops =>
    simp only [normalize_raw, bind_ok]
    grind

/-- The contents of blocks do not depend on their order. -/
theorem contents_sorted (hbs : Listable bs) :
    contents (P.collation.sortBy Block.id bs) = contents bs :=
  contents_perm hbs.ids (Collation.sortBy_perm bs).symm

theorem edits_iff (h : applyContextDelta P old (some ops) = .ok cs) :
    Edits P old ops ↔ Apart P cs := by
  obtain ⟨hheld, hops, next, hnext, happly, rfl⟩ := applyContextDelta_ok.mp h
  have hsorted : Listable (P.collation.sortBy Block.id (textsOf old)) :=
    hheld.perm (Collation.sortBy_perm _)
  have hcontents := (contents_applyOps hsorted.ids happly).2
  rw [contents_sorted hheld] at hcontents
  have hperm : (P.collation.sortBy Block.id next).Perm next := Collation.sortBy_perm next
  constructor
  · intro hall
    obtain ⟨next', hnext', hreverse, -⟩ := hall ops (.refl ops) (fun _ => rfl) next.reverse
      (hnext.perm next.reverse_perm).ids
      ((contents_perm hnext.ids next.reverse_perm.symm).trans hcontents)
    cases h.symm.trans hnext'
    have hapart : Apart P next := apart_of_reverse hnext.ids (normalize_raw.mp hreverse).2.symm
    exact fun b hb c hc => hapart b (hperm.subset hb) c (hperm.subset hc)
  · intro hapart ops' hops' hon bs hids hbs
    have hnapart : Apart P next := fun b hb c hc =>
      hapart b (hperm.symm.subset hb) c (hperm.symm.subset hc)
    -- The operations on each id are as they were, so all are taken.
    obtain ⟨hnamed, hfits⟩ := (applyOps_ok hsorted.ids).mp ⟨next, happly⟩
    have hfits' : ∀ id, FitsOn (opsOn id ops') _ := fun id => (hon id).symm ▸ hfits id
    obtain ⟨next', happly'⟩ :=
      (applyOps_ok hsorted.ids).mpr ⟨fun o ho => hnamed o (hops'.subset ho), hfits'⟩
    obtain ⟨hids', hcontents'⟩ := contents_applyOps hsorted.ids happly'
    rw [contents_sorted hheld, edit_congr hon, ← hcontents] at hcontents'
    have hperm' : next'.Perm next := perm_of_contents hids' hnext.ids hcontents'
    have hbsperm : bs.Perm next := perm_of_contents hids hnext.ids (hbs.trans hcontents.symm)
    have hsame := sortBy_congr hperm'.symm hnapart
    have hsame' := sortBy_congr hbsperm.symm hnapart
    have hnormal : normalizeContextBlocks P (some (bs.map raw)) =
        .ok (P.collation.sortBy Block.id next) :=
      normalize_raw.mpr ⟨hnext.perm hbsperm, hsame'⟩
    refine ⟨_, applyContextDelta_ok.mpr ⟨hheld, fun h => hops (h ▸ hops').symm.eq_nil, next',
      hnext.perm hperm', happly', hsame⟩, hnormal, build_congr ?_⟩
    rw [hnormal, normalize_raw.mpr ⟨hnext.perm hperm, rfl⟩, Collation.sortBy,
      (Collation.pairwise_sortBy next).insertionSort_eq]

/-- Where no two texts that are digested collide, a CID stands for its blocks. A list of blocks gives
    one document in every order, and a delta is an edit of a map, just when the language tells the
    ids apart. -/
theorem context_laws (P : Platform) :
    (∀ blocks blocks' d e, buildContextDocument P (some blocks) = .ok d →
      buildContextDocument P (some blocks') = .ok e →
        Set.InjOn P.sha256 (d.digested ∪ e.digested) → d.cid = e.cid →
          ∀ b, b ∈ blocks ↔ b ∈ blocks') ∧
    (∀ blocks d, buildContextDocument P (some blocks) = .ok d →
      (Unordered P blocks d ↔ Apart P d.texts)) ∧
    ∀ held ops next, applyContextDelta P held (some ops) = .ok next →
      (Edits P held ops ↔ Apart P next) :=
  ⟨fun _ _ _ _ hd he hcoll hcid _ => (same_blocks hd he hcoll hcid).mem_iff,
    fun _ _ h => unordered_iff h, fun _ _ _ h => edits_iff h⟩

/-! ### One letter under two ids -/

/-- `é` as two characters. -/
def decompose (s : JsString) : JsString := s.flatMap fun u => if u = 0xE9 then [0x65, 0x301] else [u]

/-- A language that does not tell the spellings of `é` apart; digests that do not collide. -/
def someLanguage : Platform where
  collation := ⟨fun a b => unitsLe (decompose a) (decompose b), fun _ _ _ => unitsLe_trans _ _ _,
    fun _ _ => unitsLe_total _ _⟩
  sha256 t := t

def plain : Block := ⟨js "a", js "x"⟩

def composed : Block := ⟨[0xE9], js "y"⟩

def decomposed : Block := ⟨[0x65, 0x301], js "z"⟩

def upsert (b : Block) : RawOp := ⟨some (js "upsert"), some b.id, some b.text⟩

/-- A document whose ids differ in the spelling. -/
def held : List DocumentBlock := [⟨plain, js "truyn:ctxb:" ++ blockText plain.id plain.text, 1⟩]

theorem context_laws_two :
    ∃ d, buildContextDocument someLanguage (some [raw plain, raw composed]) = .ok d ∧
      (∀ b, b ∈ [raw plain, raw composed] ↔ b ∈ [raw composed, raw plain]) ∧
      Unordered someLanguage [raw plain, raw composed] d ∧
      Edits someLanguage held [upsert composed] :=
  ⟨_, rfl, (context_laws someLanguage).1 _ _ _ _ rfl rfl (Function.injective_id.injOn) rfl,
    ((context_laws someLanguage).2.1 _ _ rfl).mpr (by unfold Apart; decide),
    ((context_laws someLanguage).2.2 _ _ _ rfl).mpr (by unfold Apart; decide)⟩

/-- Two ids that are one letter: the CID, and what a delta leaves, follow the order. -/
theorem spelling_decides :
    (∃ d e, buildContextDocument someLanguage (some [raw composed, raw decomposed]) = .ok d ∧
      buildContextDocument someLanguage (some [raw decomposed, raw composed]) = .ok e ∧
      d.cid ≠ e.cid ∧ d.manifest ≠ e.manifest) ∧
    ∃ next next', applyContextDelta someLanguage held (some [upsert composed, upsert decomposed]) =
        .ok next ∧
      applyContextDelta someLanguage held (some [upsert decomposed, upsert composed]) = .ok next' ∧
      next ≠ next' :=
  ⟨⟨_, _, rfl, rfl, by decide, by decide⟩, _, _, rfl, rfl, by decide⟩

end Truyn.Context
