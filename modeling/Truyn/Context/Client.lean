import Truyn.Context.Integrity
import Truyn.Context.Queries
import Truyn.Protocol.Compact

/-! context:client | what a node reads of the documents at its relay

    The node keeps the manifests that it saw, those of its own documents unverified, and verifies
    each again when a block is checked against it. So every block that it returns is a block of the
    document. Whether blocks are missing, come again or are too many, and what a put reports, is left
    to the relay (`reads_verified`). -/

namespace Truyn.Context.Reads
open Checks

/-- What a node takes from its surroundings, and its key. -/
structure NodeHost extends Unicode where
  crypto : Protocol.Crypto
  privateKeyPem : JsString

/-- What `requestJson` returns, or throws. -/
abbrev Reply := Except JsString Json

structure Client where
  registered : Bool
  contextManifestCache : List (JsString × Json)

variable (H : NodeHost)

/-! ### Reading a reply -/

def typeError : JsString := js "TypeError"

/-- `value.key`. -/
def field (key : JsString) : Json → Except JsString (Option Json)
  | .null => throw typeError
  | v => return v.get key

def readItem (v : Json) : Item where
  id := asText (v.get (js "id"))
  cid := asText (v.get (js "cid"))
  text := asText (v.get (js "text"))

/-- The values of `blocks || []`. -/
def listed : Option Json → Except JsString (List Json)
  | some (.array l) => return l
  | some (.string s) => return (codePoints s).map Json.string
  | v => if falsy v then return [] else throw typeError

/-- The loop of `verifyContextSelection`, over values as they came. -/
def selectValues (P : Platform) (rs : List Ref) : List Json → Except JsString (Option JsString)
  | [] => return none
  | .null :: _ => throw typeError
  | v :: vs => do
    let reason ← selectBlock P rs (readItem v)
    match reason with
    | some reason => return some reason
    | none => selectValues P rs vs

def verifySelection (P : Platform) (manifest : Json) (blocks : Option Json) (cid : JsString) :
    Except JsString (Option JsString) :=
  match verifyContextManifest P (readManifest manifest) (some cid), (readManifest manifest).refs with
  | .error reason, _ | _, .error reason => return some reason
  | .ok _, .ok rs => do
    let l ← listed blocks
    selectValues P rs l

/-! ### Calls -/

def Client.requireSession (c : Client) (action : JsString) : Except JsString Unit :=
  if c.registered then return () else throw (js "Node must register before " ++ action)

/-- `encodeURIComponent`, which throws on a surrogate without its other half. -/
def encodable (s : JsString) : Except JsString Unit :=
  if checkUnicode s then return () else throw (js "URI malformed")

/-- `if (result.manifest) this.contextManifestCache.set(result.cid, result.manifest)`; what is no
    string is not looked up. -/
def Client.remember (c : Client) (body : Json) : Client :=
  match asText (body.get (js "cid")), body.get (js "manifest") with
  | some cid, some m =>
    if falsy m then c
    else { c with contextManifestCache := Maps.set cid m c.contextManifestCache }
  | _, _ => c

/-- A compact frame over the payload is sent; the reply's CID is reported. -/
def Client.store (c : Client) (action : JsString) (type : Protocol.CompactType) (payload : Json)
    (frameId : JsString) (target : Except JsString Unit) (reply : Reply) :
    Client × Except JsString (Option Json) :=
  let sent := do
    c.requireSession action
    let _ ← Protocol.createCompactFrame H.crypto ⟨type, payload, H.privateKeyPem, frameId⟩
    target
    let body ← reply
    let _ ← field (js "manifest") body
    return body
  match sent with
  | .error e => (c, .error e)
  | .ok body => (c.remember body, .ok (body.get (js "cid")))

def putContext (blocks readers metadata : Json) (frameId : JsString) (reply : Reply) (c : Client) :
    Client × Except JsString (Option Json) :=
  c.store H (js "putting context") .CONTEXT_PUT
    (.object [(js "blocks", blocks), (js "readers", readers), (js "metadata", metadata)])
    frameId (return ()) reply

def deltaContext (baseCid : JsString) (ops readers metadata : Json) (frameId : JsString)
    (reply : Reply) (c : Client) : Client × Except JsString (Option Json) :=
  c.store H (js "updating context") .CONTEXT_DELTA
    (.object [(js "baseCid", .string baseCid), (js "ops", ops), (js "readers", readers),
      (js "metadata", metadata)])
    frameId (encodable baseCid) reply

/-- The manifest, and whether it was in the cache. -/
def contextManifest (cid : JsString) (reply : Reply) (c : Client) :
    Except JsString (Client × Json × Bool) := do
  c.requireSession (js "reading context")
  match Maps.get c.contextManifestCache cid with
  | some m => return (c, m, true)
  | none =>
    encodable cid
    let body ← reply
    let found ← field (js "manifest") body
    let m := found.getD .null
    let _ ← (verifyContextManifest H.toPlatform (readManifest m) (some cid)).mapError
      fun reason => js "Context manifest verification failed: " ++ reason
    return ({ c with contextManifestCache := Maps.set cid m c.contextManifestCache }, m, false)

/-- The blocks of a reply, once they are verified. -/
def selected (manifest : Json) (cid : JsString) (failure : JsString) (body : Json) :
    Except JsString (List Json) := do
  let blocks ← field (js "blocks") body
  let failed ← verifySelection H.toPlatform manifest blocks cid
  match failed with
  | some reason => throw (failure ++ reason)
  | none => listed blocks

/-- `ids` is `none` when it is no array. -/
def selectContext (cid : JsString) (ids : Option (List JsString)) (manifestReply reply : Reply)
    (c : Client) : Client × Except JsString (List Json) :=
  if ids.getD [] = [] then (c, throw (js "Context selection requires block ids"))
  else
    match contextManifest H cid manifestReply c with
    | .error e => (c, .error e)
    | .ok (c', m, _) => (c', do
        encodable cid
        let body ← reply
        selected H m cid (js "Context selection verification failed: ") body)

def rankOf : Json → Option NumberText
  | .number n => some n
  | _ => none

/-- The proof names the blocks in their order. -/
def checkProof : ℕ → List Json → List Json → Except JsString Unit
  | rank, p :: ps, b :: bs => do
    let id ← field (js "id") p
    if asText id ≠ (readItem b).id ∨
        asText (p.get (js "cid")) ≠ (readItem b).cid ∨
          (p.get (js "rank")).bind rankOf ≠ some (.ofNat rank) then
      throw (js "Context retrieval provenance block mismatch")
    checkProof (rank + 1) ps bs
  | _, _, _ => return ()

/-- `query` is `none` when it is no string; `topK` is for the relay. -/
def retrieveContext (cid : JsString) (query : Option JsString) (manifestReply reply : Reply)
    (c : Client) : Client × Except JsString (List Json) :=
  if (trim (query.getD [])).length < 3 then
    (c, throw (js "Context retrieval requires a query"))
  else
    match contextManifest H cid manifestReply c with
    | .error e => (c, .error e)
    | .ok (c', m, _) => (c', do
        encodable cid
        let body ← reply
        let blocks ← selected H m cid (js "Context retrieval verification failed: ") body
        let retrieval := if falsy (body.get (js "retrieval")) then .object [] else
          (body.get (js "retrieval")).getD .null
        if asText (retrieval.get (js "rootCid")) ≠ some cid ∨
            asText (retrieval.get (js "manifestCid")) ≠ some cid then
          throw (js "Context retrieval provenance root mismatch")
        let hash ← contextQueryHash H.toUnicode (query.getD [])
        if asText (retrieval.get (js "queryHash")) ≠ some hash then
          throw (js "Context retrieval query hash mismatch")
        let proof := match retrieval.get (js "selected") with
          | some (.array l) => l
          | _ => []
        if proof.length ≠ blocks.length then
          throw (js "Context retrieval provenance selection mismatch")
        checkProof 1 proof blocks
        return blocks)

/-! ### Runs -/

/-- A call, with what the relay replies to its requests. -/
inductive Act
  | put (blocks readers metadata : Json) (frameId : JsString) (reply : Reply)
  | delta (baseCid : JsString) (ops readers metadata : Json) (frameId : JsString) (reply : Reply)
  | manifest (cid : JsString) (reply : Reply)
  | select (cid : JsString) (ids : Option (List JsString)) (manifestReply reply : Reply)
  | retrieve (cid : JsString) (query : Option JsString) (topK : ℚ) (manifestReply reply : Reply)

/-- What a call returns: the reported CID, a manifest, or blocks. -/
inductive Answer
  | stored (cid : Option Json)
  | manifest (m : Json)
  | blocks (l : List Json)

def Client.act (c : Client) : Act → Client × Except JsString Answer
  | .put blocks readers metadata frameId reply =>
    (putContext H blocks readers metadata frameId reply c).map id (Except.map .stored)
  | .delta baseCid ops readers metadata frameId reply =>
    (deltaContext H baseCid ops readers metadata frameId reply c).map id (Except.map .stored)
  | .manifest cid reply =>
    match contextManifest H cid reply c with
    | .error e => (c, .error e)
    | .ok (c', m, _) => (c', .ok (.manifest m))
  | .select cid ids manifestReply reply =>
    (selectContext H cid ids manifestReply reply c).map id (Except.map .blocks)
  | .retrieve cid query _ manifestReply reply =>
    (retrieveContext H cid query manifestReply reply c).map id (Except.map .blocks)

/-- The calls of a run, each with what it returned or threw. -/
def Client.run (c : Client) : List Act → List (Act × Except JsString Answer)
  | [] => []
  | a :: as => (a, (c.act H a).2) :: (c.act H a).1.run as

/-! ### What is wanted -/

def itemFrom (b : DocumentBlock) : Item := ⟨some b.id, some b.cid, some b.text⟩

/-- The blocks that a put sends. -/
def readBlocks : Json → Option (List RawBlock)
  | .array l => some (l.map fun v => ⟨(readItem v).id, (readItem v).text⟩)
  | _ => none

/-- The call returned what it ought to, of this document. -/
def Verified (P : Platform) (d : Document) : Act → Answer → Prop
  | .put blocks _ _ _ _, .stored cid =>
    buildContextDocument P (readBlocks blocks) = .ok d → asText cid = some d.cid
  | .select cid ids _ _, .blocks vs => cid = d.cid →
    ∃ l : List DocumentBlock, vs.map readItem = l.map itemFrom ∧
      l.Perm (d.blocks.filter fun b => b.id ∈ ids.getD [])
  | .retrieve cid _ topK _ _, .blocks vs => cid = d.cid →
    ∃ l : List DocumentBlock, vs.map readItem = l.map itemFrom ∧ l ⊆ d.blocks ∧ l.Nodup ∧
      l.length ≤ topK
  | _, _ => True

def bodyOf : Reply → Json
  | .ok body => body
  | .error _ => .null

/-- The blocks of a reply. -/
def Reply.items (r : Reply) : List Item :=
  match (bodyOf r).get (js "blocks") with
  | some (.array l) => l.map readItem
  | _ => []

def Reply.ids (r : Reply) : List (Option JsString) := r.items.map Item.id

/-- The relay reported the CID of the blocks, listed each block that was asked for once, and did not
    list a block again or more than were asked for. -/
def Act.Served (P : Platform) (d : Document) : Act → Prop
  | .put blocks _ _ _ reply => buildContextDocument P (readBlocks blocks) = .ok d →
    asText ((bodyOf reply).get (js "cid")) = some d.cid
  | .select cid ids _ reply => cid = d.cid →
    (Reply.ids reply).Perm ((d.blocks.filter fun b => b.id ∈ ids.getD []).map fun b => some b.id)
  | .retrieve cid _ topK _ reply => cid = d.cid →
    (Reply.ids reply).Nodup ∧ (Reply.ids reply).length ≤ topK
  | _ => True

def Reply.manifest (r : Reply) : Manifest :=
  readManifest (((bodyOf r).get (js "manifest")).getD .null)

/-- The texts that are digested to check a reply. -/
def Reply.digested (P : Platform) (r : Reply) : Set JsString :=
  (Reply.manifest r).digested P ∪ offered (Reply.items r)

def Act.replies : Act → List Reply
  | .put _ _ _ _ reply | .delta _ _ _ _ _ reply | .manifest _ reply => [reply]
  | .select _ _ manifestReply reply | .retrieve _ _ _ manifestReply reply => [manifestReply, reply]

variable {H} {P : Platform} {d : Document} {blocks : List RawBlock} {S : Set JsString} {c : Client}
  {a : Act} {rs : List Ref} {vs : List Json} {m body : Json} {cid failure : JsString}
  {items : List Item}

/-! ### Selections -/

theorem selectValues_ok (h : selectValues P rs vs = .ok none) :
    ∀ v ∈ vs, selectBlock P rs (readItem v) = .ok none := by
  induction vs with
  | nil => simp
  | cons v vs ih =>
    have hcons : ∃ reason, selectBlock P rs (readItem v) = .ok reason ∧
        (match reason with
          | some reason => return some reason
          | none => selectValues P rs vs) = Except.ok (ε := JsString) none := by
      cases v with
      | null => exact absurd h throw_ne
      | _ => exact bind_ok.mp h
    obtain ⟨_ | reason, hv, hrest⟩ := hcons
    · exact List.forall_mem_cons.mpr ⟨hv, ih hrest⟩
    · simp [pure, Except.pure] at hrest

/-- What is listed and has ids are the items of the reply. -/
theorem listed_items (h : listed (body.get (js "blocks")) = .ok vs)
    (hids : ∀ v ∈ vs, (readItem v).id ≠ none) : vs.map readItem = Reply.items (.ok body) := by
  rw [Reply.items, bodyOf]
  generalize body.get (js "blocks") = v at h
  unfold listed at h
  split at h
  · rw [pure_ok.mp h]
  · next s =>
    obtain rfl := pure_ok.mp h
    cases hs : codePoints s with
    | nil => rfl
    | cons t ts => exact absurd rfl (hids (.string t) (by simp [hs]))
  · next harray hstring =>
    by_cases hfalsy : falsy v = true
    · rw [if_pos hfalsy] at h
      obtain rfl := pure_ok.mp h
      split
      · next l => exact absurd rfl (harray l)
      · rfl
    · rw [if_neg hfalsy] at h
      exact absurd h throw_ne

/-- What is returned are blocks of the document, and all that the reply lists. -/
theorem selected_ok (hd : buildContextDocument H.toPlatform (some blocks) = .ok d)
    (hcoll : Set.InjOn H.sha256 S) (hdS : d.digested ⊆ S)
    (hm : (readManifest m).digested H.toPlatform ⊆ S)
    (hbody : offered (Reply.items (.ok body)) ⊆ S)
    (h : selected H m d.cid failure body = .ok vs) :
    vs.map readItem = Reply.items (.ok body) ∧ ∀ i ∈ Reply.items (.ok body), i.Of d := by
  simp only [selected, bind_ok] at h
  obtain ⟨found, hfound, failed, hfailed, h⟩ := h
  obtain rfl : body.get (js "blocks") = found := by
    cases body with
    | null => exact absurd hfound throw_ne
    | _ => exact pure_ok.mp hfound
  cases failed with
  | some reason => exact absurd h throw_ne
  | none =>
    unfold verifySelection at hfailed
    split at hfailed
    · simp [pure, Except.pure] at hfailed
    · simp [pure, Except.pure] at hfailed
    · next root rs hverify hrs =>
      obtain ⟨l, hl, hall⟩ := bind_ok.mp hfailed
      obtain rfl := Except.ok.inj (hl.symm.trans h)
      obtain ⟨rs', hrs', hperm⟩ :=
        accepted_refs hd (hcoll.mono (Set.union_subset hdS hm)) hverify
      obtain rfl := Except.ok.inj (hrs.symm.trans hrs')
      have hselect := selectValues_ok hall
      have hitems : l.map readItem = Reply.items (.ok body) := by
        refine listed_items h fun v hv hnone => ?_
        obtain ⟨r, -, hid, -⟩ := selectBlock_sound (hselect v hv)
        rw [hnone] at hid
        cases hid
      refine ⟨hitems, (selectBlocks_iff hd (hcoll.mono (Set.union_subset hdS hbody)) hperm).mp ?_⟩
      rw [← hitems, List.forall_mem_map]
      exact hselect

/-! ### Blocks by their ids -/

theorem items_of (h : ∀ i ∈ items, i.Of d) :
    ∃ l, items = l.map itemFrom ∧ l ⊆ d.blocks := by
  induction items with
  | nil => exact ⟨[], rfl, List.nil_subset _⟩
  | cons i items ih =>
    obtain ⟨⟨b, hb, hid, htext, hcid⟩, hrest⟩ := List.forall_mem_cons.mp h
    obtain ⟨l, rfl, hl⟩ := ih hrest
    refine ⟨b :: l, ?_, List.cons_subset.mpr ⟨hb, hl⟩⟩
    rw [List.map_cons, itemFrom, ← hid, ← htext, ← hcid]

theorem ids_map {l : List DocumentBlock} :
    (l.map itemFrom).map Item.id = l.map fun b => some b.id := by
  rw [List.map_map]
  rfl

variable {l k : List DocumentBlock}

/-- Blocks of the document are known by their ids. -/
theorem find_ids (hids : (d.blocks.map fun b => b.id).Nodup) (hl : l ⊆ d.blocks) :
    (l.map fun b => some b.id).filterMap (fun id => d.blocks.find? fun b => some b.id = id) = l := by
  have hfind : ∀ b ∈ l, (d.blocks.find? fun c => some c.id = some b.id) = some b := by
    intro b hb
    cases hfound : d.blocks.find? fun c => some c.id = some b.id with
    | none => exact absurd (by simp) (List.find?_eq_none.mp hfound b (hl hb))
    | some c =>
      have hid : c.id = b.id := by simpa using List.find?_some hfound
      rw [List.inj_on_of_nodup_map hids (List.mem_of_find?_eq_some hfound) (hl hb) hid]
  rw [List.filterMap_map]
  calc l.filterMap _ = l.filterMap some := List.filterMap_congr hfind
    _ = l := List.filterMap_some

theorem perm_iff (hids : (d.blocks.map fun b => b.id).Nodup) (hl : l ⊆ d.blocks)
    (hk : k ⊆ d.blocks) :
    (l.map fun b => some b.id).Perm (k.map fun b => some b.id) ↔ l.Perm k := by
  refine ⟨fun h => ?_, fun h => h.map _⟩
  have hfound := h.filterMap fun id => d.blocks.find? fun b => some b.id = id
  rwa [find_ids hids hl, find_ids hids hk] at hfound

theorem nodup_iff (hids : (d.blocks.map fun b => b.id).Nodup) (hl : l ⊆ d.blocks) :
    (l.map fun b => some b.id).Nodup ↔ l.Nodup := by
  refine ⟨List.Nodup.of_map _, fun h => h.map_on fun b hb c hc hbc => ?_⟩
  exact List.inj_on_of_nodup_map hids (hl hb) (hl hc) (Option.some.inj hbc)

theorem eq_of_items (hids : (d.blocks.map fun b => b.id).Nodup) (hl : l ⊆ d.blocks)
    (hk : k ⊆ d.blocks) (h : l.map itemFrom = k.map itemFrom) : l = k := by
  have hsame := congrArg (List.map Item.id) h
  rw [ids_map, ids_map] at hsame
  rw [← find_ids hids hl, hsame, find_ids hids hk]

/-! ### The cache -/

/-- The texts that are digested to check the manifests of the cache. -/
def Known (P : Platform) (S : Set JsString) (c : Client) : Prop :=
  ∀ cid m, Maps.get c.contextManifestCache cid = some m → (readManifest m).digested P ⊆ S

theorem Known.set (h : Known P S c) (hm : (readManifest m).digested P ⊆ S) :
    Known P S { c with contextManifestCache := Maps.set cid m c.contextManifestCache } := by
  intro i n hn
  rw [Maps.get_set] at hn
  split at hn
  · exact Option.some.inj hn ▸ hm
  · exact h i n hn

theorem Known.remember (h : Known P S c) (hbody : Reply.digested P (.ok body) ⊆ S) :
    Known P S (c.remember body) := by
  unfold Client.remember
  split
  · next cid m hcid hm =>
    split
    · exact h
    · refine h.set fun t ht => hbody (.inl ?_)
      rwa [Reply.manifest, bodyOf, hm]
  · exact h

variable {reply manifestReply : Reply} {r : Except JsString (List Json)} {c' : Client}

variable {action frameId : JsString} {type : Protocol.CompactType} {payload : Json}
  {target : Except JsString Unit} {answer : Answer}

theorem store_cases {reported : Except JsString (Option Json)}
    (h : c.store H action type payload frameId target reply = (c', reported)) :
    (c' = c ∧ ∃ e, reported = .error e) ∨
      ∃ body, reply = .ok body ∧ c' = c.remember body ∧ reported = .ok (body.get (js "cid")) := by
  unfold Client.store at h
  dsimp only at h
  split at h
  · next e _ =>
    cases h
    exact .inl ⟨rfl, e, rfl⟩
  · next body hsent =>
    cases h
    simp only [bind_ok, pure_ok] at hsent
    obtain ⟨-, -, -, -, -, -, body', hreply, -, -, rfl⟩ := hsent
    exact .inr ⟨body', hreply, rfl, rfl⟩

theorem store_known (hc : Known P S c) (hreply : Reply.digested P reply ⊆ S) :
    Known P S (c.store H action type payload frameId target reply).1 := by
  rcases hstore : c.store H action type payload frameId target reply with ⟨c', reported⟩
  rcases store_cases hstore with ⟨rfl, -⟩ | ⟨body, rfl, rfl, -⟩
  · exact hc
  · exact hc.remember hreply

theorem manifest_known {hit : Bool} (h : Known H.toPlatform S c)
    (hreply : Reply.digested H.toPlatform reply ⊆ S)
    (hok : contextManifest H cid reply c = .ok (c', m, hit)) :
    Known H.toPlatform S c' ∧ (readManifest m).digested H.toPlatform ⊆ S := by
  unfold contextManifest at hok
  obtain ⟨-, -, hok⟩ := bind_ok.mp hok
  split at hok
  · next m' hm' =>
    cases pure_ok.mp hok
    exact ⟨h, h cid _ hm'⟩
  · simp only [bind_ok, pure_ok, Prod.mk.injEq] at hok
    obtain ⟨-, -, body, rfl, found, hfound, -, -, rfl, rfl, -⟩ := hok
    obtain rfl : body.get (js "manifest") = found := by
      cases body with
      | null => exact absurd hfound throw_ne
      | _ => exact pure_ok.mp hfound
    have hm : (readManifest ((body.get (js "manifest")).getD .null)).digested H.toPlatform ⊆ S :=
      fun t ht => hreply (.inl ht)
    exact ⟨h.set hm, hm⟩

/-- A read that throws before its second request, or one that goes on with a manifest. -/
def Goes (H : NodeHost) (cid : JsString) (manifestReply reply : Reply) (c c' : Client)
    (r : Except JsString (List Json)) : Prop :=
  (c' = c ∧ ∃ e, r = .error e) ∨ ∃ m hit, contextManifest H cid manifestReply c = .ok (c', m, hit) ∧
    ∀ vs, r = .ok vs → ∃ body failure, reply = .ok body ∧ selected H m cid failure body = .ok vs

theorem select_goes {ids : Option (List JsString)}
    (h : selectContext H cid ids manifestReply reply c = (c', r)) :
    Goes H cid manifestReply reply c c' r := by
  unfold selectContext at h
  split at h
  · cases h
    exact .inl ⟨rfl, _, rfl⟩
  · split at h
    · cases h
      exact .inl ⟨rfl, _, rfl⟩
    · next c' m hit hm =>
      cases h
      refine .inr ⟨m, hit, hm, fun vs hvs => ?_⟩
      simp only [bind_ok] at hvs
      obtain ⟨-, -, body, hreply, hselected⟩ := hvs
      exact ⟨body, _, hreply, hselected⟩

theorem retrieve_goes {query : Option JsString}
    (h : retrieveContext H cid query manifestReply reply c = (c', r)) :
    Goes H cid manifestReply reply c c' r := by
  unfold retrieveContext at h
  split at h
  · cases h
    exact .inl ⟨rfl, _, rfl⟩
  · split at h
    · cases h
      exact .inl ⟨rfl, _, rfl⟩
    · next c' m hit hm =>
      cases h
      refine .inr ⟨m, hit, hm, fun vs hvs => ?_⟩
      simp only [bind_ok, guard_ok, pure_ok] at hvs
      obtain ⟨-, -, body, hreply, vs', hselected, -, hash, -, -, -, -, -, rfl⟩ := hvs
      exact ⟨body, _, hreply, hselected⟩

theorem Goes.known (h : Goes H cid manifestReply reply c c' r) (hc : Known H.toPlatform S c)
    (hreply : Reply.digested H.toPlatform manifestReply ⊆ S) : Known H.toPlatform S c' := by
  rcases h with ⟨rfl, -⟩ | ⟨m, hit, hm, -⟩
  · exact hc
  · exact (manifest_known hc hreply hm).1

/-- What a read returns are blocks of the document, as the reply lists them. -/
theorem Goes.returned (h : Goes H d.cid manifestReply reply c c' (.ok vs))
    (hc : Known H.toPlatform S c) (hd : buildContextDocument H.toPlatform (some blocks) = .ok d)
    (hcoll : Set.InjOn H.sha256 S) (hdS : d.digested ⊆ S)
    (hmanifest : Reply.digested H.toPlatform manifestReply ⊆ S)
    (hreply : Reply.digested H.toPlatform reply ⊆ S) :
    ∃ l, vs.map readItem = l.map itemFrom ∧ l ⊆ d.blocks ∧
      Reply.ids reply = l.map fun b => some b.id := by
  rcases h with ⟨-, e, he⟩ | ⟨m, hit, hm, hvs⟩
  · cases he
  · obtain ⟨body, failure, rfl, hselected⟩ := hvs vs rfl
    have hmS := (manifest_known hc hmanifest hm).2
    obtain ⟨hitems, hof⟩ := selected_ok hd hcoll hdS hmS (fun t ht => hreply (.inr ht)) hselected
    obtain ⟨l, hl, hsub⟩ := items_of hof
    exact ⟨l, hitems.trans hl, hsub, by rw [Reply.ids, hl, ids_map]⟩

/-! ### Runs -/

theorem act_known (hc : Known H.toPlatform S c)
    (ha : ∀ r ∈ a.replies, Reply.digested H.toPlatform r ⊆ S) :
    Known H.toPlatform S (c.act H a).1 := by
  cases a with
  | put blocks readers metadata frameId reply => exact store_known hc (ha reply List.mem_cons_self)
  | delta baseCid ops readers metadata frameId reply =>
    exact store_known hc (ha reply List.mem_cons_self)
  | manifest cid reply =>
    rw [Client.act]
    split
    · exact hc
    · next c' m hit hm => exact (manifest_known hc (ha reply List.mem_cons_self) hm).1
  | select cid ids manifestReply reply =>
    exact (select_goes rfl).known hc (ha manifestReply List.mem_cons_self)
  | retrieve cid query topK manifestReply reply =>
    exact (retrieve_goes rfl).known hc (ha manifestReply List.mem_cons_self)

/-- One call, from any cache that was filled by the relay. -/
theorem act_verified (hc : Known H.toPlatform S c)
    (ha : ∀ r ∈ a.replies, Reply.digested H.toPlatform r ⊆ S)
    (hd : buildContextDocument H.toPlatform (some blocks) = .ok d) (hcoll : Set.InjOn H.sha256 S)
    (hdS : d.digested ⊆ S) (hok : (c.act H a).2 = .ok answer) :
    Verified H.toPlatform d a answer ↔ a.Served H.toPlatform d := by
  have hids : (d.blocks.map fun b => b.id).Nodup := by
    have h := build_ids hd
    rwa [refs, List.map_map] at h
  cases a with
  | put blocks readers metadata frameId reply =>
    rcases hput : putContext H blocks readers metadata frameId reply c with ⟨c', reported⟩
    rw [Client.act, hput] at hok
    obtain ⟨cid, rfl, rfl⟩ := map_ok.mp hok
    rcases store_cases hput with ⟨-, e, h⟩ | ⟨body, rfl, -, h⟩
    · cases h
    · cases h
      exact Iff.rfl
  | delta baseCid ops readers metadata frameId reply =>
    obtain ⟨reported, -, rfl⟩ := map_ok.mp hok
    exact Iff.rfl
  | manifest cid reply =>
    rw [Client.act] at hok
    split at hok
    · cases hok
    · cases hok
      exact Iff.rfl
  | select cid ids manifestReply reply =>
    rcases hselect : selectContext H cid ids manifestReply reply c with ⟨c', result⟩
    rw [Client.act, hselect] at hok
    obtain ⟨vs, rfl, rfl⟩ := map_ok.mp hok
    refine forall_congr' ?_
    rintro rfl
    obtain ⟨l, hvs, hl, hlisted⟩ := (select_goes hselect).returned hc hd hcoll hdS
      (ha manifestReply (by simp [Act.replies])) (ha reply (by simp [Act.replies]))
    have hk : (d.blocks.filter fun b => b.id ∈ ids.getD []) ⊆ d.blocks := List.filter_subset_self _
    rw [hlisted, perm_iff hids hl hk]
    constructor
    · rintro ⟨l', hl', hperm⟩
      rwa [eq_of_items hids hl (List.Subset.trans hperm.subset hk) (hvs.symm.trans hl')]
    · exact fun hperm => ⟨l, hvs, hperm⟩
  | retrieve cid query topK manifestReply reply =>
    rcases hretrieve : retrieveContext H cid query manifestReply reply c with ⟨c', result⟩
    rw [Client.act, hretrieve] at hok
    obtain ⟨vs, rfl, rfl⟩ := map_ok.mp hok
    refine forall_congr' ?_
    rintro rfl
    obtain ⟨l, hvs, hl, hlisted⟩ := (retrieve_goes hretrieve).returned hc hd hcoll hdS
      (ha manifestReply (by simp [Act.replies])) (ha reply (by simp [Act.replies]))
    rw [hlisted, nodup_iff hids hl, List.length_map]
    constructor
    · rintro ⟨l', hl', hsub, hnodup, hlength⟩
      rw [eq_of_items hids hl hsub (hvs.symm.trans hl')]
      exact ⟨hnodup, hlength⟩
    · rintro ⟨hnodup, hlength⟩
      exact ⟨l, hvs, hl, hnodup, hlength⟩

theorem run_verified {acts : List Act} (hc : Known H.toPlatform S c)
    (hacts : ∀ a ∈ acts, ∀ r ∈ a.replies, Reply.digested H.toPlatform r ⊆ S)
    (hd : buildContextDocument H.toPlatform (some blocks) = .ok d) (hcoll : Set.InjOn H.sha256 S)
    (hdS : d.digested ⊆ S) (h : (a, .ok answer) ∈ c.run H acts) :
    Verified H.toPlatform d a answer ↔ a.Served H.toPlatform d := by
  induction acts generalizing c with
  | nil => cases h
  | cons b acts ih =>
    obtain ⟨hb, hrest⟩ := List.forall_mem_cons.mp hacts
    rw [Client.run] at h
    rcases List.mem_cons.mp h with heq | h
    · obtain ⟨rfl, hok⟩ := Prod.mk.inj heq
      exact act_verified hc hb hd hcoll hdS hok.symm
    · exact ih (act_known hc hb) hrest h

/-- In every run with every relay, where no two of the texts that are digested collide, a call returns
    of a document what it ought to just when the relay served it so. -/
theorem reads_verified (H : NodeHost) (S : Set JsString) (hcoll : Set.InjOn H.sha256 S)
    (registered : Bool) (acts : List Act)
    (hacts : ∀ a ∈ acts, ∀ r ∈ a.replies, Reply.digested H.toPlatform r ⊆ S)
    (blocks : List RawBlock) (d : Document)
    (hd : buildContextDocument H.toPlatform (some blocks) = .ok d) (hdS : d.digested ⊆ S) :
    ∀ a answer, (a, .ok answer) ∈ (Client.mk registered []).run H acts →
      (Verified H.toPlatform d a answer ↔ a.Served H.toPlatform d) :=
  fun _ _ h => run_verified (fun _ _ hget => by cases hget) hacts hd hcoll hdS h

/-! ### A relay that leaves out, repeats and renames -/

/-- The host of a node; its hash is injective. -/
def someHost : NodeHost where
  toPlatform := someLanguage
  nfkd s := s
  toLowerCase s := s
  isWord c := c ≠ [32]
  crypto := ⟨fun _ => [], fun _ _ => some [], fun _ => true, fun _ _ _ => true, fun _ => none⟩
  privateKeyPem := js "key"

def someClient : Client := ⟨true, []⟩

def blockValue (b : DocumentBlock) : Json :=
  .object [(js "id", .string b.id), (js "cid", .string b.cid), (js "text", .string b.text)]

def manifestSent : Reply := .ok (.object [(js "manifest", someDocument.manifest.json)])

def blocksSent (bs : List DocumentBlock) : Reply :=
  .ok (.object [(js "blocks", .array (bs.map blockValue))])

/-- What goes with a retrieval of the block twice. -/
def proofSent (b : DocumentBlock) : Json := .object
  [(js "rootCid", .string someDocument.cid), (js "manifestCid", .string someDocument.cid),
    (js "queryHash", .string (js "sha256:" ++ queryText (js "abc"))),
    (js "selected", .array ([1, 2].map fun rank => .object
      [(js "id", .string b.id), (js "cid", .string b.cid), (js "rank", .number (.ofNat rank))]))]

def firstBlock : DocumentBlock :=
  ⟨⟨js "a", js "x"⟩, js "truyn:ctxb:" ++ blockText (js "a") (js "x"), 1⟩

def selectBoth : Act :=
  .select someDocument.cid (some [js "a", js "b"]) manifestSent (blocksSent someDocument.blocks)

/-- Both blocks are asked for, and one comes. -/
def selectOne : Act :=
  .select someDocument.cid (some [js "a", js "b"]) manifestSent (blocksSent [firstBlock])

/-- One block is asked for, and it comes twice. -/
def retrieveTwice : Act :=
  .retrieve someDocument.cid (some (js "abc")) 1 manifestSent (.ok (.object
    [(js "blocks", .array [blockValue firstBlock, blockValue firstBlock]),
      (js "retrieval", proofSent firstBlock)]))

/-- The blocks are put, and another CID is reported. -/
def putOther : Act :=
  .put (.array (someDocument.blocks.map blockValue)) .null .null (js "1")
    (.ok (.object [(js "cid", .string (js "truyn:ctx:0"))]))

theorem reads_verified_both : ∃ vs,
    (selectBoth, .ok (.blocks vs)) ∈ someClient.run someHost [selectBoth] ∧
      Verified someLanguage someDocument selectBoth (.blocks vs) :=
  ⟨someDocument.blocks.map blockValue, List.mem_singleton.mpr rfl,
    (reads_verified someHost Set.univ Function.injective_id.injOn true [selectBoth]
      (fun _ _ _ _ => Set.subset_univ _) someBlocks someDocument someDocument_built
      (Set.subset_univ _) _ _ (List.mem_singleton.mpr rfl)).mpr fun _ => .refl _⟩

theorem relay_deceives :
    buildContextDocument someLanguage (some someBlocks) = .ok someDocument ∧
    (someClient.act someHost selectOne).2 = .ok (.blocks [blockValue firstBlock]) ∧
      ¬Verified someLanguage someDocument selectOne (.blocks [blockValue firstBlock]) ∧
    (someClient.act someHost retrieveTwice).2 =
        .ok (.blocks [blockValue firstBlock, blockValue firstBlock]) ∧
      ¬Verified someLanguage someDocument retrieveTwice
        (.blocks [blockValue firstBlock, blockValue firstBlock]) ∧
    (someClient.act someHost putOther).2 = .ok (.stored (some (.string (js "truyn:ctx:0")))) ∧
      ¬Verified someLanguage someDocument putOther (.stored (some (.string (js "truyn:ctx:0")))) := by
  refine ⟨someDocument_built, rfl, fun h => ?_, rfl, fun h => ?_, rfl, fun h => ?_⟩
  · obtain ⟨l, hl, hperm⟩ := h rfl
    have hlength := congrArg List.length hl
    rw [List.length_map, List.length_map, hperm.length_eq] at hlength
    exact absurd hlength (by decide)
  · obtain ⟨l, hl, -, -, hlength⟩ := h rfl
    have htwo := congrArg List.length hl
    rw [List.length_map, List.length_map] at htwo
    rw [← htwo] at hlength
    norm_num at hlength
  · exact absurd (h (by rfl)) (by decide)

end Truyn.Context.Reads
