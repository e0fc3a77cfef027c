import Truyn.Dht.RecordStore
import Truyn.Schemes.Checks

/-! dht:isolation | what a record of one namespace and key does to those of the others

    Slot and placement are made of the text `namespace:key`, which two pairs may share. `Isolated` is
    what a record must leave as it is; `Apart` that its pair shares its text with no other. -/

namespace Truyn.Dht
open Checks
open Trust (Value truthy strictEq)

variable (P : Platform)

def Of (nameSpace key record : Value) : Prop :=
  record.get "namespace" = some nameSpace ∧ record.get "key" = some key

def SamePair (a b : Value) : Prop :=
  a.get "namespace" = b.get "namespace" ∧ a.get "key" = b.get "key"

/-- What `verifyDhtRecord` says with these signatures remembered. -/
def Verifies (verified : List JsString) (record : Value) (now : ℤ) (allowExpired : Bool) : Prop :=
  (verifyDhtRecord P verified record now allowExpired).2 = .ok ()

/-- No slot and no placement of another pair, and no change to what `get` gives of one. -/
structure Isolated (l : Log) (record : Value) (now : ℤ) (allowExpired : Bool) : Prop where
  slot : ∀ a ∈ l.accepted, ¬SamePair a record → keyOf P a ≠ keyOf P record
  placement : ∀ a ∈ l.accepted, ¬SamePair a record → a.get "keyHash" ≠ record.get "keyHash"
  frame : ∀ nameSpace key time, ¬Of nameSpace key record →
    ((l.store.put P record now allowExpired).1.get P nameSpace key time).2 =
      (l.store.get P nameSpace key time).2

def Isolates (l : Log) : Store.Turn → Prop
  | .put record now allowExpired =>
    Verifies P l.store.signatures record now allowExpired → Isolated P l record now allowExpired
  | _ => True

/-- A record that is put verifies also where no signature is remembered. -/
def Genuine (l : Log) : Store.Turn → Prop
  | .put record now allowExpired => Verifies P l.store.signatures record now allowExpired →
      Verifies P [] record now allowExpired
  | _ => True

/-- No record of another pair with the same text was accepted before. -/
def Apart (l : Log) : Store.Turn → Prop
  | .put record now allowExpired => Verifies P l.store.signatures record now allowExpired →
      ∀ a ∈ l.accepted, ¬SamePair a record → namespaceKey P a ≠ namespaceKey P record
  | _ => True

/-- A node id is `truyn:node:` and a SHA-256 digest in hexadecimal. -/
def NodeIds : Prop :=
  ∀ key nodeId, P.nodeIdFromPublicKey key = .ok nodeId →
    ∃ digest : JsString, nodeId = js "truyn:node:" ++ digest ∧ digest.length = 64

/-- The texts of the records that are put. -/
def texts (turns : List Store.Turn) : Set JsString :=
  {text | ∃ record now allowExpired, .put record now allowExpired ∈ turns ∧
    namespaceKey P record = .ok text}

variable {P} {s : Store} {l : Log} {record : Value} {now : ℤ} {allowExpired : Bool}
  {verified : List JsString}

/-! ### A record that verifies -/

/-- The slot and the placement of a record, as its text and its publisher give them. -/
structure Located (P : Platform) (record : Value) (text nodeId : JsString) : Prop where
  named : namespaceKey P record = .ok text
  hashed : record.get "keyHash" = some (.string (dhtId P text))
  published : record.get "publisherNodeId" = some (.string nodeId)
  key : ∃ publicKey, P.nodeIdFromPublicKey publicKey = .ok nodeId

theorem Located.keyOf {text nodeId : JsString} (h : Located P record text nodeId) :
    keyOf P record = text ++ js ":" ++ nodeId := by
  rw [Dht.keyOf, h.named, publisherOf, h.published]

theorem verifySignature_again {signed : Value} {reason : String} {w : List JsString}
    (h : verifySignature P [] record signed reason = .ok w) (verified : List JsString) :
    ∃ w, verifySignature P verified record signed reason = .ok w := by
  unfold verifySignature at h ⊢
  obtain ⟨recordId, hid, h⟩ := bind_ok.mp h
  obtain ⟨publicKey, hkey, h⟩ := bind_ok.mp h
  obtain ⟨signature, hsignature, h⟩ := bind_ok.mp h
  simp only [List.not_mem_nil, if_false] at h
  obtain ⟨valid, hvalid, h⟩ := bind_ok.mp h
  obtain ⟨hyes, -⟩ := guard_ok.mp h
  rw [hid, hkey, hsignature]
  by_cases hmem : recordId ++ js "\n" ++ publicKey ++ js "\n" ++ signature ∈ verified
  · exact ⟨verified, if_pos hmem⟩
  · exact ⟨_, (if_neg hmem).trans (bind_ok.mpr ⟨valid, hvalid, guard_ok.mpr ⟨hyes, rfl⟩⟩)⟩

/-- A record that passes is located, and passes with all signatures that it verifies with. -/
theorem check_located {w : List JsString} (h : checkDhtRecord P verified record = .ok w) :
    (∃ text nodeId, Located P record text nodeId) ∧
      (verified = [] → ∀ known, ∃ w, checkDhtRecord P known record = .ok w) := by
  unfold checkDhtRecord at h ⊢
  obtain ⟨hmissing, h⟩ := guard_ok.mp h
  obtain ⟨nodeId, hnode, h⟩ := bind_ok.mp h
  obtain ⟨hpublisher, h⟩ := guard_ok.mp h
  obtain ⟨text, htext, h⟩ := bind_ok.mp h
  obtain ⟨hhash, h⟩ := guard_ok.mp h
  obtain ⟨value, hvalue, h⟩ := bind_ok.mp h
  obtain ⟨hdigest, h⟩ := guard_ok.mp h
  obtain ⟨digest, hbody, h⟩ := bind_ok.mp h
  obtain ⟨hid, h⟩ := guard_ok.mp h
  refine ⟨⟨text, nodeId, htext, ?_, ?_, _, hnode⟩, fun hnone known => ?_⟩
  · exact eq_of_strictEq (by simpa using hhash)
  · exact (eq_of_strictEq (by simpa using hpublisher)).symm
  · subst hnone
    obtain ⟨w, hw⟩ := verifySignature_again h known
    exact ⟨w, guard_ok.mpr ⟨hmissing, bind_ok.mpr ⟨nodeId, hnode, guard_ok.mpr ⟨hpublisher,
      bind_ok.mpr ⟨text, htext, guard_ok.mpr ⟨hhash, bind_ok.mpr ⟨value, hvalue, guard_ok.mpr
        ⟨hdigest, bind_ok.mpr ⟨digest, hbody, guard_ok.mpr ⟨hid, hw⟩⟩⟩⟩⟩⟩⟩⟩⟩⟩

/-- Only the times decide, whatever signatures are remembered. -/
def Sure (P : Platform) (record : Value) : Prop :=
  ∀ verified now allowExpired, (verifyDhtRecord P verified record now allowExpired).2 =
    checkDhtTimes P record now allowExpired

theorem located_of_verifies (h : Verifies P verified record now allowExpired) :
    ∃ text nodeId, Located P record text nodeId := by
  unfold Verifies verifyDhtRecord at h
  cases hcheck : checkDhtRecord P verified record with
  | error reason => simp [hcheck] at h
  | ok w => exact (check_located hcheck).1

theorem sure_of_verifies (h : Verifies P [] record now allowExpired) : Sure P record := by
  intro known time expired
  unfold Verifies verifyDhtRecord at h
  cases hcheck : checkDhtRecord P [] record with
  | error reason => simp [hcheck] at h
  | ok w =>
    obtain ⟨w', hw⟩ := (check_located hcheck).2 rfl known
    rw [verifyDhtRecord, hw]

/-- Equal slots have equal texts: all node ids are of one length. -/
theorem text_of_keyOf (hids : NodeIds P) {a b : Value} {text text' nodeId nodeId' : JsString}
    (ha : Located P a text nodeId) (hb : Located P b text' nodeId') (h : keyOf P a = keyOf P b) :
    text = text' := by
  obtain ⟨key, hkey⟩ := ha.key
  obtain ⟨key', hkey'⟩ := hb.key
  obtain ⟨digest, rfl, hlength⟩ := hids key nodeId hkey
  obtain ⟨digest', rfl, hlength'⟩ := hids key' nodeId' hkey'
  rw [ha.keyOf, hb.keyOf, List.append_assoc, List.append_assoc] at h
  exact (List.append_inj' h (by simp [hlength, hlength'])).1

/-! ### What `get` gives -/

theorem verifying_sure {records : List (JsString × Value)} (h : ∀ r ∈ records, Sure P r.2) :
    (verifying P now verified records).2 =
      records.filter fun r => (checkDhtTimes P r.2 now false).toBool := by
  induction records generalizing verified with
  | nil => rfl
  | cons r records ih =>
    have hr := h r List.mem_cons_self verified now false
    have hrest : ∀ known, (verifying P now known records).2 =
        records.filter fun r => (checkDhtTimes P r.2 now false).toBool := fun _ =>
      ih fun q hq => h q (List.mem_cons_of_mem _ hq)
    rw [verifying]
    generalize verifyDhtRecord P verified r.2 now false = result at hr
    obtain ⟨signatures, verdict⟩ := result
    obtain rfl : verdict = checkDhtTimes P r.2 now false := hr
    cases hverdict : checkDhtTimes P r.2 now false with
    | error reason => simp [hrest, hverdict, Except.toBool]
    | ok => simp [hrest, hverdict, Except.toBool]

/-- Stores with the same records of a pair give the same for it, whatever signatures they remember. -/
theorem get_congr {t : Store} {nameSpace key : Value} {time : ℤ}
    (hs : ∀ r ∈ s.records, Sure P r.2) (ht : ∀ r ∈ t.records, Sure P r.2)
    (h : (t.records.filter fun r => strictEq (r.2.get "namespace") (some nameSpace) &&
        strictEq (r.2.get "key") (some key)) =
      s.records.filter fun r => strictEq (r.2.get "namespace") (some nameSpace) &&
        strictEq (r.2.get "key") (some key)) :
    (t.get P nameSpace key time).2 = (s.get P nameSpace key time).2 := by
  simp only [Store.get]
  rw [verifying_sure fun r hr => hs r (List.mem_of_mem_filter hr),
    verifying_sure fun r hr => ht r (List.mem_of_mem_filter hr), h]

/-! ### Logs -/

/-- The accepted records verify with any signatures, and their texts are in `T`; each of the store's is
    in its own slot. -/
structure Sound (P : Platform) (T : Set JsString) (l : Log) : Prop where
  keyed : ∀ r ∈ l.store.records, keyOf P r.2 = r.1
  held : ∀ r ∈ l.store.records, r.2 ∈ l.accepted
  sure : ∀ a ∈ l.accepted, Sure P a
  located : ∀ a ∈ l.accepted, ∃ text ∈ T, ∃ nodeId, Located P a text nodeId

/-- The text of the record that is put is in `T`. -/
def Within (P : Platform) (T : Set JsString) : Store.Turn → Prop
  | .put record _ _ => ∀ text, namespaceKey P record = .ok text → text ∈ T
  | _ => True

variable {T : Set JsString} {t : Store.Turn}

theorem Sound.fewer {m : Log} (h : Sound P T l) (hsub : m.store.records.Sublist l.store.records)
    (haccepted : m.accepted = l.accepted) : Sound P T m where
  keyed := fun r hr => h.keyed r (hsub.subset hr)
  held := fun r hr => haccepted ▸ h.held r (hsub.subset hr)
  sure := fun a ha => h.sure a (haccepted ▸ ha)
  located := fun a ha => h.located a (haccepted ▸ ha)

theorem Sound.turn (h : Sound P T l) (hgenuine : Genuine P l t) (hin : Within P T t) :
    Sound P T (l.turn P t) := by
  cases t with
  | sweep now => exact h.fewer verifying_sublist rfl
  | verify record now allowExpired => exact h.fewer (List.Sublist.refl _) rfl
  | get nameSpace key now => exact h.fewer (List.Sublist.refl _) rfl
  | put record now allowExpired =>
    rcases put_cases (P := P) (s := l.store) record now allowExpired with ⟨hno, hrecords⟩ |
      ⟨hok, hverified, hrecords, -⟩
    · refine h.fewer ?_ (by simp [Log.turn, hno])
      rw [Log.turn, Store.turn, hrecords]
    · have haccepted : (l.turn P (.put record now allowExpired)).accepted =
          record :: l.accepted := by simp [Log.turn, hok]
      have hstore : (l.turn P (.put record now allowExpired)).store.records =
          Maps.set (keyOf P record) record l.store.records := hrecords
      obtain ⟨text, nodeId, hlocated⟩ := located_of_verifies hverified
      constructor
      · rw [hstore]
        intro r hr
        rcases Maps.mem_set hr with rfl | hr
        · rfl
        · exact h.keyed r hr
      · rw [hstore, haccepted]
        intro r hr
        rcases Maps.mem_set hr with rfl | hr
        · exact List.mem_cons_self
        · exact List.mem_cons_of_mem _ (h.held r hr)
      · rw [haccepted]
        intro a ha
        rcases List.mem_cons.mp ha with rfl | ha
        · exact sure_of_verifies (hgenuine hverified)
        · exact h.sure a ha
      · rw [haccepted]
        intro a ha
        rcases List.mem_cons.mp ha with rfl | ha
        · exact ⟨text, hin text hlocated.named, nodeId, hlocated⟩
        · exact h.located a ha

/-- A record of another text has another slot and another placement. -/
theorem Sound.apart (h : Sound P T l) (hids : NodeIds P) (hhash : Set.InjOn (dhtId P) T) {a : Value}
    {text nodeId : JsString} (ha : a ∈ l.accepted) (hrecord : Located P record text nodeId)
    (htext : text ∈ T) (hne : namespaceKey P a ≠ namespaceKey P record) :
    keyOf P a ≠ keyOf P record ∧ a.get "keyHash" ≠ record.get "keyHash" := by
  obtain ⟨text', htext', nodeId', hlocated⟩ := h.located a ha
  rw [hlocated.named, hrecord.named] at hne
  have hdiffer : text' ≠ text := fun heq => hne (by rw [heq])
  refine ⟨fun hkey => hdiffer (text_of_keyOf hids hlocated hrecord hkey), fun hplace => ?_⟩
  rw [hlocated.hashed, hrecord.hashed] at hplace
  have hsame : dhtId P text' = dhtId P text := by simpa using hplace
  exact hdiffer (hhash htext' htext hsame)

/-- A record that is put where no record of another pair is leaves the other pairs as they are. -/
theorem Sound.frame (h : Sound P T l) (hsure : Sure P record)
    (hslot : ∀ a ∈ l.accepted, ¬SamePair a record → keyOf P a ≠ keyOf P record)
    (nameSpace key : Value) (time : ℤ) (hother : ¬Of nameSpace key record) :
    ((l.store.put P record now allowExpired).1.get P nameSpace key time).2 =
      (l.store.get P nameSpace key time).2 := by
  have hstore : ∀ r ∈ l.store.records, Sure P r.2 := fun r hr => h.sure r.2 (h.held r hr)
  have hasked : ∀ v : Value, (strictEq (v.get "namespace") (some nameSpace) &&
      strictEq (v.get "key") (some key)) = true → Of nameSpace key v := by
    intro v hv
    obtain ⟨hname, hkey⟩ := (Bool.and_eq_true _ _).mp hv
    exact ⟨eq_of_strictEq hname, eq_of_strictEq hkey⟩
  rcases put_cases (P := P) (s := l.store) record now allowExpired with ⟨-, hrecords⟩ |
    ⟨-, -, hrecords, -⟩
  · exact get_congr hstore (fun r hr => hstore r (hrecords ▸ hr)) (by rw [hrecords])
  · refine get_congr hstore (fun r hr => ?_) ?_
    · rw [hrecords] at hr
      rcases Maps.mem_set hr with rfl | hr
      · exact hsure
      · exact hstore r hr
    · rw [hrecords]
      refine Maps.filter_set ?_ fun b hb => ?_
      · exact Bool.eq_false_iff.mpr fun hv => hother (hasked record hv)
      · refine Bool.eq_false_iff.mpr fun hv => ?_
        obtain ⟨hname, hkey⟩ := hasked b hv
        have hne : ¬SamePair b record := fun hsame =>
          hother ⟨hsame.1.symm.trans hname, hsame.2.symm.trans hkey⟩
        exact hslot b (h.held _ hb) hne (h.keyed _ hb)

/-- One record is isolated exactly where its text is its pair's alone. -/
theorem Sound.isolates_iff (h : Sound P T l) (hids : NodeIds P) (hhash : Set.InjOn (dhtId P) T)
    (hgenuine : Genuine P l t) (hin : Within P T t) : Isolates P l t ↔ Apart P l t := by
  cases t with
  | put record now allowExpired =>
    constructor
    · intro hisolates hverified a ha hother hsame
      obtain ⟨text, htext, nodeId, hlocated⟩ := h.located a ha
      obtain ⟨text', nodeId', hrecord⟩ := located_of_verifies hverified
      refine (hisolates hverified).placement a ha hother ?_
      rw [hlocated.named, hrecord.named] at hsame
      obtain rfl : text = text' := by simpa using hsame
      rw [hlocated.hashed, hrecord.hashed]
    · intro hapart hverified
      obtain ⟨text, nodeId, hrecord⟩ := located_of_verifies hverified
      have htext := hin text hrecord.named
      have hslot : ∀ a ∈ l.accepted, ¬SamePair a record → keyOf P a ≠ keyOf P record :=
        fun a ha hother => (h.apart hids hhash ha hrecord htext (hapart hverified a ha hother)).1
      exact ⟨hslot,
        fun a ha hother => (h.apart hids hhash ha hrecord htext (hapart hverified a ha hother)).2,
        h.frame (sure_of_verifies (hgenuine hverified)) hslot⟩
  | _ => exact Iff.rfl

/-- In a run of records that verify by themselves, each leaves the other pairs alone exactly where no
    two pairs have one text. -/
theorem keys_isolated (hids : NodeIds P) (calls : List Store.Call)
    (hhash : Set.InjOn (dhtId P) (texts P (storeTurns P .new calls)))
    (hgenuine : Runs.Along (Log.turn P) (Genuine P) .new (storeTurns P .new calls)) :
    Runs.Along (Log.turn P) (Isolates P) .new (storeTurns P .new calls) ↔
      Runs.Along (Log.turn P) (Apart P) .new (storeTurns P .new calls) := by
  generalize storeTurns P .new calls = turns at hhash hgenuine ⊢
  have hnew : Sound P (texts P turns) .new :=
    ⟨fun _ h => (by cases h), fun _ h => (by cases h), fun _ h => (by cases h),
      fun _ h => (by cases h)⟩
  have hwithin : ∀ t ∈ turns, Within P (texts P turns) t := by
    intro t ht
    cases t with
    | put record now allowExpired => exact fun text htext => ⟨record, now, allowExpired, ht, htext⟩
    | _ => trivial
  have hboth := hgenuine.and (Runs.along_of_forall hwithin)
  constructor
  · intro h
    exact (hboth.and h).imp hnew (fun _ _ hs hc => hs.turn hc.1.1 hc.1.2)
      fun _ _ hs hc => (hs.isolates_iff hids hhash hc.1.1 hc.1.2).mp hc.2
  · intro h
    exact (hboth.and h).imp hnew (fun _ _ hs hc => hs.turn hc.1.1 hc.1.2)
      fun _ _ hs hc => (hs.isolates_iff hids hhash hc.1.1 hc.1.2).mpr hc.2

/-! ### Pairs of one text -/

def publisherId : JsString := js "truyn:node:" ++ List.replicate 64 97

/-- One key, of one publisher. -/
def onePublisher : Platform :=
  { plain with
    nodeIdFromPublicKey := fun key =>
      match key with
      | .string pem => if pem = js "A" then .ok publisherId else .error "Invalid key"
      | _ => .error "Invalid key" }

def entry (nameSpace key : String) (sequence : ℕ) : Value :=
  .object [(js "recordId", .string (js "truyn:dht:" ++ numeral sequence ++ js "/90")),
    (js "protocol", .string (js "truyn-kademlia-v1")), (js "namespace", .string (js nameSpace)),
    (js "key", .string (js key)),
    (js "keyHash", .string (js nameSpace ++ js ":" ++ js key)), (js "value", .null),
    (js "valueDigest", .string (js "sha256:")), (js "publisherNodeId", .string publisherId),
    (js "sequence", .number sequence), (js "issuedAt", .string (js "1")),
    (js "expiresAt", .string (js "90")), (js "publicKey", .string (js "A")),
    (js "signature", .string (js "s"))]

/-- The record of `a` and `b:c` replaces that of `a:b` and `c`, which `get` then gives no more. -/
theorem other_pair_replaced :
    ¬SamePair (entry "a:b" "c" 1) (entry "a" "b:c" 2) ∧
    keyOf onePublisher (entry "a:b" "c" 1) = keyOf onePublisher (entry "a" "b:c" 2) ∧
    (entry "a:b" "c" 1).get "keyHash" = (entry "a" "b:c" 2).get "keyHash" ∧
    (∃ s, Store.new.put onePublisher (entry "a:b" "c" 1) 10 false = (s, .accepted) ∧
      (s.get onePublisher (.string (js "a:b")) (.string (js "c")) 11).2 =
        some [entry "a:b" "c" 1] ∧
      ∃ t, s.put onePublisher (entry "a" "b:c" 2) 11 false = (t, .accepted) ∧
        (t.get onePublisher (.string (js "a:b")) (.string (js "c")) 11).2 = some []) ∧
    ¬Runs.Along (Log.turn onePublisher) (Isolates onePublisher) .new
      (storeTurns onePublisher .new
        [.turn (.put (entry "a:b" "c" 1) 10 false), .turn (.put (entry "a" "b:c" 2) 11 false)]) := by
  have hother : ¬SamePair (entry "a:b" "c" 1) (entry "a" "b:c" 2) := by
    rintro ⟨hname, -⟩
    have hstring : js "a:b" = js "a" := Value.string.inj (Option.some.inj hname)
    exact absurd hstring (by decide)
  refine ⟨hother, rfl, rfl, ⟨_, rfl, rfl, _, rfl, rfl⟩, ?_⟩
  rintro ⟨-, hput, -⟩
  exact (hput rfl).slot (entry "a:b" "c" 1) List.mem_cons_self hother rfl

/-- Without a colon the two records stay apart. -/
theorem keys_isolated_two :
    Runs.Along (Log.turn onePublisher) (Isolates onePublisher) .new
      (storeTurns onePublisher .new
        [.turn (.put (entry "a" "b" 1) 10 false), .restore [entry "a" "c" 2] 11 false]) := by
  refine (keys_isolated ?_ _ ?_ ?_).mpr ?_
  · intro key nodeId hnode
    refine ⟨List.replicate 64 97, ?_, rfl⟩
    simp only [onePublisher] at hnode
    split at hnode
    · split at hnode
      · exact (Except.ok.inj hnode).symm
      · cases hnode
    · cases hnode
  · exact fun _ _ _ _ h => h
  · exact ⟨fun _ => rfl, fun _ => rfl, trivial⟩
  · refine ⟨fun _ a ha => (by cases ha), fun _ a ha _ htext => ?_, trivial⟩
    obtain rfl := List.mem_singleton.mp ha
    have hsame : js "a:b" = js "a:c" := Except.ok.inj htext
    exact absurd hsame (by decide)

end Truyn.Dht
