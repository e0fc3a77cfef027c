import Truyn.Dht.Values
import Truyn.Schemes.Along
import Truyn.Schemes.Maps

/-! dht:record-store | the signed records that a node keeps for others

    `put` compares a record with the one under its key, and `sweep` forgets what has expired. A run
    remembers what was accepted and what `get` gave. `Kept` is that no sequence goes back, and
    `Guarded` when a record may be put where the one to compare it with is gone. -/

namespace Truyn.Dht
open Trust (Value truthy strictEq)

variable (P : Platform)

/-- The text `namespace:key` of a record. -/
def namespaceKey (record : Value) : Except String JsString := do
  let nameText ← string P (record.get "namespace")
  let keyText ← string P (record.get "key")
  return nameText ++ js ":" ++ keyText

/-- What is checked before the times of a record. Gives the remembered signatures. -/
def checkDhtRecord (verified : List JsString) (record : Value) : Except String (List JsString) := do
  if !truthy (record.get "recordId") ∨
      !strictEq (record.get "protocol") (some (.string (js "truyn-kademlia-v1"))) ∨
      !truthy (record.get "publicKey") ∨ !truthy (record.get "signature") then
    throw "dht_record_missing"
  let nodeId ← P.nodeIdFromPublicKey ((record.get "publicKey").getD .null)
  if !strictEq (some (.string nodeId)) (record.get "publisherNodeId") then
    throw "dht_publisher_key_mismatch"
  let keyHash ← namespaceKey P record
  if !strictEq (record.get "keyHash") (some (.string (dhtId P keyHash))) then
    throw "dht_key_hash_mismatch"
  let valueDigest ← hash P (record.get "value")
  if !strictEq (some (.string (js "sha256:" ++ valueDigest))) (record.get "valueDigest") then
    throw "dht_value_digest_mismatch"
  let signed := without ["publicKey", "signature"] record
  let digest ← hash P (some (without ["recordId"] signed))
  if !strictEq (record.get "recordId") (some (.string (js "truyn:dht:" ++ digest))) then
    throw "dht_record_id_mismatch"
  verifySignature P verified record signed "dht_record_signature"

def checkDhtTimes (record : Value) (now : ℤ) (allowExpired : Bool) : Except String Unit := do
  let issued ← date P (record.get "issuedAt")
  let expires ← date P (record.get "expiresAt")
  match issued, expires with
  | some issued, some expires =>
    if expires ≤ issued then throw "dht_record_time"
    else if !allowExpired ∧ expires ≤ now then throw "dht_record_expired"
    else pure ()
  | _, _ => throw "dht_record_time"

/-- A signature is remembered also where the times are wrong. -/
def verifyDhtRecord (verified : List JsString) (record : Value) (now : ℤ) (allowExpired : Bool) :
    List JsString × Except String Unit :=
  match checkDhtRecord P verified record with
  | .error reason => (verified, .error reason)
  | .ok verified => (verified, checkDhtTimes P record now allowExpired)

structure Store where
  records : List (JsString × Value)
  /-- The cache of the module. -/
  signatures : List JsString

def Store.new : Store := ⟨[], []⟩

/-- `undefined` only for a record that was not verified. -/
def publisherOf (record : Value) : JsString :=
  match record.get "publisherNodeId" with
  | some (.string nodeId) => nodeId
  | _ => js "undefined"

/-- The key of a record that was verified: an error is not reached. -/
def keyOf (record : Value) : JsString :=
  match namespaceKey P record with
  | .ok text => text ++ js ":" ++ publisherOf record
  | .error _ => []

inductive Put
  | accepted
  | refused (reason : String)
  | threw

variable (s : Store)

def Store.put (record : Value) (now : ℤ) (allowExpired : Bool) : Store × Put :=
  match verifyDhtRecord P s.signatures record now allowExpired with
  | (signatures, .error reason) => ({ s with signatures := signatures }, .refused reason)
  | (signatures, .ok ()) =>
    let s := { s with signatures := signatures }
    let key := keyOf P record
    match Maps.get s.records key with
    | none => ({ s with records := Maps.set key record s.records }, .accepted)
    | some existing =>
      match greater P.toLanguage (existing.get "sequence") (record.get "sequence") with
      | none => (s, .threw)
      | some true => (s, .refused "dht_older_sequence")
      | some false =>
        if strictEq (existing.get "sequence") (record.get "sequence") &&
            !strictEq (existing.get "recordId") (record.get "recordId") then
          (s, .refused "dht_equivocation")
        else ({ s with records := Maps.set key record s.records }, .accepted)

/-- Gives the number of accepted records; `none` is thrown. -/
def Store.restore (now : ℤ) (allowExpired : Bool) : Store → ℕ → List Value → Store × Option ℕ
  | s, accepted, [] => (s, some accepted)
  | s, accepted, record :: records =>
    match s.put P record now allowExpired with
    | (s, .threw) => (s, none)
    | (s, .accepted) => restore now allowExpired s (accepted + 1) records
    | (s, .refused _) => restore now allowExpired s accepted records

/-- The records that verify now, and the signatures that are remembered then. -/
def verifying (now : ℤ) : List JsString → List (JsString × Value) →
    List JsString × List (JsString × Value)
  | verified, [] => (verified, [])
  | verified, r :: records =>
    let (verified, verdict) := verifyDhtRecord P verified r.2 now false
    let (verified, live) := verifying now verified records
    match verdict with
    | .ok () => (verified, r :: live)
    | .error _ => (verified, live)

def Store.sweep (now : ℤ) : Store × ℕ :=
  let (signatures, live) := verifying P now s.signatures s.records
  (⟨live, signatures⟩, s.records.length - live.length)

/-- Higher sequences first; where they are no numbers, or equal, by publisher. -/
def Earlier (a b : Value) : Prop :=
  let sequence (v : Value) : Numeric :=
    ((operand P.toLanguage (v.get "sequence")).map (asNumber P.toLanguage)).getD .nan
  (sequence a).greater (sequence b) = true ∨ (sequence b).greater (sequence a) = false ∧
    P.collation.le (publisherOf a) (publisherOf b) = true

instance : DecidableRel (Earlier P) := fun _ _ => inferInstanceAs (Decidable (_ ∨ _ ∧ _))

/-- `none` is thrown: the comparison of two records needs the sequence of each as a number. -/
def Store.get (nameSpace key : Value) (now : ℤ) : Store × Option (List Value) :=
  let asked := s.records.filter fun r =>
    strictEq (r.2.get "namespace") (some nameSpace) && strictEq (r.2.get "key") (some key)
  let (signatures, live) := verifying P now s.signatures asked
  let found := live.map Prod.snd
  ({ s with signatures := signatures },
    if 2 ≤ found.length ∧ found.any fun v => (operand P.toLanguage (v.get "sequence")).isNone then none
    else some (found.insertionSort (Earlier P)))

/-! ### Runs -/

/-- `verify` is for the other users of the module: they share the cache. -/
inductive Store.Turn
  | put (record : Value) (now : ℤ) (allowExpired : Bool)
  | sweep (now : ℤ)
  | get (nameSpace key : Value) (now : ℤ)
  | verify (record : Value) (now : ℤ) (allowExpired : Bool)

inductive Store.Call
  | turn (one : Store.Turn)
  | restore (records : List Value) (now : ℤ) (allowExpired : Bool)

def Store.turn (s : Store) : Store.Turn → Store
  | .put record now allowExpired => (s.put P record now allowExpired).1
  | .sweep now => (s.sweep P now).1
  | .get nameSpace key now => (s.get P nameSpace key now).1
  | .verify record now allowExpired =>
    { s with signatures := (verifyDhtRecord P s.signatures record now allowExpired).1 }

def Store.apply (s : Store) : Store.Call → Store
  | .turn one => s.turn P one
  | .restore records now allowExpired => (s.restore P now allowExpired 0 records).1

/-- The puts of `restore`. An error ends it. -/
def restorePuts (now : ℤ) (allowExpired : Bool) : Store → List Value → List Store.Turn
  | _, [] => []
  | s, record :: records =>
    let (s, put) := s.put P record now allowExpired
    .put record now allowExpired :: match put with
      | .threw => []
      | _ => restorePuts now allowExpired s records

def Store.Call.turns (s : Store) : Store.Call → List Store.Turn
  | .turn one => [one]
  | .restore records now allowExpired => restorePuts P now allowExpired s records

/-- The turns of the calls, one after the other. -/
def storeTurns : Store → List Store.Call → List Store.Turn
  | _, [] => []
  | s, one :: calls => one.turns P s ++ storeTurns (s.apply P one) calls

/-- A store, the records it accepted, and those that `get` gave. -/
structure Log where
  store : Store
  accepted : List Value
  given : List Value

def Log.new : Log := ⟨.new, [], []⟩

def Put.ok : Put → Bool
  | .accepted => true
  | _ => false

def Log.turn (l : Log) (t : Store.Turn) : Log where
  store := l.store.turn P t
  accepted := match t with
    | .put record now allowExpired =>
      if (l.store.put P record now allowExpired).2.ok then record :: l.accepted else l.accepted
    | _ => l.accepted
  given := match t with
    | .get nameSpace key now => ((l.store.get P nameSpace key now).2.getD []) ++ l.given
    | _ => l.given

/-! ### Kept and guarded -/

/-- The same namespace, key and publisher. -/
def SameTriple (a b : Value) : Prop :=
  a.get "namespace" = b.get "namespace" ∧ a.get "key" = b.get "key" ∧
    a.get "publisherNodeId" = b.get "publisherNodeId"

/-- The sequence of `b` is lower than that of `a`. -/
def Lower (a b : Value) : Prop :=
  greater P.toLanguage (a.get "sequence") (b.get "sequence") = some true

/-- No record is accepted after one of its triple with a higher sequence, and none is given by `get`
    after one. -/
def Kept (l : Log) : Store.Turn → Prop
  | .put record now allowExpired => (l.store.put P record now allowExpired).2.ok = true →
      ∀ a ∈ l.accepted, SameTriple a record → ¬Lower P a record
  | .get nameSpace key now => ∀ found, (l.store.get P nameSpace key now).2 = some found →
      ∀ v ∈ found, ∀ g ∈ l.given, SameTriple g v → ¬Lower P g v
  | _ => True

/-- A record that verifies has a number as its sequence; and if a higher sequence of its triple was
    accepted, there is still a record under the key that is of the triple, or has a higher one. -/
def Covered (l : Log) : Store.Turn → Prop
  | .put record now allowExpired =>
    (verifyDhtRecord P l.store.signatures record now allowExpired).2 = .ok () →
      (∃ x, record.get "sequence" = some (.number x)) ∧
      ((∃ a ∈ l.accepted, SameTriple a record ∧ Lower P a record) →
        ∃ held, Maps.get l.store.records (keyOf P record) = some held ∧
          (SameTriple held record ∨ Lower P held record))
  | _ => True

variable {P s} {l : Log}

/-! ### Steps -/

theorem SameTriple.symm {a b : Value} (h : SameTriple a b) : SameTriple b a :=
  ⟨h.1.symm, h.2.1.symm, h.2.2.symm⟩

theorem SameTriple.trans {a b d : Value} (h : SameTriple a b) (h' : SameTriple b d) :
    SameTriple a d :=
  ⟨h.1.trans h'.1, h.2.1.trans h'.2.1, h.2.2.trans h'.2.2⟩

theorem SameTriple.keyOf {a b : Value} (h : SameTriple a b) : keyOf P a = keyOf P b := by
  rw [Dht.keyOf, Dht.keyOf, namespaceKey, namespaceKey, publisherOf, publisherOf, h.1, h.2.1, h.2.2]

theorem verifying_sublist {now : ℤ} {verified : List JsString}
    {records : List (JsString × Value)} : (verifying P now verified records).2.Sublist records := by
  induction records generalizing verified with
  | nil => exact List.Sublist.refl _
  | cons r records ih =>
    rw [verifying]
    generalize verifyDhtRecord P verified r.2 now false = result
    obtain ⟨signatures, verdict⟩ := result
    cases verdict with
    | ok => exact ih.cons_cons r
    | error reason => exact ih.cons r

/-- What `put` does: a record that verifies is set under its key, if the one there allows it. -/
theorem put_cases (record : Value) (now : ℤ) (allowExpired : Bool) :
    ((s.put P record now allowExpired).2.ok = false ∧
      (s.put P record now allowExpired).1.records = s.records) ∨
    ((s.put P record now allowExpired).2.ok = true ∧
      (verifyDhtRecord P s.signatures record now allowExpired).2 = .ok () ∧
      (s.put P record now allowExpired).1.records = Maps.set (keyOf P record) record s.records ∧
      ∀ held, Maps.get s.records (keyOf P record) = some held → ¬Lower P held record) := by
  unfold Store.put
  generalize verifyDhtRecord P s.signatures record now allowExpired = result
  obtain ⟨signatures, verdict⟩ := result
  cases verdict with
  | error reason => exact .inl ⟨rfl, rfl⟩
  | ok =>
    simp only
    cases hheld : Maps.get s.records (keyOf P record) with
    | none => exact .inr ⟨rfl, trivial, rfl, fun _ h => by cases h⟩
    | some held =>
      simp only
      split
      · exact .inl ⟨rfl, rfl⟩
      · exact .inl ⟨rfl, rfl⟩
      · next hless =>
        split
        · exact .inl ⟨rfl, rfl⟩
        · refine .inr ⟨rfl, trivial, rfl, fun _ h hlower => ?_⟩
          cases h
          rw [Lower, hless] at hlower
          cases hlower

/-- What `get` gives is in the store. -/
theorem mem_of_given {nameSpace key : Value} {now : ℤ} {found : List Value} {v : Value}
    (h : (s.get P nameSpace key now).2 = some found) (hv : v ∈ found) : ∃ k, (k, v) ∈ s.records := by
  unfold Store.get at h
  simp only at h
  split at h
  · cases h
  · cases h
    rw [List.mem_insertionSort, List.mem_map] at hv
    obtain ⟨r, hr, rfl⟩ := hv
    exact ⟨r.1, List.mem_of_mem_filter (verifying_sublist.subset hr)⟩

/-! ### Logs -/

/-- The store has every key once. A record there was accepted, as was all that `get` gave, and no
    record of its triple with a higher sequence. -/
structure Current (P : Platform) (l : Log) : Prop where
  nodup : (l.store.records.map Prod.fst).Nodup
  keyed : ∀ r ∈ l.store.records, keyOf P r.2 = r.1
  held : ∀ r ∈ l.store.records, r.2 ∈ l.accepted
  newest : ∀ r ∈ l.store.records, ∀ a ∈ l.accepted, SameTriple a r.2 → ¬Lower P a r.2
  number : ∀ a ∈ l.accepted, ∃ x, a.get "sequence" = some (.number x)
  given : ∀ g ∈ l.given, g ∈ l.accepted

theorem not_lower_trans {a b d : Value} (ha : ∃ x, a.get "sequence" = some (.number x))
    (hb : ∃ x, b.get "sequence" = some (.number x)) (hd : ∃ x, d.get "sequence" = some (.number x))
    (hab : ¬Lower P a b) (hbd : ¬Lower P b d) : ¬Lower P a d := by
  obtain ⟨x, ha⟩ := ha
  obtain ⟨y, hb⟩ := hb
  obtain ⟨z, hd⟩ := hd
  simp only [Lower, ha, hb, hd, greater_number, Option.some.injEq, decide_eq_true_eq,
    not_lt] at hab hbd ⊢
  exact hab.trans hbd

/-- The record that is put has no lower sequence than those of its triple before it. -/
theorem Current.put (h : Current P l) {record : Value} {now : ℤ} {allowExpired : Bool}
    (hc : Covered P l (.put record now allowExpired)) : Kept P l (.put record now allowExpired) := by
  intro hok a ha hsame hlower
  rcases put_cases (P := P) (s := l.store) record now allowExpired with ⟨hno, -⟩ |
    ⟨-, hverified, -, hfollows⟩
  · rw [hno] at hok
    cases hok
  · obtain ⟨hnumber, hcover⟩ := hc hverified
    obtain ⟨held, hget, hsame' | hhigher⟩ := hcover ⟨a, ha, hsame, hlower⟩
    · have hmem := Maps.mem_of_get hget
      have hnewest := h.newest _ hmem a ha (hsame.trans hsame'.symm)
      exact not_lower_trans (h.number a ha) (h.number held (h.held _ hmem)) hnumber hnewest
        (hfollows held hget) hlower
    · exact hfollows held hget hhigher

theorem Current.get (h : Current P l) (nameSpace key : Value) (now : ℤ) :
    Kept P l (.get nameSpace key now) := by
  intro found hfound v hv g hg hsame
  obtain ⟨k, hmem⟩ := mem_of_given hfound hv
  exact h.newest _ hmem g (h.given g hg) hsame

/-- Fewer records, and more that `get` gave from the store. -/
theorem Current.fewer {m : Log} (h : Current P l) (hsub : m.store.records.Sublist l.store.records)
    (haccepted : m.accepted = l.accepted)
    (hgiven : ∀ g ∈ m.given, g ∈ l.given ∨ ∃ k, (k, g) ∈ l.store.records) : Current P m where
  nodup := h.nodup.sublist (hsub.map _)
  keyed := fun r hr => h.keyed r (hsub.subset hr)
  held := fun r hr => haccepted ▸ h.held r (hsub.subset hr)
  newest := fun r hr a ha => h.newest r (hsub.subset hr) a (haccepted ▸ ha)
  number := fun a ha => h.number a (haccepted ▸ ha)
  given := fun g hg => haccepted ▸ (hgiven g hg).elim (h.given g) fun ⟨_, hk⟩ => h.held _ hk

theorem Current.turn (h : Current P l) {t : Store.Turn} (hc : Covered P l t) : Current P (l.turn P t) := by
  cases t with
  | sweep now => exact h.fewer verifying_sublist rfl fun g hg => .inl hg
  | verify record now allowExpired => exact h.fewer (List.Sublist.refl _) rfl fun g hg => .inl hg
  | get nameSpace key now =>
    refine h.fewer (List.Sublist.refl _) rfl fun g hg => ?_
    rcases List.mem_append.mp hg with hg | hg
    · cases hfound : (l.store.get P nameSpace key now).2 with
      | none =>
        rw [hfound] at hg
        cases hg
      | some found =>
        rw [hfound] at hg
        exact .inr (mem_of_given hfound hg)
    · exact .inl hg
  | put record now allowExpired =>
    have hkept := h.put hc
    rcases put_cases (P := P) (s := l.store) record now allowExpired with ⟨hno, hrecords⟩ |
      ⟨hok, hverified, hrecords, -⟩
    · refine h.fewer ?_ (by simp [Log.turn, hno]) fun g hg => .inl hg
      rw [Log.turn, Store.turn, hrecords]
    · have hnumber := (hc hverified).1
      have haccepted : (l.turn P (.put record now allowExpired)).accepted =
          record :: l.accepted := by simp [Log.turn, hok]
      have hstore : (l.turn P (.put record now allowExpired)).store.records =
          Maps.set (keyOf P record) record l.store.records := hrecords
      -- The new record is under its key; the others are those that were there.
      have hmem : ∀ r ∈ Maps.set (keyOf P record) record l.store.records,
          r = (keyOf P record, record) ∨ r ∈ l.store.records ∧ r.1 ≠ keyOf P record :=
        fun r => Maps.mem_set_or h.nodup
      constructor
      · rw [hstore]
        exact Maps.nodup_set h.nodup
      · rw [hstore]
        intro r hr
        rcases hmem r hr with rfl | ⟨hr, -⟩
        · rfl
        · exact h.keyed r hr
      · rw [hstore, haccepted]
        intro r hr
        rcases hmem r hr with rfl | ⟨hr, -⟩
        · exact List.mem_cons_self
        · exact List.mem_cons_of_mem _ (h.held r hr)
      · rw [hstore, haccepted]
        intro r hr a ha hsame
        rcases hmem r hr with rfl | ⟨hin, hne⟩
        · rcases List.mem_cons.mp ha with rfl | ha
          · obtain ⟨x, hx⟩ := hnumber
            simp [Lower, hx]
          · exact hkept hok a ha hsame
        · rcases List.mem_cons.mp ha with rfl | ha
          · exact absurd ((h.keyed r hin).symm.trans hsame.keyOf.symm) hne
          · exact h.newest r hin a ha hsame
      · rw [haccepted]
        intro a ha
        rcases List.mem_cons.mp ha with rfl | ha
        · exact hnumber
        · exact h.number a ha
      · rw [haccepted]
        exact fun g hg => List.mem_cons_of_mem _ (h.given g hg)

theorem Current.kept (h : Current P l) {t : Store.Turn} (hc : Covered P l t) : Kept P l t := by
  cases t with
  | put record now allowExpired => exact h.put hc
  | get nameSpace key now => exact h.get nameSpace key now
  | sweep now => trivial
  | verify record now allowExpired => trivial

/-! ### The calls -/

theorem restore_puts (records : List Value) (now : ℤ) (allowExpired : Bool) (accepted : ℕ) :
    (restorePuts P now allowExpired s records).foldl (Store.turn P) s =
      (s.restore P now allowExpired accepted records).1 := by
  induction records generalizing s accepted with
  | nil => rfl
  | cons record records ih =>
    rw [restorePuts, Store.restore]
    generalize hput : s.put P record now allowExpired = result
    obtain ⟨t, put⟩ := result
    have hturn : s.turn P (.put record now allowExpired) = t := by rw [Store.turn, hput]
    cases put with
    | threw => simp [hturn]
    | refused reason => simpa [hturn] using ih _
    | accepted => simpa [hturn] using ih _

/-- The turns do what the calls do. -/
theorem run_storeTurns (calls : List Store.Call) :
    (storeTurns P s calls).foldl (Store.turn P) s = calls.foldl (Store.apply P) s := by
  induction calls generalizing s with
  | nil => rfl
  | cons one calls ih =>
    have hone : (one.turns P s).foldl (Store.turn P) s = s.apply P one := by
      cases one with
      | turn one => rfl
      | restore records now allowExpired => exact restore_puts records now allowExpired 0
    rw [storeTurns, List.foldl_append, hone, ih, List.foldl_cons]

theorem log_store (turns : List Store.Turn) :
    (turns.foldl (Log.turn P) l).store = turns.foldl (Store.turn P) l.store := by
  induction turns generalizing l with
  | nil => rfl
  | cons t turns ih => rw [List.foldl_cons, ih, List.foldl_cons]; rfl

/-- Where every record that is put is covered, no sequence of a triple goes back: not in what is
    accepted, and not in what `get` gives. -/
theorem sequences_kept (calls : List Store.Call)
    (h : Runs.Along (Log.turn P) (Covered P) .new (storeTurns P .new calls)) :
    Runs.Along (Log.turn P) (Kept P) .new (storeTurns P .new calls) ∧
      ((storeTurns P .new calls).foldl (Log.turn P) .new).store =
        calls.foldl (Store.apply P) .new := by
  have hnew : Current P .new :=
    ⟨.nil, fun _ h => (by cases h), fun _ h => (by cases h), fun _ h => (by cases h),
      fun _ h => (by cases h), fun _ h => (by cases h)⟩
  refine ⟨h.imp hnew (fun _ _ hs hc => hs.turn hc) (fun _ _ hs hc => hs.kept hc), ?_⟩
  rw [log_store]
  exact run_storeTurns calls

/-! ### A forgotten record -/

/-- A record of publisher A, in the form in which it is signed. -/
def published (sequence expiresAt : ℕ) : Value :=
  .object [(js "recordId", .string (js "truyn:dht:" ++ numeral sequence ++ js "/" ++ numeral expiresAt)),
    (js "protocol", .string (js "truyn-kademlia-v1")), (js "namespace", .string (js "n")),
    (js "key", .string (js "k")), (js "keyHash", .string (js "n:k")), (js "value", .null),
    (js "valueDigest", .string (js "sha256:")), (js "publisherNodeId", .string (js "A")),
    (js "sequence", .number sequence), (js "issuedAt", .string (js "1")),
    (js "expiresAt", .string (numeral expiresAt)), (js "publicKey", .string (js "A")),
    (js "signature", .string (js "s"))]

/-- Record 2 expires at 20, record 1 at 90: after the sweep at 30 the older one is put again. -/
def putAgain : List Store.Call :=
  [.turn (.put (published 2 20) 10 false), .turn (.get (.string (js "n")) (.string (js "k")) 11),
    .turn (.sweep 30), .restore [published 1 90] 30 false,
    .turn (.get (.string (js "n")) (.string (js "k")) 31)]

/-- The lower sequence is accepted, and given by `get`. -/
theorem forgotten_put_again :
    ¬Runs.Along (Log.turn plain) (Kept plain) .new (storeTurns plain .new putAgain) ∧
    ∃ before, ((storeTurns plain .new putAgain).take 4).foldl (Log.turn plain) .new = before ∧
      ¬Kept plain before (.get (.string (js "n")) (.string (js "k")) 31) := by
  have hturns : storeTurns plain .new putAgain =
      [.put (published 2 20) 10 false, .get (.string (js "n")) (.string (js "k")) 11, .sweep 30,
        .put (published 1 90) 30 false, .get (.string (js "n")) (.string (js "k")) 31] := rfl
  rw [hturns]
  constructor
  · rintro ⟨-, -, -, hput, -⟩
    exact hput rfl (published 2 20) List.mem_cons_self ⟨rfl, rfl, rfl⟩ rfl
  · refine ⟨_, rfl, fun hget => ?_⟩
    exact hget [published 1 90] rfl (published 1 90) List.mem_cons_self (published 2 20)
      List.mem_cons_self ⟨rfl, rfl, rfl⟩ rfl

/-- Record 1 expires first: what comes after the sweep is newer. -/
def putInOrder : List Store.Call :=
  [.restore [published 1 20, published 2 90] 10 false, .turn (.sweep 30),
    .turn (.put (published 1 20) 31 false), .turn (.get (.string (js "n")) (.string (js "k")) 31)]

theorem sequences_kept_in_order :
    Runs.Along (Log.turn plain) (Kept plain) .new (storeTurns plain .new putInOrder) ∧
      (putInOrder.foldl (Store.apply plain) .new).records = [(js "n:k:A", published 2 90)] := by
  have hturns : storeTurns plain .new putInOrder =
      [.put (published 1 20) 10 false, .put (published 2 90) 10 false, .sweep 30,
        .put (published 1 20) 31 false, .get (.string (js "n")) (.string (js "k")) 31] := rfl
  have hcovered :
      Runs.Along (Log.turn plain) (Covered plain) .new (storeTurns plain .new putInOrder) := by
    rw [hturns]
    refine ⟨?_, ?_, trivial, ?_, trivial, trivial⟩
    · refine fun _ => ⟨⟨1, rfl⟩, ?_⟩
      rintro ⟨a, ha, -⟩
      cases ha
    · exact fun _ => ⟨⟨2, rfl⟩, fun _ => ⟨published 1 20, rfl, .inl ⟨rfl, rfl, rfl⟩⟩⟩
    · intro hverified
      have hexpired : Except.error "dht_record_expired" = Except.ok () := hverified
      cases hexpired
  exact ⟨(sequences_kept putInOrder hcovered).1, rfl⟩

end Truyn.Dht
