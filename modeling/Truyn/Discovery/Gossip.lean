import Truyn.Discovery.Placement
import Truyn.Schemes.Registers

/-! discovery:gossip | directories that ingest the same items, in any order, and exchange them

    In a directory, a key is a register: `replaces` and `follows` are when a record and a revocation
    take the place of the one that is there. `Converges` is what gossip is for, and `Orderly` the
    condition on the items under which it does so. -/

namespace Truyn.Discovery
open Trust (Value truthy strictEq)
open Dht (Platform)
open Registers (put Top OneWay slotted Settled Lists)

/-! ### Exchange -/

/-- The items of a run. -/
structure Items where
  records : List Value
  revocations : List Value

inductive Act
  | record (i : ℕ) (record : Value) (now : ℤ)
  | revocation (i : ℕ) (revocation : Value)
  | gossip (i j : ℕ) (now : ℤ)

/-- The directories, and what each was given, or one that it exchanged with before. -/
structure World where
  peers : ℕ → Directory
  records : ℕ → Set Value
  revocations : ℕ → Set Value

def World.new : World := ⟨fun _ => .new, fun _ => ∅, fun _ => ∅⟩

variable (P : Platform)

/-- `none` is thrown: then the other directory may have nothing yet. -/
def gossipWith (peers : ℕ → Directory) (i j : ℕ) (now : ℤ) :
    (ℕ → Directory) × Option ((ℕ × ℕ) × (ℕ × ℕ)) :=
  let mine := (peers i).exportState
  let theirs := (peers j).exportState
  match (peers i).importState P theirs now with
  | (d, none) => (Function.update peers i d, none)
  | (d, some left) =>
    let peers := Function.update peers i d
    match (peers j).importState P mine now with
    | (e, none) => (Function.update peers j e, none)
    | (e, some right) => (Function.update peers j e, some (left, right))

def World.act (w : World) : Act → World
  | .record i record now =>
    { w with
      peers := Function.update w.peers i ((w.peers i).ingestRecord P record now).1
      records := Function.update w.records i (w.records i ∪ {record}) }
  | .revocation i revocation =>
    { w with
      peers := Function.update w.peers i ((w.peers i).ingestRevocation P revocation).1
      revocations := Function.update w.revocations i (w.revocations i ∪ {revocation}) }
  | .gossip i j now =>
    match gossipWith P w.peers i j now with
    | (peers, none) => { w with peers := peers }
    | (peers, some _) =>
      { peers := peers
        records := fun n => if n = i ∨ n = j then w.records i ∪ w.records j else w.records n
        revocations := fun n =>
          if n = i ∨ n = j then w.revocations i ∪ w.revocations j else w.revocations n }

def World.run (w : World) (acts : List Act) : World := acts.foldl (World.act P) w

/-! ### Keys -/

/-- The key of a record that verifies, expired or not. -/
def recordKey (record : Value) : Option JsString :=
  match verifyPlacementRecord P record 0 true, placementKey P (bodyOf record) with
  | .ok _, .ok key => some key
  | _, _ => none

/-- The key of a record that is taken at this instant. -/
def recordSlot (now : ℤ) (record : Value) : Option JsString :=
  if (verifyPlacementRecord P record now false).isOk then recordKey P record else none

def revocationSlot (revocation : Value) : Option JsString :=
  match verifyPlacementRevocation P revocation, placementKey P (bodyOf revocation) with
  | .ok _, .ok key => some key
  | _, _ => none

/-- The record takes the place of the one that is there. -/
def replaces (existing record : Value) : Bool :=
  Dht.greater P.toLanguage (sequenceOf existing) (sequenceOf record) == some false &&
    !(strictEq (sequenceOf existing) (sequenceOf record) &&
      !strictEq (existing.get "recordId") (record.get "recordId"))

/-- The revocation takes the place of the one that is there. -/
def follows (existing revocation : Value) : Bool :=
  Dht.atMost P.toLanguage (sequenceOf existing) (sequenceOf revocation) == some true

/-! ### Converges and orderly -/

/-- The same record and the same revocation for every key. -/
def Same (d e : Directory) : Prop :=
  ∀ key, Maps.get d.records key = Maps.get e.records key ∧
    Maps.get d.revocations key = Maps.get e.revocations key

/-- An act of a run that is given only these items. -/
def Act.Over (S : Items) : Act → Prop
  | .record _ r _ => r ∈ S.records
  | .revocation _ v => v ∈ S.revocations
  | .gossip _ _ _ => True

def Act.At (now : ℤ) : Act → Prop
  | .record _ _ at_ => at_ = now
  | .revocation _ _ => True
  | .gossip _ _ at_ => at_ = now

/-- A directory has been given all items. -/
def World.Full (w : World) (S : Items) (i : ℕ) : Prop :=
  (∀ r ∈ S.records, r ∈ w.records i) ∧ ∀ v ∈ S.revocations, v ∈ w.revocations i

/-- Directories that were given all items are the same; two that exchange become the same, and do not
    change if they do so again; and what was revoked is not found again. -/
structure Converges (S : Items) (now : ℤ) : Prop where
  same : ∀ acts acts' : List Act, (∀ a ∈ acts ++ acts', a.Over S ∧ a.At now) → ∀ i j,
    (World.new.run P acts).Full S i → (World.new.run P acts').Full S j →
      Same ((World.new.run P acts).peers i) ((World.new.run P acts').peers j)
  exchange : ∀ acts : List Act, (∀ a ∈ acts, a.Over S ∧ a.At now) → ∀ i j, ∃ peers counts,
    gossipWith P (World.new.run P acts).peers i j now = (peers, some counts) ∧
      Same (peers i) (peers j) ∧ ∃ peers' counts', gossipWith P peers i j now = (peers', some counts') ∧
        ∀ n, Same (peers' n) (peers n)
  revoked : ∀ past future : List Act, (∀ a ∈ past ++ future, a.Over S) → ∀ i key revocation,
    Maps.get ((World.new.run P past).peers i).revocations key = some revocation →
      ∀ root at_ found, ((World.new.run P (past ++ future)).peers i).find P root at_ = some found →
        ∀ r ∈ found, recordKey P r = some key → covers P revocation r ≠ some true

/-- A holder does not equivocate: records of one key with the same sequence have the same id. -/
def HonestRecords (S : Items) : Prop :=
  ∀ r ∈ S.records, ∀ r' ∈ S.records, ∀ key, recordKey P r = some key → recordKey P r' = some key →
    sequenceOf r = sequenceOf r' → r.get "recordId" = r'.get "recordId"

/-- Of the live records of a key, no two have the same sequence. The sequences of the revocations of a
    key can be compared: one way between any two, with a last one; and a later one covers what an
    earlier one covers. -/
structure Orderly (S : Items) (now : ℤ) : Prop where
  records : ∀ r ∈ S.records, ∀ r' ∈ S.records, ∀ key, recordSlot P now r = some key →
    recordSlot P now r' = some key → sequenceOf r = sequenceOf r' → r = r'
  compares : ∀ v ∈ S.revocations, ∀ key, revocationSlot P v = some key →
    (Dht.atMost P.toLanguage (sequenceOf v) (sequenceOf v)).isSome
  oneWay : ∀ key, OneWay (follows P) (slotted (revocationSlot P) {v | v ∈ S.revocations} key)
  last : ∀ key, (slotted (revocationSlot P) {v | v ∈ S.revocations} key).Nonempty →
    ∃ m, Top (follows P) (slotted (revocationSlot P) {v | v ∈ S.revocations} key) m
  covers : ∀ v ∈ S.revocations, ∀ w ∈ S.revocations, ∀ r ∈ S.records, ∀ key,
    revocationSlot P v = some key → revocationSlot P w = some key → recordKey P r = some key →
      follows P v w = true → covers P v r = some true → covers P w r = some true

variable {P} {S : Items} {now : ℤ} {d : Directory} {key : JsString} {r v : Value}

/-! ### Directories -/

theorem recordKey_of_slot (h : recordSlot P now r = some key) : recordKey P r = some key := by
  unfold recordSlot at h
  split at h
  · exact h
  · cases h

theorem recordKey_some (h : recordKey P r = some key) :
    Verified P r ∧ placementKey P (bodyOf r) = .ok key ∧
      ∃ expires, verifyPlacementRecord P r 0 true = .ok expires := by
  unfold recordKey at h
  split at h
  · next expires key' hverified hkey =>
    cases h
    exact ⟨verified hverified, hkey, expires, hverified⟩
  · cases h

theorem recordSlot_of_verified {expires : ℤ} (h : verifyPlacementRecord P r now false = .ok expires) :
    ∃ key, recordSlot P now r = some key ∧ placementKey P (bodyOf r) = .ok key := by
  obtain ⟨key, hkey⟩ := (verified h).key
  refine ⟨key, ?_, hkey⟩
  rw [recordSlot, if_pos (by rw [h]; rfl), recordKey, verify_at h (.inl rfl), hkey]

theorem compared (result : Option Bool) :
    result = none ∨ result = some true ∨ result = some false := by
  rcases result with - | - | -
  · exact .inl rfl
  · exact .inr (.inr rfl)
  · exact .inr (.inl rfl)

variable {m : List (JsString × Value)} {a : Value}

/-- A map whose register is written. -/
theorem get_written {le : Value → Value → Bool} {m' : List (JsString × Value)}
    (h : m' = (Maps.get m key).elim (Maps.set key a m)
      fun held => if le held a then Maps.set key a m else m) (k : JsString) :
    Maps.get m' k = if key = k then Registers.write le (Maps.get m k) a else Maps.get m k := by
  subst h
  by_cases hk : key = k
  · subst hk
    cases hheld : Maps.get m key with
    | none => simp [Registers.write]
    | some held =>
      by_cases hle : le held a = true
      · simp [Registers.write, hle]
      · simp [Registers.write, hle, hheld]
  · rw [if_neg hk]
    cases hheld : Maps.get m key with
    | none => simp [Maps.get_set, hk]
    | some held =>
      by_cases hle : le held a = true
      · simp [hle, Maps.get_set, hk]
      · simp [hle]

/-- A record that is not taken changes nothing. -/
theorem ingestRecord_none (h : recordSlot P now r = none) : (d.ingestRecord P r now).1 = d := by
  unfold Directory.ingestRecord
  cases hverified : verifyPlacementRecord P r now false with
  | error reason => rfl
  | ok expires =>
    obtain ⟨key, hslot, -⟩ := recordSlot_of_verified hverified
    rw [h] at hslot
    cases hslot

theorem ingestRecord_some (h : recordSlot P now r = some key) :
    (d.ingestRecord P r now).1 = { d with
      records := (Maps.get d.records key).elim (Maps.set key r d.records)
        fun held => if replaces P held r then Maps.set key r d.records else d.records } := by
  have hkey := (recordKey_some (recordKey_of_slot h)).2.1
  unfold Directory.ingestRecord
  cases hverified : verifyPlacementRecord P r now false with
  | error reason =>
    simp [recordSlot, hverified, Except.isOk, Except.toBool] at h
  | ok expires =>
    simp only [hkey]
    cases Maps.get d.records key with
    | none => rfl
    | some held =>
      simp only [Option.elim, replaces]
      rcases compared (Dht.greater P.toLanguage (sequenceOf held) (sequenceOf r)) with hg | hg | hg
      · simp [hg]
      · simp [hg]
      · simp only [hg, beq_self_eq_true, Bool.true_and]
        by_cases hsame : (strictEq (sequenceOf held) (sequenceOf r) &&
            !strictEq (held.get "recordId") (r.get "recordId")) = true
        · simp [hsame]
        · simp [hsame]

/-- An ingested record is written in the register of its key. -/
theorem ingestRecord_records (now : ℤ) (r : Value) :
    Maps.get (d.ingestRecord P r now).1.records =
      put (replaces P) (recordSlot P now) (Maps.get d.records) r := by
  funext k
  cases hslot : recordSlot P now r with
  | none => simp [put, hslot, ingestRecord_none hslot]
  | some key =>
    rw [ingestRecord_some hslot, put, hslot]
    simpa using get_written rfl k

theorem ingestRecord_revocations : (d.ingestRecord P r now).1.revocations = d.revocations := by
  cases hslot : recordSlot P now r with
  | none => rw [ingestRecord_none hslot]
  | some key => rw [ingestRecord_some hslot]

theorem ingestRevocation_none (h : revocationSlot P v = none) :
    (d.ingestRevocation P v).1 = d := by
  unfold Directory.ingestRevocation
  unfold revocationSlot at h
  cases hverified : verifyPlacementRevocation P v with
  | error reason => rfl
  | ok =>
    cases hkey : placementKey P (bodyOf v) with
    | error reason => rfl
    | ok key => simp [hverified, hkey] at h

theorem revocationSlot_some (h : revocationSlot P v = some key) :
    verifyPlacementRevocation P v = .ok () ∧ placementKey P (bodyOf v) = .ok key := by
  unfold revocationSlot at h
  split at h
  · next hverified hkey =>
    cases h
    exact ⟨hverified, hkey⟩
  · cases h

theorem ingestRevocation_some (h : revocationSlot P v = some key) :
    (d.ingestRevocation P v).1 = { d with
      revocations := (Maps.get d.revocations key).elim (Maps.set key v d.revocations)
        fun held => if follows P held v then Maps.set key v d.revocations else d.revocations } := by
  obtain ⟨hverified, hkey⟩ := revocationSlot_some h
  unfold Directory.ingestRevocation
  simp only [hverified, hkey]
  cases Maps.get d.revocations key with
  | none => rfl
  | some held =>
    simp only [Option.elim, follows]
    rcases compared (Dht.atMost P.toLanguage (sequenceOf held) (sequenceOf v)) with hg | hg | hg <;>
      simp [hg]

/-- An ingested revocation is written in the register of its key. -/
theorem ingestRevocation_revocations (v : Value) :
    Maps.get (d.ingestRevocation P v).1.revocations =
      put (follows P) (revocationSlot P) (Maps.get d.revocations) v := by
  funext k
  cases hslot : revocationSlot P v with
  | none => simp [put, hslot, ingestRevocation_none hslot]
  | some key =>
    rw [ingestRevocation_some hslot, put, hslot]
    simpa using get_written rfl k

theorem ingestRevocation_records : (d.ingestRevocation P v).1.records = d.records := by
  cases hslot : revocationSlot P v with
  | none => rw [ingestRevocation_none hslot]
  | some key => rw [ingestRevocation_some hslot]

/-! ### Sound directories -/

/-- Every key once, and under it an item of the run that has that key. -/
structure Keyed (slot : Value → Option JsString) (items : List Value) (m : List (JsString × Value)) :
    Prop where
  once : (m.map Prod.fst).Nodup
  item : ∀ e ∈ m, e.2 ∈ items ∧ slot e.2 = some e.1

theorem Keyed.written {slot : Value → Option JsString} {items : List Value} (h : Keyed slot items m)
    (ha : a ∈ items) (hslot : slot a = some key) (le : Value → Value → Bool) :
    Keyed slot items ((Maps.get m key).elim (Maps.set key a m)
      fun held => if le held a then Maps.set key a m else m) := by
  have hset : Keyed slot items (Maps.set key a m) := by
    refine ⟨Maps.nodup_set h.once, fun e he => ?_⟩
    rcases Maps.mem_set he with rfl | he
    · exact ⟨ha, hslot⟩
    · exact h.item e he
  cases Maps.get m key with
  | none => exact hset
  | some held =>
    rw [Option.elim]
    split
    · exact hset
    · exact h

theorem Keyed.get {slot : Value → Option JsString} {items : List Value} (h : Keyed slot items m)
    (hget : Maps.get m key = some a) : a ∈ items ∧ slot a = some key :=
  h.item _ (Maps.mem_of_get hget)

/-- The values of a map are the items of its board. -/
theorem Keyed.lists {slot : Value → Option JsString} {items : List Value} (h : Keyed slot items m) :
    Lists slot (m.map Prod.snd) (Maps.get m) where
  mem := fun k a ha => ⟨List.mem_map.mpr ⟨_, Maps.mem_of_get ha, rfl⟩, (h.get ha).2⟩
  back := by
    intro a ha
    obtain ⟨e, he, rfl⟩ := List.mem_map.mp ha
    exact ⟨e.1, (h.item e he).2, Maps.get_of_mem h.once he⟩
  nodup := by
    refine List.Nodup.map_on (fun e he f hf heq => ?_) (h.once.of_map _)
    have hkey : some e.1 = some f.1 := by rw [← (h.item e he).2, heq, (h.item f hf).2]
    exact Prod.ext (Option.some.inj hkey) heq

/-- A directory of the items; `slot` is the key of a record. -/
structure Sound (P : Platform) (S : Items) (slot : Value → Option JsString) (d : Directory) :
    Prop where
  records : Keyed slot S.records d.records
  revocations : Keyed (revocationSlot P) S.revocations d.revocations

variable {slot : Value → Option JsString}

theorem sound_new : Sound P S slot .new :=
  ⟨⟨.nil, fun _ h => by cases h⟩, ⟨.nil, fun _ h => by cases h⟩⟩

/-- What is taken at an instant has this key. -/
def Keys (P : Platform) (slot : Value → Option JsString) (now : ℤ) : Prop :=
  ∀ r key, recordSlot P now r = some key → slot r = some key

theorem Sound.ingestRecord (h : Sound P S slot d) (hkeys : Keys P slot now) (hr : r ∈ S.records) :
    Sound P S slot (d.ingestRecord P r now).1 := by
  cases hslot : recordSlot P now r with
  | none =>
    rw [ingestRecord_none hslot]
    exact h
  | some key =>
    rw [ingestRecord_some hslot]
    exact ⟨h.records.written hr (hkeys r key hslot) _, h.revocations⟩

theorem Sound.ingestRevocation (h : Sound P S slot d) (hv : v ∈ S.revocations) :
    Sound P S slot (d.ingestRevocation P v).1 := by
  cases hslot : revocationSlot P v with
  | none =>
    rw [ingestRevocation_none hslot]
    exact h
  | some key =>
    rw [ingestRevocation_some hslot]
    exact ⟨h.records, h.revocations.written hv hslot _⟩

/-! ### Imports -/

section Imports
variable {ingest : Directory → Value → Directory × Ingest} {items : List Value} {I : Directory → Prop}

theorem importAll_keeps (hkeep : ∀ d, I d → ∀ a ∈ items, I (ingest d a).1) (hd : I d) (n : ℕ) :
    I (importAll ingest d n items).1 := by
  induction items generalizing d n with
  | nil => exact hd
  | cons a items ih =>
    have ha := hkeep d hd a List.mem_cons_self
    have hrest : ∀ d, I d → ∀ a ∈ items, I (ingest d a).1 :=
      fun d hd a ha => hkeep d hd a (List.mem_cons_of_mem _ ha)
    rw [importAll]
    generalize ingest d a = result at ha
    obtain ⟨e, outcome⟩ := result
    cases outcome with
    | threw => exact ha
    | accepted => exact ih hrest ha _
    | refused reason => exact ih hrest ha _

/-- If no item is thrown at, the import ends. -/
theorem importAll_ends (hkeep : ∀ d, I d → ∀ a ∈ items, I (ingest d a).1)
    (hno : ∀ d, I d → ∀ a ∈ items, (ingest d a).2 ≠ .threw) (hd : I d) (n : ℕ) :
    ∃ m, (importAll ingest d n items).2 = some m := by
  induction items generalizing d n with
  | nil => exact ⟨n, rfl⟩
  | cons a items ih =>
    have ha := hkeep d hd a List.mem_cons_self
    have hthrew := hno d hd a List.mem_cons_self
    have hrest : ∀ d, I d → ∀ a ∈ items, I (ingest d a).1 :=
      fun d hd a ha => hkeep d hd a (List.mem_cons_of_mem _ ha)
    have hrest' : ∀ d, I d → ∀ a ∈ items, (ingest d a).2 ≠ .threw :=
      fun d hd a ha => hno d hd a (List.mem_cons_of_mem _ ha)
    rw [importAll]
    generalize ingest d a = result at ha hthrew
    obtain ⟨e, outcome⟩ := result
    cases outcome with
    | threw => exact absurd rfl hthrew
    | accepted => exact ih hrest hrest' ha _
    | refused reason => exact ih hrest hrest' ha _

/-- An import writes the items, up to where it is thrown. -/
theorem importAll_writes (view : Directory → JsString → Option Value) {le : Value → Value → Bool}
    {slot : Value → Option JsString} (hview : ∀ d a, view (ingest d a).1 = put le slot (view d) a)
    (d : Directory) (n : ℕ) (items : List Value) :
    ∃ done, done <+: items ∧
      view (importAll ingest d n items).1 = done.foldl (put le slot) (view d) ∧
      ∀ m, (importAll ingest d n items).2 = some m → done = items := by
  induction items generalizing d n with
  | nil => exact ⟨[], List.prefix_rfl, rfl, fun _ _ => rfl⟩
  | cons a items ih =>
    have ha := hview d a
    rw [importAll]
    generalize ingest d a = result at ha
    obtain ⟨e, outcome⟩ := result
    have hgoes : ∀ n, ∃ done, done <+: a :: items ∧
        view (importAll ingest e n items).1 = done.foldl (put le slot) (view d) ∧
        ∀ m, (importAll ingest e n items).2 = some m → done = a :: items := by
      intro n
      obtain ⟨done, hdone, hwrites, hall⟩ := ih e n
      refine ⟨a :: done, List.cons_prefix_cons.mpr ⟨rfl, hdone⟩, ?_, fun m hm => by rw [hall m hm]⟩
      rw [hwrites, List.foldl_cons, ← ha]
    cases outcome with
    | threw => exact ⟨[a], List.cons_prefix_cons.mpr ⟨rfl, List.nil_prefix⟩, ha, fun m hm => by cases hm⟩
    | accepted => exact hgoes _
    | refused reason => exact hgoes _

variable {records revocations : List Value}

/-- An import is one of the records, and then one of the revocations. -/
theorem importState_cases (d : Directory) (records revocations : List Value) (now : ℤ) :
    ∃ e, e = (importAll (fun d r => d.ingestRecord P r now) d 0 records).1 ∧
      (((d.importState P (records, revocations) now).1 = e ∧
        (d.importState P (records, revocations) now).2 = none ∧
        (importAll (fun d r => d.ingestRecord P r now) d 0 records).2 = none) ∨
      ∃ n, (importAll (fun d r => d.ingestRecord P r now) d 0 records).2 = some n ∧
        (d.importState P (records, revocations) now).1 =
          (importAll (fun d v => d.ingestRevocation P v) e 0 revocations).1 ∧
        (d.importState P (records, revocations) now).2 =
          (importAll (fun d v => d.ingestRevocation P v) e 0 revocations).2.map (n, ·)) := by
  refine ⟨_, rfl, ?_⟩
  unfold Directory.importState
  generalize importAll (fun d r => d.ingestRecord P r now) d 0 records = first
  obtain ⟨e, m⟩ := first
  cases m with
  | none => exact .inl ⟨rfl, rfl, rfl⟩
  | some n =>
    refine .inr ⟨n, rfl, ?_⟩
    simp only
    generalize importAll (fun d v => d.ingestRevocation P v) e 0 revocations = second
    obtain ⟨f, m⟩ := second
    cases m <;> exact ⟨rfl, rfl⟩

theorem importState_keeps {I : Directory → Prop}
    (hrecords : ∀ d, I d → ∀ r ∈ records, I (d.ingestRecord P r now).1)
    (hrevocations : ∀ d, I d → ∀ v ∈ revocations, I (d.ingestRevocation P v).1) (hd : I d) :
    I (d.importState P (records, revocations) now).1 := by
  obtain ⟨e, he, hcases⟩ := importState_cases (P := P) d records revocations now
  have hfirst : I e := by
    rw [he]
    exact importAll_keeps hrecords hd 0
  rcases hcases with ⟨hd, -⟩ | ⟨n, -, hd, -⟩
  · rw [hd]
    exact hfirst
  · rw [hd]
    exact importAll_keeps hrevocations hfirst 0

theorem Sound.importState (h : Sound P S slot d) (hkeys : Keys P slot now)
    (hrecords : ∀ r ∈ records, r ∈ S.records) (hrevocations : ∀ v ∈ revocations, v ∈ S.revocations) :
    Sound P S slot (d.importState P (records, revocations) now).1 :=
  importState_keeps (fun _ hd r hr => hd.ingestRecord hkeys (hrecords r hr))
    (fun _ hd v hv => hd.ingestRevocation (hrevocations v hv)) h

/-- An import writes records, and revocations; if it ends, all of them. -/
theorem importState_writes (d : Directory) (records revocations : List Value) (now : ℤ) :
    ∃ done done', done <+: records ∧ done' <+: revocations ∧
      Maps.get (d.importState P (records, revocations) now).1.records =
        done.foldl (put (replaces P) (recordSlot P now)) (Maps.get d.records) ∧
      Maps.get (d.importState P (records, revocations) now).1.revocations =
        done'.foldl (put (follows P) (revocationSlot P)) (Maps.get d.revocations) ∧
      ((d.importState P (records, revocations) now).2.isSome → done = records ∧ done' = revocations) := by
  obtain ⟨e, he, hcases⟩ := importState_cases (P := P) d records revocations now
  obtain ⟨done, hdone, hwrites, hall⟩ := importAll_writes
    (fun d => Maps.get d.records) (fun d r => ingestRecord_records now r) d 0 records
  have hsame : e.revocations = d.revocations := by
    rw [he]
    exact importAll_keeps (I := fun f => f.revocations = d.revocations)
      (fun f hf r _ => ingestRecord_revocations.trans hf) rfl 0
  rw [← he] at hwrites
  rcases hcases with ⟨hd, hnone, -⟩ | ⟨n, hn, hd, hcounts⟩
  · refine ⟨done, [], hdone, List.nil_prefix, by rw [hd, hwrites], by rw [hd, hsame]; rfl, ?_⟩
    rw [hnone]
    exact fun hfalse => by cases hfalse
  · obtain ⟨done', hdone', hwrites', hall'⟩ := importAll_writes
      (fun d => Maps.get d.revocations) (fun d v => ingestRevocation_revocations v) e 0
        revocations
    have hkept : (importAll (fun d v => d.ingestRevocation P v) e 0 revocations).1.records =
        e.records := importAll_keeps (I := fun f => f.records = e.records)
      (fun f hf v _ => ingestRevocation_records.trans hf) rfl 0
    refine ⟨done, done', hdone, hdone', by rw [hd, hkept, hwrites], by rw [hd, hwrites', hsame], ?_⟩
    rw [hcounts, Option.isSome_map]
    intro hsome
    obtain ⟨m, hm⟩ := Option.isSome_iff_exists.mp hsome
    exact ⟨hall n hn, hall' m hm⟩

end Imports

end Truyn.Discovery
