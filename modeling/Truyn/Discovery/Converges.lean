import Truyn.Discovery.Gossip

/-! discovery:converges | when gossip converges

    `Informed` is what a directory of a run at one instant holds: the last item of every key that it
    heard of. From it, orderly items converge; and runs of a few acts show that items which converge
    are orderly (`gossip_converges`). -/

namespace Truyn.Discovery
open Trust (Value truthy strictEq)
open Dht (Platform)
open Registers (put Top OneWay slotted Settled Lists)

variable {P : Platform} {S : Items} {now : ℤ} {d : Directory} {key : JsString} {r v : Value}
  {slot : Value → Option JsString}

/-! ### What a directory has heard -/

/-- A directory at one instant, and what it was given. -/
structure Informed (P : Platform) (S : Items) (now : ℤ) (records revocations : Set Value)
    (d : Directory) : Prop where
  sound : Sound P S (recordSlot P now) d
  records : Settled (replaces P) (recordSlot P now) {r | r ∈ S.records} records (Maps.get d.records)
  revocations : Settled (follows P) (revocationSlot P) {v | v ∈ S.revocations} revocations
    (Maps.get d.revocations)

variable {given given' taken taken' : Set Value} {e : Directory}

theorem informed_new : Informed P S now ∅ ∅ .new :=
  ⟨sound_new, Registers.settled_empty, Registers.settled_empty⟩

theorem Informed.ingestRecord (h : Informed P S now given taken d) (hr : r ∈ S.records) :
    Informed P S now (given ∪ {r}) taken (d.ingestRecord P r now).1 where
  sound := h.sound.ingestRecord (fun _ _ hslot => hslot) hr
  records := by
    have hputs := h.records.puts (l := [r]) (by simpa using hr)
    rw [ingestRecord_records]
    exact hputs.mono fun a ha => by simpa using ha
  revocations := by
    rw [ingestRecord_revocations]
    exact h.revocations

theorem Informed.ingestRevocation (h : Informed P S now given taken d) (hv : v ∈ S.revocations) :
    Informed P S now given (taken ∪ {v}) (d.ingestRevocation P v).1 where
  sound := h.sound.ingestRevocation hv
  records := by
    rw [ingestRevocation_records]
    exact h.records
  revocations := by
    have hputs := h.revocations.puts (l := [v]) (by simpa using hv)
    rw [ingestRevocation_revocations]
    exact hputs.mono fun a ha => by simpa using ha

/-- What is exported is of the run. -/
theorem Sound.exported (h : Sound P S slot e) :
    (∀ r ∈ e.exportState.1, r ∈ S.records) ∧ ∀ v ∈ e.exportState.2, v ∈ S.revocations := by
  constructor
  · intro r hr
    obtain ⟨entry, hentry, rfl⟩ := List.mem_map.mp hr
    exact (h.records.item entry hentry).1
  · intro v hv
    obtain ⟨entry, hentry, rfl⟩ := List.mem_map.mp hv
    exact (h.revocations.item entry hentry).1

theorem Sound.imports (h : Sound P S slot d) (h' : Sound P S slot e) (hkeys : Keys P slot now) :
    Sound P S slot (d.importState P e.exportState now).1 :=
  h.importState hkeys h'.exported.1 h'.exported.2

/-- A directory that imports from another has heard what that has heard, if the import ends. -/
theorem Informed.importState (h : Informed P S now given taken d)
    (h' : Informed P S now given' taken' e) :
    Informed P S now given taken (d.importState P e.exportState now).1 ∧
      ((d.importState P e.exportState now).2.isSome →
        Informed P S now (given ∪ given') (taken ∪ taken') (d.importState P e.exportState now).1) := by
  obtain ⟨hrecords, hrevocations⟩ := h'.sound.exported
  have hsound := h.sound.imports h'.sound fun _ _ hslot => hslot
  obtain ⟨done, done', hdone, hdone', hwrites, hwrites', hall⟩ :=
    importState_writes (P := P) d e.exportState.1 e.exportState.2 now
  constructor
  · refine ⟨hsound, ?_, ?_⟩
    · rw [hwrites]
      exact (h.records.puts fun r hr => hrecords r (hdone.subset hr)).mono Set.subset_union_left
    · rw [hwrites']
      exact (h.revocations.puts fun v hv => hrevocations v (hdone'.subset hv)).mono
        Set.subset_union_left
  · intro hsome
    obtain ⟨rfl, rfl⟩ := hall hsome
    refine ⟨hsound, ?_, ?_⟩
    · rw [hwrites]
      exact h.records.hears h'.records h'.sound.records.lists
    · rw [hwrites']
      exact h.revocations.hears h'.revocations h'.sound.revocations.lists

/-! ### Runs at one instant -/

/-- Every directory of a world has heard what it was given. -/
def World.Informed (P : Platform) (S : Items) (now : ℤ) (w : World) : Prop :=
  ∀ n, Discovery.Informed P S now (w.records n) (w.revocations n) (w.peers n)

variable {w : World} {i j : ℕ}

theorem update_forall {α : ℕ → Type*} {f : ∀ n, α n} {i : ℕ} {a : α i} {Q : ∀ n, α n → Prop}
    (hi : Q i a) (h : ∀ n, n ≠ i → Q n (f n)) : ∀ n, Q n (Function.update f i a n) := by
  intro n
  by_cases hn : n = i
  · subst hn
    simpa using hi
  · simpa [Function.update_of_ne hn] using h n hn

theorem World.Informed.gossip (h : w.Informed P S now) (i j : ℕ) :
    (w.act P (.gossip i j now)).Informed P S now := by
  have hleft := (h i).importState (h j)
  rw [World.act, gossipWith]
  simp only
  generalize (w.peers i).importState P (w.peers j).exportState now = left at hleft
  obtain ⟨d, counts⟩ := left
  cases counts with
  | none =>
    exact update_forall (Q := fun n d => Discovery.Informed P S now (w.records n) (w.revocations n) d)
      hleft.1 fun n _ => h n
  | some counts =>
    obtain ⟨hd, hboth⟩ := hleft
    replace hboth := hboth rfl
    simp only
    have hupdated : ∀ n, Discovery.Informed P S now (w.records n) (w.revocations n)
        (Function.update w.peers i d n) :=
      update_forall (Q := fun n d => Discovery.Informed P S now (w.records n) (w.revocations n) d)
        hd fun n _ => h n
    have hright := (hupdated j).importState (h i)
    generalize (Function.update w.peers i d j).importState P (w.peers i).exportState now = right
      at hright
    obtain ⟨e, counts'⟩ := right
    cases counts' with
    | none =>
      exact update_forall
        (Q := fun n d => Discovery.Informed P S now (w.records n) (w.revocations n) d)
        hright.1 fun n _ => hupdated n
    | some counts' =>
      have he := hright.2 rfl
      intro n
      by_cases hj : n = j
      · subst hj
        simpa [Set.union_comm] using he
      · by_cases hi : n = i
        · subst hi
          simpa [Function.update_of_ne hj] using hboth
        · simpa [Function.update_of_ne hj, Function.update_of_ne hi, hi, hj] using h n

theorem World.Informed.act (h : w.Informed P S now) {a : Act} (hover : a.Over S) (hat : a.At now) :
    (w.act P a).Informed P S now := by
  cases a with
  | gossip i j at_ =>
    obtain rfl := hat
    exact h.gossip i j
  | record i r at_ =>
    obtain rfl := hat
    intro n
    by_cases hn : n = i
    · subst hn
      simpa [World.act] using (h n).ingestRecord hover
    · simpa [World.act, Function.update_of_ne hn] using h n
  | revocation i v =>
    intro n
    by_cases hn : n = i
    · subst hn
      simpa [World.act] using (h n).ingestRevocation hover
    · simpa [World.act, Function.update_of_ne hn] using h n

variable {acts : List Act} {peers : ℕ → Directory} {I : ℕ → Directory → Prop} {root : JsString}
  {found : List Value}

theorem informed_run (h : w.Informed P S now) (hacts : ∀ a ∈ acts, a.Over S ∧ a.At now) :
    (w.run P acts).Informed P S now := by
  induction acts generalizing w with
  | nil => exact h
  | cons a acts ih =>
    obtain ⟨hover, hat⟩ := hacts a List.mem_cons_self
    exact ih (h.act hover hat) fun b hb => hacts b (List.mem_cons_of_mem _ hb)

/-! ### Orderly items converge -/

/-- The sequence of a record that verifies. -/
def rank (r : Value) : ℚ :=
  match sequenceOf r with
  | some (.number x) => x
  | _ => 0

theorem replaces_number {m n : ℤ} (hr : sequenceOf r = some (.number m))
    (hv : sequenceOf v = some (.number n)) :
    replaces P r v = (decide (m ≤ n) && !(decide (m = n) &&
      !strictEq (r.get "recordId") (v.get "recordId"))) := by
  have heq : strictEq (some (.number (m : ℚ))) (some (.number (n : ℚ))) = decide (m = n) := by
    simp [strictEq]
  rw [replaces, hr, hv, Dht.greater_number, heq]
  congr 1
  by_cases hlt : n < m
  · simp [hlt]
  · simp [hlt, not_lt.mp hlt]

/-- Two live records of a key are ordered by their sequences. -/
theorem Orderly.ranked (h : Orderly P S now) : ∀ r ∈ slotted (recordSlot P now) {r | r ∈ S.records} key,
    ∀ r' ∈ slotted (recordSlot P now) {r | r ∈ S.records} key, r ≠ r' →
      rank r ≠ rank r' ∧ (replaces P r r' = true ↔ rank r < rank r') := by
  rintro r ⟨hr, hslot⟩ r' ⟨hr', hslot'⟩ hne
  obtain ⟨m, hm⟩ := (recordKey_some (recordKey_of_slot hslot)).1.sequence
  obtain ⟨n, hn⟩ := (recordKey_some (recordKey_of_slot hslot')).1.sequence
  have hmn : m ≠ n := by
    rintro rfl
    exact hne (h.records r hr r' hr' key hslot hslot' (hm.trans hn.symm))
  rw [replaces_number hm hn]
  simp only [rank, hm, hn, ne_eq, Int.cast_inj, Int.cast_lt]
  refine ⟨hmn, ?_⟩
  simp only [hmn, decide_false, Bool.false_and, Bool.not_false, Bool.and_true, decide_eq_true_eq]
  omega

theorem Orderly.oneWayRecords (h : Orderly P S now) (key : JsString) :
    OneWay (replaces P) (slotted (recordSlot P now) {r | r ∈ S.records} key) :=
  Registers.oneWay_of_rank h.ranked

theorem Orderly.lastRecord (h : Orderly P S now) (key : JsString)
    (hne : (slotted (recordSlot P now) {r | r ∈ S.records} key).Nonempty) :
    ∃ m, Top (replaces P) (slotted (recordSlot P now) {r | r ∈ S.records} key) m :=
  Registers.top_of_rank (S.records.finite_toSet.subset fun _ hr => hr.1) hne h.ranked

theorem follows_number {x y : ℚ} {w : Value} (hv : sequenceOf v = some (.number x))
    (hw : sequenceOf w = some (.number y)) : follows P v w = decide (x ≤ y) := by
  rw [follows, hv, hw, Dht.atMost_number]
  cases decide (x ≤ y) <;> rfl

/-- With numbers as sequences, it is enough that those of a key differ. -/
theorem orderly_of_numbers
    (hrecords : ∀ r ∈ S.records, ∀ r' ∈ S.records, ∀ key, recordSlot P now r = some key →
      recordSlot P now r' = some key → sequenceOf r = sequenceOf r' → r = r')
    (hnumber : ∀ v ∈ S.revocations, ∃ x, sequenceOf v = some (.number x))
    (hdiffer : ∀ v ∈ S.revocations, ∀ w ∈ S.revocations, ∀ key, revocationSlot P v = some key →
      revocationSlot P w = some key → sequenceOf v = sequenceOf w → v = w) : Orderly P S now := by
  have hranked : ∀ key, ∀ v ∈ slotted (revocationSlot P) {v | v ∈ S.revocations} key,
      ∀ w ∈ slotted (revocationSlot P) {v | v ∈ S.revocations} key, v ≠ w →
        rank v ≠ rank w ∧ (follows P v w = true ↔ rank v < rank w) := by
    rintro key v ⟨hv, hslot⟩ w ⟨hw, hslot'⟩ hne
    obtain ⟨x, hx⟩ := hnumber v hv
    obtain ⟨y, hy⟩ := hnumber w hw
    have hxy : x ≠ y := by
      rintro rfl
      exact hne (hdiffer v hv w hw key hslot hslot' (hx.trans hy.symm))
    rw [follows_number hx hy]
    simp only [rank, hx, hy, decide_eq_true_eq]
    exact ⟨hxy, hxy.le_iff_lt⟩
  constructor
  · exact hrecords
  · intro v hv key _
    obtain ⟨x, hx⟩ := hnumber v hv
    rw [hx, Dht.atMost_number]
    rfl
  · exact fun key => Registers.oneWay_of_rank (hranked key)
  · exact fun key hne => Registers.top_of_rank
      (S.revocations.finite_toSet.subset fun _ hv => hv.1) hne (hranked key)
  · intro v hv w hw r hr key hslot hslot' hkey hfollows hcovers
    obtain ⟨x, hx⟩ := hnumber v hv
    obtain ⟨y, hy⟩ := hnumber w hw
    obtain ⟨n, hn⟩ := (recordKey_some hkey).1.sequence
    rw [follows_number hx hy, decide_eq_true_eq] at hfollows
    rw [Discovery.covers, hn, hx, Dht.atMost_number] at hcovers
    rw [Discovery.covers, hn, hy, Dht.atMost_number]
    simp only [Option.some.injEq, decide_eq_true_eq] at hcovers ⊢
    exact hcovers.trans hfollows

theorem Informed.same (h : Orderly P S now) (hd : Informed P S now given taken d)
    (he : Informed P S now given' taken' e)
    (hgiven : ∀ r ∈ S.records, r ∈ given ∧ r ∈ given')
    (htaken : ∀ v ∈ S.revocations, v ∈ taken ∧ v ∈ taken') : Same d e := by
  intro key
  constructor
  · exact congrFun (hd.records.eq he.records h.lastRecord (fun r hr => (hgiven r hr).1)
      fun r hr => (hgiven r hr).2) key
  · exact congrFun (hd.revocations.eq he.revocations h.last (fun v hv => (htaken v hv).1)
      fun v hv => (htaken v hv).2) key

theorem ingestRecord_ends (hd : Sound P S (recordSlot P now) d) :
    (d.ingestRecord P r now).2 ≠ .threw := by
  unfold Directory.ingestRecord
  cases hverified : verifyPlacementRecord P r now false with
  | error reason => exact fun hthrew => by cases hthrew
  | ok expires =>
    obtain ⟨key, hslot, hkey⟩ := recordSlot_of_verified hverified
    simp only [hkey]
    cases hheld : Maps.get d.records key with
    | none => exact fun hthrew => by cases hthrew
    | some held =>
      obtain ⟨m, hm⟩ :=
        (recordKey_some (recordKey_of_slot (hd.records.get hheld).2)).1.sequence
      obtain ⟨n, hn⟩ := (verified hverified).sequence
      simp only [hm, hn, Dht.greater_number]
      by_cases hlt : (n : ℚ) < m
      · simp [hlt]
      · simp only [hlt, decide_false]
        split <;> exact fun hthrew => by cases hthrew

theorem ingestRevocation_ends (h : Orderly P S now) (hd : Sound P S slot d)
    (hv : v ∈ S.revocations) (hslot : revocationSlot P v = some key) :
    (d.ingestRevocation P v).2 ≠ .threw := by
  obtain ⟨hverified, hkey⟩ := revocationSlot_some hslot
  unfold Directory.ingestRevocation
  simp only [hverified, hkey]
  cases hheld : Maps.get d.revocations key with
  | none => exact fun hthrew => by cases hthrew
  | some held =>
    obtain ⟨hmem, hslot'⟩ := hd.revocations.get hheld
    obtain ⟨below, hbelow⟩ := Option.isSome_iff_exists.mp
      (Dht.atMost_isSome (h.compares held hmem key hslot') (h.compares v hv key hslot))
    simp only [hbelow]
    cases below <;> exact fun hthrew => by cases hthrew

/-- No import from another directory of the run throws. -/
theorem Orderly.imports (h : Orderly P S now) (hd : Sound P S (recordSlot P now) d)
    (he : Sound P S (recordSlot P now) e) :
    ∃ counts, (d.importState P e.exportState now).2 = some counts := by
  obtain ⟨hrecords, hrevocations⟩ := he.exported
  have hkeep : ∀ f, Sound P S (recordSlot P now) f → ∀ r ∈ e.exportState.1,
      Sound P S (recordSlot P now) (f.ingestRecord P r now).1 := fun f hf r hr =>
    hf.ingestRecord (fun _ _ hslot => hslot) (hrecords r hr)
  have hslots : ∀ v ∈ e.exportState.2, ∃ key, revocationSlot P v = some key := by
    intro v hv
    obtain ⟨entry, hentry, rfl⟩ := List.mem_map.mp hv
    exact ⟨entry.1, (he.revocations.item entry hentry).2⟩
  obtain ⟨f, hf, hcases⟩ := importState_cases (P := P) d e.exportState.1 e.exportState.2 now
  have hsound : Sound P S (recordSlot P now) f := by
    rw [hf]
    exact importAll_keeps hkeep hd 0
  rcases hcases with ⟨-, -, hnone⟩ | ⟨n, -, -, hcounts⟩
  · obtain ⟨m, hm⟩ := importAll_ends hkeep (fun f hf r _ => ingestRecord_ends hf) hd 0
    rw [hnone] at hm
    cases hm
  · obtain ⟨m, hm⟩ := importAll_ends (I := Sound P S (recordSlot P now))
      (fun f hf v hv => hf.ingestRevocation (hrevocations v hv))
      (fun f hf v hv => by
        obtain ⟨key, hkey⟩ := hslots v hv
        exact ingestRevocation_ends h hf (hrevocations v hv) hkey) hsound 0
    rw [hm] at hcounts
    exact ⟨(n, m), hcounts⟩

/-- Two directories that import from each other are the same then. -/
theorem Orderly.exchange (h : Orderly P S now) (hd : Informed P S now given taken d)
    (he : Informed P S now given' taken' e) :
    Same (d.importState P e.exportState now).1 (e.importState P d.exportState now).1 := by
  obtain ⟨c, hc⟩ := h.imports hd.sound he.sound
  obtain ⟨c', hc'⟩ := h.imports he.sound hd.sound
  obtain ⟨done, done', -, -, hwrites, hwrites', hall⟩ :=
    importState_writes (P := P) d e.exportState.1 e.exportState.2 now
  obtain ⟨rfl, rfl⟩ := hall (Option.isSome_of_mem hc)
  obtain ⟨done, done', -, -, hwritesE, hwritesE', hall⟩ :=
    importState_writes (P := P) e d.exportState.1 d.exportState.2 now
  obtain ⟨rfl, rfl⟩ := hall (Option.isSome_of_mem hc')
  intro key
  constructor
  · have heq := Lists.exchange h.oneWayRecords hd.records he.records hd.sound.records.lists
      he.sound.records.lists
    exact congrFun (hwrites.trans (heq.trans hwritesE.symm)) key
  · have heq := Lists.exchange h.oneWay hd.revocations he.revocations hd.sound.revocations.lists
      he.sound.revocations.lists
    exact congrFun (hwrites'.trans (heq.trans hwritesE'.symm)) key

/-- A directory that imports from one that is the same stays. -/
theorem Orderly.again (h : Orderly P S now) (hd : Sound P S (recordSlot P now) d)
    (he : Sound P S (recordSlot P now) e) (hsame : Same d e) :
    Same (d.importState P e.exportState now).1 d := by
  obtain ⟨c, hc⟩ := h.imports hd he
  obtain ⟨done, done', -, -, hwrites, hwrites', hall⟩ :=
    importState_writes (P := P) d e.exportState.1 e.exportState.2 now
  obtain ⟨rfl, rfl⟩ := hall (Option.isSome_of_mem hc)
  have hrecords : Maps.get d.records = Maps.get e.records := funext fun key => (hsame key).1
  have hrevocations : Maps.get d.revocations = Maps.get e.revocations :=
    funext fun key => (hsame key).2
  intro key
  constructor
  · refine congrFun (hwrites.trans (Lists.again ?_)) key
    rw [hrecords]
    exact he.records.lists
  · refine congrFun (hwrites'.trans (Lists.again ?_)) key
    rw [hrevocations]
    exact he.revocations.lists

theorem Same.refl (d : Directory) : Same d d := fun _ => ⟨rfl, rfl⟩

theorem Same.symm {d e : Directory} (h : Same d e) : Same e d := fun key =>
  ⟨(h key).1.symm, (h key).2.symm⟩

theorem Same.trans {d e f : Directory} (h : Same d e) (h' : Same e f) : Same d f := fun key =>
  ⟨(h key).1.trans (h' key).1, (h key).2.trans (h' key).2⟩

theorem gossipWith_ends {left right : ℕ × ℕ}
    (hleft : (peers i).importState P (peers j).exportState now = (d, some left))
    (hright : (Function.update peers i d j).importState P (peers i).exportState now =
      (e, some right)) :
    gossipWith P peers i j now =
      (Function.update (Function.update peers i d) j e, some (left, right)) := by
  rw [gossipWith]
  simp only [hleft, hright]

/-- The directories after an exchange. -/
theorem Orderly.gossip (h : Orderly P S now) (hsound : ∀ n, Sound P S (recordSlot P now) (peers n))
    (i j : ℕ) :
    ∃ d e counts, d = ((peers i).importState P (peers j).exportState now).1 ∧
      e = ((Function.update peers i d j).importState P (peers i).exportState now).1 ∧
      gossipWith P peers i j now = (Function.update (Function.update peers i d) j e, some counts) ∧
      (∀ n, Sound P S (recordSlot P now) (Function.update peers i d n)) ∧
      ∀ n, Sound P S (recordSlot P now) (Function.update (Function.update peers i d) j e n) := by
  obtain ⟨left, hleft⟩ := h.imports (hsound i) (hsound j)
  obtain ⟨d, hd⟩ : ∃ d, (peers i).importState P (peers j).exportState now = (d, some left) :=
    ⟨_, Prod.ext rfl hleft⟩
  have hsoundD : Sound P S (recordSlot P now) d := by
    have hnew := (hsound i).imports (hsound j) fun _ _ hslot => hslot
    rwa [hd] at hnew
  have hfirst : ∀ n, Sound P S (recordSlot P now) (Function.update peers i d n) :=
    update_forall (Q := fun _ d => Sound P S (recordSlot P now) d) hsoundD fun n _ => hsound n
  obtain ⟨right, hright⟩ := h.imports (hfirst j) (hsound i)
  obtain ⟨e, he⟩ : ∃ e, (Function.update peers i d j).importState P (peers i).exportState now =
      (e, some right) := ⟨_, Prod.ext rfl hright⟩
  have hsoundE : Sound P S (recordSlot P now) e := by
    have hnew := (hfirst j).imports (hsound i) fun _ _ hslot => hslot
    rwa [he] at hnew
  refine ⟨d, e, (left, right), by rw [hd], by rw [he], gossipWith_ends hd he, hfirst, ?_⟩
  exact update_forall (Q := fun _ d => Sound P S (recordSlot P now) d) hsoundE fun n _ => hfirst n

theorem Orderly.converges_exchange (h : Orderly P S now) (hw : w.Informed P S now) (i j : ℕ) :
    ∃ peers counts, gossipWith P w.peers i j now = (peers, some counts) ∧
      Same (peers i) (peers j) ∧ ∃ peers' counts', gossipWith P peers i j now = (peers', some counts') ∧
        ∀ n, Same (peers' n) (peers n) := by
  obtain ⟨d, e, counts, hd, he, hgossip, -, hsound⟩ := h.gossip (fun n => (hw n).sound) i j
  have hsame : Same (Function.update (Function.update w.peers i d) j e i)
      (Function.update (Function.update w.peers i d) j e j) := by
    by_cases hij : i = j
    · rw [hij]
      exact .refl _
    · have hexchange := h.exchange (hw i) (hw j)
      rw [Function.update_of_ne (Ne.symm hij)] at he
      simpa [Function.update_of_ne hij, hd, he] using hexchange
  refine ⟨_, counts, hgossip, hsame, ?_⟩
  generalize Function.update (Function.update w.peers i d) j e = peers at hsound hsame
  obtain ⟨d', e', counts', hd', he', hgossip', hafter, -⟩ := h.gossip hsound i j
  refine ⟨_, counts', hgossip', ?_⟩
  have hfirst : Same d' (peers i) := hd' ▸ h.again (hsound i) (hsound j) hsame
  have hupdated : ∀ n, Same (Function.update peers i d' n) (peers n) :=
    update_forall (Q := fun n d => Same d (peers n)) hfirst fun n _ => .refl _
  have hsecond : Same e' (Function.update peers i d' j) :=
    he' ▸ h.again (hafter j) (hsound i) ((hupdated j).trans hsame.symm)
  exact update_forall (Q := fun n d => Same d (peers n)) (hsecond.trans (hupdated j))
    fun n _ => hupdated n

/-! ### What is revoked stays revoked -/

/-- Every key of a record that is taken, at any instant. -/
theorem keys_any : Keys P (recordKey P) now := fun _ _ h => recordKey_of_slot h

/-- What every ingest keeps in a directory, an act keeps in every directory of sound ones. -/
theorem World.keeps (hI : ∀ n d, I n d → Sound P S (recordKey P) d)
    (hrecord : ∀ n d now r, I n d → r ∈ S.records → I n (d.ingestRecord P r now).1)
    (hrevocation : ∀ n d v, I n d → v ∈ S.revocations → I n (d.ingestRevocation P v).1)
    (hw : ∀ n, I n (w.peers n)) {a : Act} (hover : a.Over S) : ∀ n, I n ((w.act P a).peers n) := by
  cases a with
  | record i r at_ =>
    exact update_forall (Q := I) (hrecord i _ at_ r (hw i) hover) fun n _ => hw n
  | revocation i v =>
    exact update_forall (Q := I) (hrevocation i _ v (hw i) hover) fun n _ => hw n
  | gossip i j at_ =>
    have himport : ∀ n d e, I n d → Sound P S (recordKey P) e →
        I n (d.importState P e.exportState at_).1 := fun n d e hd he =>
      importState_keeps (fun d hd r hr => hrecord n d at_ r hd (he.exported.1 r hr))
        (fun d hd v hv => hrevocation n d v hd (he.exported.2 v hv)) hd
    have hd := himport i _ _ (hw i) (hI j _ (hw j))
    rw [World.act, gossipWith]
    simp only
    generalize (w.peers i).importState P (w.peers j).exportState at_ = left at hd ⊢
    obtain ⟨d, counts⟩ := left
    have hfirst : ∀ n, I n (Function.update w.peers i d n) :=
      update_forall (Q := I) hd fun n _ => hw n
    cases counts with
    | none => exact hfirst
    | some counts =>
      have he := himport j _ _ (hfirst j) (hI i _ (hw i))
      simp only
      generalize (Function.update w.peers i d j).importState P (w.peers i).exportState at_ = right
        at he ⊢
      obtain ⟨e, counts'⟩ := right
      have hsecond : ∀ n, I n (Function.update (Function.update w.peers i d) j e n) :=
        update_forall (Q := I) he fun n _ => hfirst n
      cases counts' <;> exact hsecond

theorem World.keeps_run (acts : List Act) (hI : ∀ n d, I n d → Sound P S (recordKey P) d)
    (hrecord : ∀ n d now r, I n d → r ∈ S.records → I n (d.ingestRecord P r now).1)
    (hrevocation : ∀ n d v, I n d → v ∈ S.revocations → I n (d.ingestRevocation P v).1)
    (hw : ∀ n, I n (w.peers n)) (hover : ∀ a ∈ acts, a.Over S) :
    ∀ n, I n ((w.run P acts).peers n) := by
  induction acts generalizing w with
  | nil => exact hw
  | cons a acts ih =>
    exact ih (World.keeps hI hrecord hrevocation hw (hover a List.mem_cons_self))
      fun b hb => hover b (List.mem_cons_of_mem _ hb)

/-- What a revocation covers stays covered by what is held of its key. -/
structure Revoked (P : Platform) (S : Items) (key : JsString) (v : Value) (d : Directory) : Prop where
  sound : Sound P S (recordKey P) d
  covered : ∃ w, Maps.get d.revocations key = some w ∧ ∀ r ∈ S.records,
    recordKey P r = some key → covers P v r = some true → covers P w r = some true

theorem Revoked.ingestRevocation (h : Orderly P S now) (hd : Revoked P S key v d) {a : Value}
    (ha : a ∈ S.revocations) : Revoked P S key v (d.ingestRevocation P a).1 := by
  obtain ⟨w, hw, hcovers⟩ := hd.covered
  refine ⟨hd.sound.ingestRevocation ha, ?_⟩
  rw [ingestRevocation_revocations, put, hw]
  by_cases hslot : revocationSlot P a = some key
  · rw [if_pos hslot, Registers.write]
    split
    · next hfollows =>
      obtain ⟨hmem, hkey⟩ := hd.sound.revocations.get hw
      exact ⟨a, rfl, fun r hr hrkey hv =>
        h.covers w hmem a ha r hr key hkey hslot hrkey hfollows (hcovers r hr hrkey hv)⟩
    · exact ⟨w, rfl, hcovers⟩
  · rw [if_neg hslot]
    exact ⟨w, rfl, hcovers⟩

theorem Revoked.ingestRecord (hd : Revoked P S key v d) (hr : r ∈ S.records) (now : ℤ) :
    Revoked P S key v (d.ingestRecord P r now).1 := by
  refine ⟨hd.sound.ingestRecord keys_any hr, ?_⟩
  rw [ingestRecord_revocations]
  exact hd.covered

/-- `find` gives no record that what is held of its key covers. -/
theorem find_uncovered {w : Value} (hd : Sound P S (recordKey P) d)
    (hfound : d.find P root now = some found) (hr : r ∈ found) (hkey : recordKey P r = some key)
    (hw : Maps.get d.revocations key = some w) :
    r ∈ S.records ∧ covers P w r = some false := by
  unfold Directory.find at hfound
  split at hfound
  · cases hfound
  · simp only at hfound
    split at hfound
    · cases hfound
    · cases hfound
      rw [List.mem_insertionSort, List.mem_map] at hr
      obtain ⟨entry, hentry, rfl⟩ := hr
      simp only [List.mem_filter, decide_eq_true_eq] at hentry
      obtain ⟨⟨hmem, -⟩, hrevoked⟩ := hentry
      obtain ⟨hin, hslot⟩ := hd.records.item entry hmem
      rw [hslot] at hkey
      rw [Option.some.inj hkey, hw] at hrevoked
      exact ⟨hin, hrevoked⟩

theorem Orderly.revoked (h : Orderly P S now) {past future : List Act}
    (hover : ∀ a ∈ past ++ future, a.Over S) {n : ℕ}
    (hheld : Maps.get ((World.new.run P past).peers n).revocations key = some v) {at_ : ℤ}
    (hfound : ((World.new.run P (past ++ future)).peers n).find P root at_ = some found)
    (hr : r ∈ found) (hkey : recordKey P r = some key) : Discovery.covers P v r ≠ some true := by
  have hpast : ∀ n, Sound P S (recordKey P) ((World.new.run P past).peers n) :=
    World.keeps_run (I := fun _ => Sound P S (recordKey P)) past (fun _ _ hd => hd)
      (fun _ _ _ _ hd hr => hd.ingestRecord keys_any hr) (fun _ _ _ hd hv => hd.ingestRevocation hv)
      (fun _ => sound_new) fun a ha => hover a (List.mem_append_left _ ha)
  -- From the past on, the directory has more than the others: what covers the record.
  have hfuture := World.keeps_run future
    (I := fun m d => Sound P S (recordKey P) d ∧ (m = n → Revoked P S key v d))
    (fun _ _ hd => hd.1)
    (fun _ _ at_ r hd hr =>
      ⟨hd.1.ingestRecord keys_any hr, fun hm => (hd.2 hm).ingestRecord hr at_⟩)
    (fun _ _ v hd hv => ⟨hd.1.ingestRevocation hv, fun hm => (hd.2 hm).ingestRevocation h hv⟩)
    (w := World.new.run P past)
    (fun m => ⟨hpast m, fun hm => hm ▸ ⟨hpast n, v, hheld, fun _ _ _ hcovers => hcovers⟩⟩)
    (fun a ha => hover a (List.mem_append_right _ ha)) n
  rw [World.run, List.foldl_append] at hfound
  obtain ⟨w, hw, hcovers⟩ := (hfuture.2 rfl).covered
  obtain ⟨hin, hfalse⟩ := find_uncovered hfuture.1 hfound hr hkey hw
  intro htrue
  rw [hcovers r hin hkey htrue] at hfalse
  cases hfalse

theorem Orderly.converges (h : Orderly P S now) : Converges P S now where
  same := by
    intro acts acts' hacts i j hfull hfull'
    have hnew : World.new.Informed P S now := fun _ => informed_new
    have hi := informed_run hnew (fun a ha => hacts a (List.mem_append_left _ ha)) i
    have hj := informed_run hnew (fun a ha => hacts a (List.mem_append_right acts ha)) j
    exact hi.same h hj (fun r hr => ⟨hfull.1 r hr, hfull'.1 r hr⟩)
      fun v hv => ⟨hfull.2 v hv, hfull'.2 v hv⟩
  exchange := fun acts hacts i j =>
    h.converges_exchange (informed_run (fun _ => informed_new) hacts) i j
  revoked := fun past future hover i key v hheld root at_ found hfound r hr hkey =>
    h.revoked hover hheld hfound hr hkey

/-! ### Items that converge are orderly -/

/-- An exchange that ends is two imports. -/
theorem gossipWith_inv {peers' : ℕ → Directory} {counts : (ℕ × ℕ) × (ℕ × ℕ)} (hij : i ≠ j)
    (h : gossipWith P peers i j now = (peers', some counts)) :
    (peers i).importState P (peers j).exportState now = (peers' i, some counts.1) ∧
      (peers j).importState P (peers i).exportState now = (peers' j, some counts.2) := by
  rw [gossipWith] at h
  simp only at h
  generalize hleft : (peers i).importState P (peers j).exportState now = left at h
  obtain ⟨d, left⟩ := left
  cases left with
  | none => cases h
  | some left =>
    simp only [Function.update_of_ne (Ne.symm hij)] at h
    generalize hright : (peers j).importState P (peers i).exportState now = right at h
    obtain ⟨e, right⟩ := right
    cases right with
    | none => cases h
    | some right =>
      cases h
      simp [Function.update_of_ne hij]

/-- Two directories of a run that hold an item of a key each: the exchange makes them equal. -/
theorem Converges.exchanged (h : Converges P S now) (hacts : ∀ a ∈ acts, a.Over S ∧ a.At now)
    (key : JsString) (a b : Value) :
    (Maps.get ((World.new.run P acts).peers 0).records key = some a →
      Maps.get ((World.new.run P acts).peers 1).records key = some b →
        Registers.write (replaces P) (some a) b = Registers.write (replaces P) (some b) a) ∧
    (Maps.get ((World.new.run P acts).peers 0).revocations key = some a →
      Maps.get ((World.new.run P acts).peers 1).revocations key = some b →
        Registers.write (follows P) (some a) b = Registers.write (follows P) (some b) a) := by
  have hw : (World.new.run P acts).Informed P S now := informed_run (fun _ => informed_new) hacts
  obtain ⟨peers, counts, hgossip, hsame, -⟩ := h.exchange acts hacts 0 1
  obtain ⟨hleft, hright⟩ := gossipWith_inv (by decide) hgossip
  generalize World.new.run P acts = w at *
  obtain ⟨done, done', -, -, hwrites, hwrites', hall⟩ := importState_writes (P := P)
    (w.peers 0) (w.peers 1).exportState.1 (w.peers 1).exportState.2 now
  have hpair : ∀ d : Directory, (d.exportState.1, d.exportState.2) = d.exportState := fun _ => rfl
  rw [hpair, hleft] at hwrites hwrites' hall
  obtain ⟨rfl, rfl⟩ := hall rfl
  obtain ⟨done, done', -, -, hwritesE, hwritesE', hall⟩ := importState_writes (P := P)
    (w.peers 1) (w.peers 0).exportState.1 (w.peers 0).exportState.2 now
  rw [hpair, hright] at hwritesE hwritesE' hall
  obtain ⟨rfl, rfl⟩ := hall rfl
  constructor
  · intro ha hb
    have hkey := (hsame key).1
    have hl := (hw 1).sound.records.lists.puts (replaces P) (Maps.get (w.peers 0).records) key
    have hr := (hw 0).sound.records.lists.puts (replaces P) (Maps.get (w.peers 1).records) key
    rw [hwrites, hwritesE] at hkey
    rw [ha, hb] at hl hr
    exact hl.symm.trans (hkey.trans hr)
  · intro ha hb
    have hkey := (hsame key).2
    have hl := (hw 1).sound.revocations.lists.puts (follows P) (Maps.get (w.peers 0).revocations) key
    have hr := (hw 0).sound.revocations.lists.puts (follows P) (Maps.get (w.peers 1).revocations) key
    rw [hwrites', hwritesE'] at hkey
    rw [ha, hb] at hl hr
    exact hl.symm.trans (hkey.trans hr)

/-- The first record of a key is held. -/
theorem get_ingestRecord (h : recordSlot P now r = some key) (hnone : Maps.get d.records key = none) :
    Maps.get (d.ingestRecord P r now).1.records key = some r := by
  rw [ingestRecord_records, put, if_pos h, hnone]
  rfl

theorem get_ingestRevocation (h : revocationSlot P v = some key)
    (hnone : Maps.get d.revocations key = none) :
    Maps.get (d.ingestRevocation P v).1.revocations key = some v := by
  rw [ingestRevocation_revocations, put, if_pos h, hnone]
  rfl

theorem Converges.records (h : Converges P S now) (hhonest : HonestRecords P S) :
    ∀ r ∈ S.records, ∀ r' ∈ S.records, ∀ key, recordSlot P now r = some key →
      recordSlot P now r' = some key → sequenceOf r = sequenceOf r' → r = r' := by
  intro r hr r' hr' key hslot hslot' hsequence
  have hkey := recordKey_of_slot hslot
  have hkey' := recordKey_of_slot hslot'
  have hid := hhonest r hr r' hr' key hkey hkey' hsequence
  obtain ⟨n, hn⟩ := (recordKey_some hkey).1.sequence
  obtain ⟨id, hstring⟩ := (recordKey_some hkey).1.recordId
  have hreplaces : replaces P r r' = true := by
    rw [replaces_number hn (hsequence ▸ hn), ← hid, hstring]
    simp [strictEq]
  have hreplaces' : replaces P r' r = true := by
    rw [replaces_number (hsequence ▸ hn) hn, ← hid, hstring]
    simp [strictEq]
  have hacts : ∀ a ∈ [Act.record 0 r now, .record 1 r' now], a.Over S ∧ a.At now := by
    simp [Act.Over, Act.At, hr, hr']
  have hwrites := (h.exchanged hacts key r r').1
    (by simpa [World.run, World.act] using get_ingestRecord hslot rfl)
    (by simpa [World.run, World.act] using get_ingestRecord hslot' rfl)
  rw [Registers.write, Registers.write, if_pos hreplaces, if_pos hreplaces'] at hwrites
  exact (Option.some.inj hwrites).symm

theorem Converges.oneWay (h : Converges P S now) (key : JsString) :
    OneWay (follows P) (slotted (revocationSlot P) {v | v ∈ S.revocations} key) := by
  refine OneWay.of_exchange ?_
  rintro v ⟨hv, hslot⟩ w ⟨hw, hslot'⟩
  have hacts : ∀ a ∈ [Act.revocation 0 v, .revocation 1 w], a.Over S ∧ a.At now := by
    have hv' : v ∈ S.revocations := hv
    have hw' : w ∈ S.revocations := hw
    simp [Act.Over, Act.At, hv', hw']
  exact (h.exchanged hacts key v w).2
    (by simpa [World.run, World.act] using get_ingestRevocation hslot rfl)
    (by simpa [World.run, World.act] using get_ingestRevocation hslot' rfl)

/-- A revocation that does not compare with the one that is held throws. -/
theorem ingestRevocation_threw {held : Value} (h : revocationSlot P v = some key)
    (hheld : Maps.get d.revocations key = some held)
    (hnone : Dht.atMost P.toLanguage (sequenceOf held) (sequenceOf v) = none) :
    d.ingestRevocation P v = (d, .threw) := by
  obtain ⟨hverified, hkey⟩ := revocationSlot_some h
  rw [Directory.ingestRevocation]
  simp only [hverified, hkey, hheld, hnone]

theorem Converges.compares (h : Converges P S now) : ∀ v ∈ S.revocations, ∀ key,
    revocationSlot P v = some key →
      (Dht.atMost P.toLanguage (sequenceOf v) (sequenceOf v)).isSome := by
  intro v hv key hslot
  by_contra hnot
  have hnone : Dht.atMost P.toLanguage (sequenceOf v) (sequenceOf v) = none := by simpa using hnot
  have hacts : ∀ a ∈ [Act.revocation 0 v, .revocation 1 v], a.Over S ∧ a.At now := by
    simp [Act.Over, Act.At, hv]
  obtain ⟨peers, counts, hgossip, -⟩ := h.exchange _ hacts 0 1
  have hone : (Directory.new.ingestRevocation P v).1 = ⟨[], [(key, v)]⟩ := ingestRevocation_some hslot
  have hpeers : ∀ n, n = 0 ∨ n = 1 →
      (World.new.run P [.revocation 0 v, .revocation 1 v]).peers n = ⟨[], [(key, v)]⟩ := by
    rintro n (rfl | rfl) <;> simpa [World.run, World.act, World.new] using hone
  obtain ⟨hleft, -⟩ := gossipWith_inv (by decide) hgossip
  rw [hpeers 0 (.inl rfl), hpeers 1 (.inr rfl)] at hleft
  have hthrew : (⟨[], [(key, v)]⟩ : Directory).ingestRevocation P v = (⟨[], [(key, v)]⟩, .threw) :=
    ingestRevocation_threw hslot (by simp [Maps.get_cons]) hnone
  simp [Directory.importState, Directory.exportState, importAll, hthrew] at hleft

/-- Records given to a directory change no revocation. -/
theorem run_records (now : ℤ) (w : World) (rs : List Value) :
    ((w.run P (rs.map fun r => .record 0 r now)).peers 0).revocations = (w.peers 0).revocations ∧
      (∀ r ∈ rs, r ∈ (w.run P (rs.map fun r => .record 0 r now)).records 0) ∧
      w.records 0 ⊆ (w.run P (rs.map fun r => .record 0 r now)).records 0 ∧
      (w.run P (rs.map fun r => .record 0 r now)).revocations = w.revocations := by
  induction rs generalizing w with
  | nil => exact ⟨rfl, fun _ h => (by cases h), fun _ h => h, rfl⟩
  | cons r rs ih =>
    obtain ⟨hsame, hgiven, hsub, hrevocations⟩ := ih (w.act P (.record 0 r now))
    have hrecords : (w.act P (.record 0 r now)).records 0 = w.records 0 ∪ {r} := by simp [World.act]
    rw [hrecords] at hsub
    refine ⟨?_, ?_, ?_, ?_⟩
    · rw [List.map_cons, World.run, List.foldl_cons]
      exact hsame.trans (by simp [World.act, ingestRecord_revocations])
    · rintro r' hr'
      rcases List.mem_cons.mp hr' with rfl | hr'
      · exact hsub (.inr rfl)
      · exact hgiven r' hr'
    · exact fun r' hr' => hsub (.inl hr')
    · exact hrevocations

/-- Revocations given to a directory are written. -/
theorem run_revocations (w : World) (vs : List Value) :
    Maps.get ((w.run P (vs.map (.revocation 0))).peers 0).revocations =
      vs.foldl (put (follows P) (revocationSlot P)) (Maps.get (w.peers 0).revocations) ∧
      (∀ v ∈ vs, v ∈ (w.run P (vs.map (.revocation 0))).revocations 0) ∧
      w.revocations 0 ⊆ (w.run P (vs.map (.revocation 0))).revocations 0 ∧
      (w.run P (vs.map (.revocation 0))).records = w.records := by
  induction vs generalizing w with
  | nil => exact ⟨rfl, fun _ h => (by cases h), fun _ h => h, rfl⟩
  | cons v vs ih =>
    obtain ⟨hsame, hgiven, hsub, hrecords⟩ := ih (w.act P (.revocation 0 v))
    have htaken : (w.act P (.revocation 0 v)).revocations 0 = w.revocations 0 ∪ {v} := by
      simp [World.act]
    rw [htaken] at hsub
    refine ⟨?_, ?_, ?_, ?_⟩
    · have hstep : Maps.get ((w.act P (.revocation 0 v)).peers 0).revocations =
          put (follows P) (revocationSlot P) (Maps.get (w.peers 0).revocations) v := by
        simp [World.act, ingestRevocation_revocations]
      rw [hstep] at hsame
      exact hsame
    · rintro v' hv'
      rcases List.mem_cons.mp hv' with rfl | hv'
      · exact hsub (.inr rfl)
      · exact hgiven v' hv'
    · exact fun v' hv' => hsub (.inl hv')
    · exact hrecords

/-- All records, the revocations of the other keys, and then these of one key. -/
def inOrder (P : Platform) (S : Items) (now : ℤ) (key : JsString) (vs : List Value) : List Act :=
  S.records.map (fun r => .record 0 r now) ++
    ((S.revocations.filter fun v => revocationSlot P v ≠ some key) ++ vs).map (.revocation 0)

theorem inOrder_full (now : ℤ) {vs : List Value}
    (hvs : ∀ v, v ∈ vs ↔ v ∈ S.revocations.filter fun v => revocationSlot P v = some key) :
    (∀ a ∈ inOrder P S now key vs, a.Over S ∧ a.At now) ∧
      (World.new.run P (inOrder P S now key vs)).Full S 0 ∧
      Maps.get ((World.new.run P (inOrder P S now key vs)).peers 0).revocations key =
        vs.foldl (Registers.write (follows P)) none := by
  obtain ⟨hsame, hgiven, -, -⟩ := run_records (P := P) now World.new S.records
  obtain ⟨hwrites, htaken, -, hrecords⟩ := run_revocations (P := P)
    (World.new.run P (S.records.map fun r => .record 0 r now))
    ((S.revocations.filter fun v => revocationSlot P v ≠ some key) ++ vs)
  have hrun : World.new.run P (inOrder P S now key vs) =
      (World.new.run P (S.records.map fun r => .record 0 r now)).run P
        (((S.revocations.filter fun v => revocationSlot P v ≠ some key) ++ vs).map
          (.revocation 0)) := by
    rw [inOrder, World.run, List.foldl_append]
    rfl
  refine ⟨?_, ⟨?_, ?_⟩, ?_⟩
  · intro a ha
    rcases List.mem_append.mp ha with ha | ha
    · obtain ⟨r, hr, rfl⟩ := List.mem_map.mp ha
      exact ⟨hr, rfl⟩
    · obtain ⟨v, hv, rfl⟩ := List.mem_map.mp ha
      rcases List.mem_append.mp hv with hv | hv
      · exact ⟨List.mem_of_mem_filter hv, trivial⟩
      · exact ⟨List.mem_of_mem_filter ((hvs v).mp hv), trivial⟩
  · intro r hr
    rw [hrun, hrecords]
    exact hgiven r hr
  · intro v hv
    rw [hrun]
    refine htaken v (List.mem_append.mpr ?_)
    by_cases hslot : revocationSlot P v = some key
    · exact .inr ((hvs v).mpr (List.mem_filter.mpr ⟨hv, by simpa using hslot⟩))
    · exact .inl (List.mem_filter.mpr ⟨hv, by simpa using hslot⟩)
  · have hother : ((S.revocations.filter fun v => revocationSlot P v ≠ some key).filter
        fun v => revocationSlot P v = some key) = [] := by
      rw [List.filter_filter]
      exact List.filter_eq_nil_iff.mpr fun v _ => by simp
    have hall : (vs.filter fun v => revocationSlot P v = some key) = vs :=
      List.filter_eq_self.mpr fun v hv => (List.mem_filter.mp ((hvs v).mp hv)).2
    rw [hrun, hwrites, Registers.puts_apply, List.filter_append, hother, hall, hsame]
    rfl

theorem Converges.last (h : Converges P S now) : ∀ key,
    (slotted (revocationSlot P) {v | v ∈ S.revocations} key).Nonempty →
      ∃ m, Top (follows P) (slotted (revocationSlot P) {v | v ∈ S.revocations} key) m := by
  rintro key ⟨v, hv, hslot⟩
  have hset : slotted (revocationSlot P) {v | v ∈ S.revocations} key =
      {a | a ∈ S.revocations.filter fun v => revocationSlot P v = some key} := by
    ext a
    simp [slotted]
  rw [hset]
  refine Registers.top_of_converges ?_ fun l l' hl hl' => ?_
  · exact List.ne_nil_of_mem (List.mem_filter.mpr ⟨hv, by simpa using hslot⟩)
  · obtain ⟨hacts, hfull, hget⟩ := inOrder_full (P := P) now hl
    obtain ⟨hacts', hfull', hget'⟩ := inOrder_full (P := P) now hl'
    have hsame := h.same _ _ (fun a ha => (List.mem_append.mp ha).elim (hacts a) (hacts' a)) 0 0
      hfull hfull'
    rw [← hget, ← hget']
    exact (hsame key).2

theorem Converges.covers (h : Converges P S now) : ∀ v ∈ S.revocations, ∀ w ∈ S.revocations,
    ∀ r ∈ S.records, ∀ key, revocationSlot P v = some key → revocationSlot P w = some key →
      recordKey P r = some key → follows P v w = true → Discovery.covers P v r = some true →
        Discovery.covers P w r = some true := by
  intro v hv w hw r hr key hslot hslot' hkey hfollows hcovers
  obtain ⟨hverified, hplacement, expires, hexpires⟩ := recordKey_some hkey
  have hlive : verifyPlacementRecord P r (expires - 1) false = .ok expires :=
    verify_at hexpires (.inr (by omega))
  have hrecord : recordSlot P (expires - 1) r = some key := by
    rw [recordSlot, if_pos (by rw [hlive]; rfl), hkey]
  obtain ⟨n, hn⟩ := hverified.sequence
  have hself : (Dht.atMost P.toLanguage (sequenceOf r) (sequenceOf r)).isSome := by
    rw [hn, Dht.atMost_number]
    rfl
  obtain ⟨b, hb⟩ : ∃ b, Discovery.covers P w r = some b :=
    Option.isSome_iff_exists.mp (Dht.atMost_isSome hself (h.compares w hw key hslot'))
  by_contra hnot
  obtain rfl : b = false := by
    cases b with
    | false => rfl
    | true => exact absurd hb hnot
  have hfirst : (Directory.new.ingestRecord P r (expires - 1)).1 = ⟨[(key, r)], []⟩ :=
    ingestRecord_some hrecord
  have hsecond : ((⟨[(key, r)], []⟩ : Directory).ingestRevocation P v).1 =
      ⟨[(key, r)], [(key, v)]⟩ := ingestRevocation_some hslot
  have hthird : ((⟨[(key, r)], [(key, v)]⟩ : Directory).ingestRevocation P w).1 =
      ⟨[(key, r)], [(key, w)]⟩ := by
    rw [ingestRevocation_some hslot']
    simp [Maps.get_cons, hfollows, Maps.set]
  have hpast : (World.new.run P [.record 0 r (expires - 1), .revocation 0 v]).peers 0 =
      ⟨[(key, r)], [(key, v)]⟩ := by
    simp [World.run, World.act, World.new, hfirst, hsecond]
  have hfuture : (World.new.run P ([.record 0 r (expires - 1), .revocation 0 v] ++
      [.revocation 0 w])).peers 0 = ⟨[(key, r)], [(key, w)]⟩ := by
    rw [World.run, List.foldl_append, List.foldl_cons, List.foldl_nil, ← World.run, World.act]
    simp [hpast, hthird]
  obtain ⟨root, hroot, hnormal⟩ := hverified.root
  have hfind : (⟨[(key, r)], [(key, w)]⟩ : Directory).find P root (expires - 1) = some [r] := by
    have hsame : strictEq (some (.string root)) (some (.string root)) = true := by simp [strictEq]
    have hok : (verifyPlacementRecord P r (expires - 1) false).isOk = true := by
      rw [hlive]
      rfl
    rw [Directory.find, hnormal]
    simp [hroot, hsame, hok, Maps.get_cons, hb]
  have hover : ∀ a ∈ [Act.record 0 r (expires - 1), .revocation 0 v] ++ [.revocation 0 w],
      a.Over S := by simp [Act.Over, hr, hv, hw]
  refine h.revoked _ _ hover 0 key v ?_ root (expires - 1) [r] ?_ r List.mem_cons_self hkey hcovers
  · rw [hpast]
    simp [Maps.get_cons]
  · rw [hfuture]
    exact hfind

/-- Gossip converges exactly for orderly items. -/
theorem gossip_converges (S : Items) (now : ℤ) (hhonest : HonestRecords P S) :
    Converges P S now ↔ Orderly P S now := by
  constructor
  · intro h
    exact ⟨h.records hhonest, h.compares, h.oneWay, h.last, h.covers⟩
  · exact Orderly.converges

/-- A placement of holder A, in the form in which it is signed. -/
def placedByA (sequence expiresAt : ℕ) : Value :=
  .object [(js "recordId", .string (js "truyn:placement:")),
    (js "body", .object [(js "protocol", .string (js "truyn-placement-v1")),
      (js "version", .number 1), (js "rootCid", .string (js "truyn:ctx:c")),
      (js "holderNodeId", .string (js "A")), (js "partitionIndex", .number 0),
      (js "partitionCount", .number 1), (js "blockCount", .number 3),
      (js "requestCapability", .string (js "context.distributed.truyn:ctx:c.0.A")),
      (js "sequence", .number sequence), (js "failureDomainCommitment", .null)]),
    (js "issuedAt", .string (js "1")), (js "expiresAt", .string (numeral expiresAt)),
    (js "publicKey", .string (js "A")), (js "signature", .string (js "s"))]

def revokedByA (sequence : ℕ) : Value :=
  .object [(js "revocationId", .string (js "truyn:placement-revoke:")),
    (js "body", .object [(js "protocol", .string (js "truyn-placement-revoke-v1")),
      (js "version", .number 1), (js "recordId", .string (js "truyn:placement:")),
      (js "rootCid", .string (js "truyn:ctx:c")), (js "holderNodeId", .string (js "A")),
      (js "partitionIndex", .number 0), (js "sequence", .number sequence),
      (js "reasonDigest", .null)]),
    (js "revokedAt", .string (js "2")), (js "publicKey", .string (js "A")),
    (js "signature", .string (js "s"))]

/-- A record, its next one, and the revocation of the first. -/
def succeeded : Items := ⟨[placedByA 1 50, placedByA 2 90], [revokedByA 1]⟩

theorem gossip_converges_succeeded :
    Converges Dht.plain succeeded 10 ∧
      recordSlot Dht.plain 10 (placedByA 1 50) = some (js "truyn:ctx:c|0|A") ∧
      recordSlot Dht.plain 10 (placedByA 2 90) = some (js "truyn:ctx:c|0|A") ∧
      revocationSlot Dht.plain (revokedByA 1) = some (js "truyn:ctx:c|0|A") := by
  have hhonest : HonestRecords Dht.plain succeeded := by
    intro r hr r' hr' key _ _ _
    simp only [succeeded, List.mem_cons, List.not_mem_nil, or_false] at hr hr'
    rcases hr with rfl | rfl <;> rcases hr' with rfl | rfl <;> rfl
  refine ⟨(gossip_converges succeeded 10 hhonest).mpr (orderly_of_numbers ?_ ?_ ?_), rfl, rfl, rfl⟩
  · intro r hr r' hr' key _ _ hsequence
    simp only [succeeded, List.mem_cons, List.not_mem_nil, or_false] at hr hr'
    rcases hr with rfl | rfl <;> rcases hr' with rfl | rfl
    · rfl
    · cases hsequence
    · cases hsequence
    · rfl
  · intro v hv
    simp only [succeeded, List.mem_cons, List.not_mem_nil, or_false] at hv
    subst hv
    exact ⟨1, rfl⟩
  · intro v hv w hw key _ _ _
    simp only [succeeded, List.mem_cons, List.not_mem_nil, or_false] at hv hw
    rw [hv, hw]

/-- The same body signed again, to expire later: one id, and one sequence. -/
def renewed : Items := ⟨[placedByA 1 50, placedByA 1 90], []⟩

theorem renewed_diverges : HonestRecords Dht.plain renewed ∧ ¬Converges Dht.plain renewed 10 := by
  have hhonest : HonestRecords Dht.plain renewed := by
    intro r hr r' hr' key _ _ _
    simp only [renewed, List.mem_cons, List.not_mem_nil, or_false] at hr hr'
    rcases hr with rfl | rfl <;> rcases hr' with rfl | rfl <;> rfl
  refine ⟨hhonest, fun h => ?_⟩
  have hsame := h.records hhonest (placedByA 1 50) (by simp [renewed]) (placedByA 1 90)
    (by simp [renewed]) (js "truyn:ctx:c|0|A") rfl rfl rfl
  have hexpires := congrArg (Value.get "expiresAt") hsame
  cases hexpires

end Truyn.Discovery
