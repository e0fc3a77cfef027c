import Truyn.Ledger.OutboxRoom

/-! ledger:outbox-acks | acknowledging the events of an outbox in any order

    In a sound document an acknowledgement finds its event, changes nothing else, and fits: a date
    takes 22 bytes more than `null`, the version may get one more digit, and 24 bytes were kept for
    it. -/

namespace Truyn.Ledger.Outbox
open Async Cas Cosmos

/-! ### The item an acknowledgement is about -/

theorem find_item {l : List OutboxItem} (hk : (l.map OutboxItem.eventId).Nodup) {i : OutboxItem}
    (hi : i ∈ l) : (l.find? fun x => x.eventId = i.eventId) = some i := by
  induction l with
  | nil => cases hi
  | cons j l ih =>
    rw [List.map_cons, List.nodup_cons] at hk
    rcases List.mem_cons.mp hi with rfl | hi
    · rw [List.find?_cons_of_pos (by simp)]
    · have hne : j.eventId ≠ i.eventId := fun h => hk.1 (h ▸ List.mem_map_of_mem hi)
      rw [List.find?_cons_of_neg (by simpa using hne), ih hk.2 hi]

variable {id e : JsString} {l : List OutboxItem} {i : OutboxItem} {now : Time} {s : StoredNeed}
  {L : Limits}

/-- Different items have different ids. -/
theorem Listed.inj (hl : Listed id l) {j : OutboxItem} (hi : i ∈ l) (hj : j ∈ l)
    (h : j.eventId = i.eventId) : j = i := by
  have hf := find_item hl.keys hj
  rw [h, find_item hl.keys hi] at hf
  exact (Option.some.inj hf).symm

/-- An acknowledgement sets the date of its item and leaves the others alone. -/
theorem acknowledge_eq_map (hk : (l.map OutboxItem.eventId).Nodup) (e : JsString) (now : Time) :
    acknowledge e now l =
      l.map fun j => if j.eventId = e then { j with acknowledgedAt := some now } else j := by
  induction l with
  | nil => rfl
  | cons j l ih =>
    rw [List.map_cons, List.nodup_cons] at hk
    rw [acknowledge, List.map_cons]
    split
    · next hj =>
      have hrest : ∀ x ∈ l, x.eventId ≠ e := by
        rintro x hx rfl
        exact hk.1 (hj ▸ List.mem_map_of_mem hx)
      congr 1
      refine (List.map_id l).symm.trans (List.map_congr_left fun x hx => ?_)
      rw [if_neg (hrest x hx), id]
    · rw [ih hk.2]

/-! ### Sizes -/

theorem byteLength_dateText_none : byteLength (dateText none) = 4 := by decide

theorem byteLength_dateText_some (now : Clock) : byteLength (dateText (some now.time)) = 26 :=
  byteLength_date now.fourDigits

/-- A date takes 22 bytes more than `null`. -/
theorem byteLength_itemText {hash : JsString → JsString} {compactedAt : JsString → Option Time}
    (hi : i.acknowledgedAt = none) (now : Clock) :
    byteLength (itemText hash compactedAt { i with acknowledgedAt := some now.time }) =
      byteLength (itemText hash compactedAt i) + 22 := by
  have hnone := byteLength_dateText_none
  have hsome := byteLength_dateText_some now
  have hrep := byteLength_replace (itemHead (compactedAt i.eventId).isSome i)
    (((compactedAt i.eventId).map (compaction hash i)).getD []) (js "acknowledgedAt")
    (dateText none) (dateText (some now.time))
  have hold : itemText hash compactedAt i = object (itemHead (compactedAt i.eventId).isSome i ++
      (js "acknowledgedAt", dateText none) ::
        ((compactedAt i.eventId).map (compaction hash i)).getD []) := by
    rw [itemText, hi]
  have hnew : itemText hash compactedAt { i with acknowledgedAt := some now.time } =
      object (itemHead (compactedAt i.eventId).isSome i ++
        (js "acknowledgedAt", dateText (some now.time)) ::
          ((compactedAt i.eventId).map (compaction hash i)).getD []) := rfl
  rw [hold, hnew]
  omega

/-- What the acknowledgement of a pending item adds to a sum over the outbox. -/
theorem sum_acknowledge {f : OutboxItem → ℕ} {k : ℕ}
    (hf : ∀ i : OutboxItem, i.acknowledgedAt = none →
      f { i with acknowledgedAt := some now } = f i + k)
    (h : (l.find? fun x => x.eventId = e) = some i) (hi : i.acknowledgedAt = none) :
    ((acknowledge e now l).map f).sum = (l.map f).sum + k := by
  induction l with
  | nil => cases h
  | cons j l ih =>
    rw [acknowledge]
    by_cases hj : j.eventId = e
    · rw [List.find?_cons_of_pos (by simpa using hj)] at h
      cases h
      rw [if_pos hj, List.map_cons, List.map_cons, List.sum_cons, List.sum_cons, hf _ hi]
      omega
    · rw [List.find?_cons_of_neg (by simpa using hj)] at h
      rw [if_neg hj, List.map_cons, List.map_cons, List.sum_cons, List.sum_cons, ih h]
      omega

theorem pendings_acknowledge (now : Time) (h : (l.find? fun x => x.eventId = e) = some i)
    (hi : i.acknowledgedAt = none) :
    pendings (acknowledge e now l) + 1 = pendings l := by
  induction l with
  | nil => cases h
  | cons j l ih =>
    rw [acknowledge]
    by_cases hj : j.eventId = e
    · rw [List.find?_cons_of_pos (by simpa using hj)] at h
      cases h
      rw [if_pos hj, pendings, pendings, List.countP_cons_of_neg (by simp),
        List.countP_cons_of_pos (by simp [hi])]
    · rw [List.find?_cons_of_neg (by simpa using hj)] at h
      have ih' := ih h
      unfold pendings at ih' ⊢
      rw [if_neg hj, List.countP_cons, List.countP_cons]
      omega

/-- The document after an acknowledgement. -/
def acked (s : StoredNeed) (e : JsString) (now : Time) : StoredNeed :=
  { s with version := s.version + 1, deliveries := acknowledge e now s.deliveries }

theorem byteLength_numeral (n : ℕ) : byteLength (numeral n) = (numeral n).length :=
  byteLength_ascii fun u hu => UInt16.lt_of_le_of_lt (numeral_digits n u hu).2 (by decide)

theorem ne_nil_of_find (h : (l.find? fun x => x.eventId = e) = some i) : l ≠ [] := by
  rintro rfl
  cases h

theorem acknowledge_ne_nil (h : l ≠ []) :
    acknowledge e now l ≠ [] := by
  cases l with
  | nil => exact absurd rfl h
  | cons i l =>
    rw [acknowledge]
    split <;> exact List.cons_ne_nil _ _

theorem byteLength_items (hash : JsString → JsString) (compactedAt : JsString → Option Time)
    (h : (l.find? fun x => x.eventId = e) = some i) (hi : i.acknowledgedAt = none) (now : Clock) :
    byteLength (array ((acknowledge e now.time l).map (itemText hash compactedAt))) =
      byteLength (array (l.map (itemText hash compactedAt))) + 22 := by
  have hne : l ≠ [] := ne_nil_of_find h
  have hsum := sum_acknowledge (k := 22) (f := fun j => byteLength (itemText hash compactedAt j) + 1)
    (fun j hj => by rw [byteLength_itemText hj now]) h hi
  rw [byteLength_array (by simpa using acknowledge_ne_nil hne),
    byteLength_array (by simpa using hne), List.map_map, List.map_map]
  exact (congrArg (1 + ·) hsum).trans (Nat.add_assoc _ _ _).symm

/-- An acknowledgement makes a document at most 23 bytes longer. -/
theorem byteLength_acked (hash : JsString → JsString)
    (h : (s.deliveries.find? fun x => x.eventId = e) = some i) (hi : i.acknowledgedAt = none)
    (now : Clock) :
    byteLength (text hash (acked s e now.time)) ≤ byteLength (text hash s) + 23 := by
  have hver := length_numeral_succ s.version
  let items (l : List OutboxItem) : JsString := array (l.map (itemText hash s.payloadCompactedAt))
  have hitems : byteLength (items (acknowledge e now.time s.deliveries)) =
      byteLength (items s.deliveries) + 22 := byteLength_items hash s.payloadCompactedAt h hi now
  let usage := s.recoveredUsage.toList.map fun u => (js "recoveredUsage", u)
  -- first the version, then the outbox
  have hversion := byteLength_replace (idMembers hash s)
    (stateMembers s ++ (js "deliveries", items s.deliveries) :: usage) (js "version")
    (numeral s.version) (numeral (s.version + 1))
  have houtbox := byteLength_replace
    (idMembers hash s ++ (js "version", numeral (s.version + 1)) :: stateMembers s) usage
    (js "deliveries") (items s.deliveries) (items (acknowledge e now.time s.deliveries))
  rw [List.append_assoc, List.append_assoc, List.cons_append, List.cons_append] at houtbox
  rw [byteLength_numeral, byteLength_numeral] at hversion
  have hnew : text hash (acked s e now.time) = object (idMembers hash s ++
      (js "version", numeral (s.version + 1)) :: (stateMembers s ++
        (js "deliveries", items (acknowledge e now.time s.deliveries)) :: usage)) := rfl
  have hold : text hash s = object (idMembers hash s ++ (js "version", numeral s.version) ::
      (stateMembers s ++ (js "deliveries", items s.deliveries) :: usage)) := rfl
  rw [hnew, hold]
  omega

/-! ### One acknowledgement -/

/-- `acknowledgeDelivery` for an item, by its own id and recipient. -/
def acknowledgement (i : OutboxItem) : Request :=
  .ledger (.acknowledgeDelivery ⟨i.eventId, i.recipient⟩) []

theorem key_acknowledgement (hs : Sound L id s) (hi : i ∈ s.deliveries) :
    needOfEvent i.eventId = .ok id ∧ key (acknowledgement i) = id := by
  have ha := hs.listed.items i hi
  have hid : nonempty id = true := (of_decide_eq_true hs.valid).1
  have hneed : needOfEvent i.eventId = .ok id := by
    rw [ha.eventId]
    exact needOfEvent_eventId hid ha.named
  refine ⟨hneed, ?_⟩
  show (needOfEvent i.eventId).toOption.getD [] = id
  rw [hneed]
  rfl

/-- The ledger takes the acknowledgement to the document of its NEED. -/
theorem plan_acknowledgement (hs : Sound L id s) (hi : i ∈ s.deliveries) (now : Clock) :
    plan L (acknowledgement i) now = .ok none := by
  obtain ⟨hneed, hkey⟩ := key_acknowledgement hs hi
  have ha := hs.listed.items i hi
  have hev : nonempty i.eventId = true := by
    rw [ha.eventId]
    exact nonempty_eventId hs.valid ha.named ha.safe
  have hkey' : Cosmos.key (.acknowledgeDelivery ⟨i.eventId, i.recipient⟩) = id := hkey
  have hargs : arguments (.acknowledgeDelivery ⟨i.eventId, i.recipient⟩) = .ok () := by
    rw [arguments, if_neg (by simp [hev, ha.recipient]), hneed]
    rfl
  simp only [plan, acknowledgement, Cosmos.plan, hargs, hkey', hs.valid, if_true]
  rfl

/-- An acknowledgement sets the date of its item, unless it has one, and always fits. -/
theorem edit_acknowledgement (hs : Sound L id s) (hi : i ∈ s.deliveries) (now : Clock) :
    edit L (acknowledgement i) now s =
      .ok (if i.acknowledgedAt.isSome then none else some (acked s i.eventId now.time)) := by
  obtain ⟨-, hkey⟩ := key_acknowledgement hs hi
  have hkey' : Cosmos.key (.acknowledgeDelivery ⟨i.eventId, i.recipient⟩) = id := hkey
  have hfind := find_item hs.listed.keys hi
  have hcb : callback (config L s.toExtras) now.time s.toDoc
      (.acknowledgeDelivery ⟨i.eventId, i.recipient⟩) = if i.acknowledgedAt.isSome then .ok none
        else .ok (some { s.toDoc with
          deliveries := acknowledge i.eventId now.time s.deliveries }) := by
    simp only [callback, acknowledgeDelivery, hfind]
    rw [if_neg (by simp)]
  have hdoc : ¬s.logicalId ≠ Cosmos.key (.acknowledgeDelivery ⟨i.eventId, i.recipient⟩) :=
    not_not.mpr (hs.logicalId.trans hkey'.symm)
  simp only [edit, acknowledgement, Cosmos.edit]
  rw [if_neg hdoc, hcb]
  cases hack : i.acknowledgedAt with
  | some t => rfl
  | none =>
    have hsize := byteLength_acked L.hash hfind hack now
    have hpend := pendings_acknowledge now.time hfind hack
    have hfits := hs.fits
    have hpk : packed (config L s.toExtras) (acked s i.eventId now.time).toDoc =
        .ok (acked s i.eventId now.time).toDoc := by
      refine if_neg ?_
      show ¬L.maxDocumentBytes < byteLength (text L.hash (acked s i.eventId now.time)) +
        pendings (acknowledge i.eventId now.time s.deliveries) * 24 + 128
      omega
    show Except.map (Option.map fun d => (⟨d, s.toExtras⟩ : StoredNeed)) (Except.map some
      (packed (config L s.toExtras) (acked s i.eventId now.time).toDoc)) = _
    rw [hpk]
    rfl

/-! ### Acknowledgements in any order -/

/-- Acknowledgements one after the other. -/
def acknowledgeAll (L : Limits) : List (Acknowledgement × Clock) → StoredNeed →
    Except Fault StoredNeed
  | [], s => .ok s
  | (a, now) :: l, s =>
    match edit L (.ledger (.acknowledgeDelivery a) []) now s with
    | .error f => .error f
    | .ok none => acknowledgeAll L l s
    | .ok (some s') => acknowledgeAll L l s'

/-- The acknowledgement is about an item of the outbox. -/
def Held (l : List OutboxItem) (a : Acknowledgement) : Prop :=
  ∃ i ∈ l, i.eventId = a.eventId ∧ i.recipient = a.recipient

theorem sound_acked (hs : Sound L id s) (hi : i ∈ s.deliveries) (hack : i.acknowledgedAt = none)
    (now : Clock) :
    Sound L id (acked s i.eventId now.time) := by
  have hadm : (client L).Admits (acknowledgement i) := ⟨now, plan_acknowledgement hs hi now⟩
  have hedit := edit_acknowledgement hs hi now
  rw [hack] at hedit
  exact sound_edit hs hadm hedit

theorem held_acked {a : Acknowledgement} (h : Held s.deliveries a) :
    Held (acked s e now).deliveries a := by
  obtain ⟨i, hi, he, hr⟩ := h
  have hmem : i.pending ∈ (acked s e now).deliveries.map OutboxItem.pending := by
    show i.pending ∈ (acknowledge e now s.deliveries).map OutboxItem.pending
    rw [map_acknowledge]
    exact List.mem_map_of_mem hi
  obtain ⟨j, hj, hji⟩ := List.mem_map.mp hmem
  obtain ⟨hid, hrec, -⟩ : j.eventId = i.eventId ∧ j.recipient = i.recipient ∧ j.kind = i.kind ∧
      j.event = i.event := by
    simpa [OutboxItem.pending] using hji
  exact ⟨j, hj, hid.trans he, hrec.trans hr⟩

/-- The outbox after acknowledgements in some order: the items of `acks` have a date, those that are
    not in it are as they were, and nothing else about any item has changed. -/
structure Acknowledged (acks : List (Acknowledgement × Clock)) (l l' : List OutboxItem) : Prop where
  dated : ∀ i ∈ l', (∃ a ∈ acks, a.1.eventId = i.eventId) → i.acknowledgedAt.isSome = true
  others : ∀ i ∈ l, (∀ a ∈ acks, a.1.eventId ≠ i.eventId) → i ∈ l'
  same : l'.map OutboxItem.pending = l.map OutboxItem.pending
  kept : ∀ i ∈ l, i.acknowledgedAt.isSome = true → i ∈ l'

theorem acknowledged_nil (l : List OutboxItem) : Acknowledged [] l l where
  dated := by
    rintro i - ⟨a, ha, -⟩
    cases ha
  others := fun _ hi _ => hi
  same := rfl
  kept := fun _ hi _ => hi

/-- In a sound document any acknowledgements succeed, in any order. -/
theorem acknowledgeAll_ok (acks : List (Acknowledgement × Clock)) (hs : Sound L id s)
    (hheld : ∀ a ∈ acks, Held s.deliveries a.1) :
    ∃ s', acknowledgeAll L acks s = .ok s' ∧ Sound L id s' ∧
      Acknowledged acks s.deliveries s'.deliveries := by
  induction acks generalizing s with
  | nil => exact ⟨s, rfl, hs, acknowledged_nil _⟩
  | cons p acks ih =>
    obtain ⟨⟨e, r⟩, now⟩ := p
    obtain ⟨i, hi, rfl, rfl⟩ := hheld _ List.mem_cons_self
    have hrest : ∀ a ∈ acks, Held s.deliveries a.1 := fun a ha => hheld a (List.mem_cons_of_mem _ ha)
    have hedit := edit_acknowledgement hs hi now
    rw [acknowledgement] at hedit
    rw [acknowledgeAll, hedit]
    cases hack : i.acknowledgedAt with
    | some t =>
      obtain ⟨s', hall, hs', hd⟩ := ih hs hrest
      refine ⟨s', hall, hs', ⟨?_, ?_, hd.same, hd.kept⟩⟩
      · rintro j hj ⟨a, ha, hja⟩
        rcases List.mem_cons.mp ha with rfl | ha
        · -- the item had a date already, and kept it
          have hi' : i ∈ s'.deliveries := hd.kept i hi (by rw [hack]; rfl)
          obtain rfl := hs'.listed.inj hi' hj hja.symm
          rw [hack]
          rfl
        · exact hd.dated j hj ⟨a, ha, hja⟩
      · exact fun j hj hne => hd.others j hj fun a ha => hne a (List.mem_cons_of_mem _ ha)
    | none =>
      obtain ⟨s', hall, hs', hd⟩ := ih (sound_acked hs hi hack now) fun a ha => held_acked (hrest a ha)
      have hmap : (acked s i.eventId now.time).deliveries = s.deliveries.map fun j =>
          if j.eventId = i.eventId then { j with acknowledgedAt := some now.time } else j :=
        acknowledge_eq_map hs.listed.keys _ _
      refine ⟨s', hall, hs', ⟨?_, ?_, ?_, ?_⟩⟩
      · rintro j hj ⟨a, ha, hja⟩
        rcases List.mem_cons.mp ha with rfl | ha
        · have hmem : { i with acknowledgedAt := some now.time } ∈
              (acked s i.eventId now.time).deliveries := by
            rw [hmap]
            exact List.mem_map.mpr ⟨i, hi, if_pos rfl⟩
          have hkept := hd.kept _ hmem rfl
          obtain rfl := hs'.listed.inj hkept hj hja.symm
          rfl
        · exact hd.dated j hj ⟨a, ha, hja⟩
      · intro j hj hne
        refine hd.others j ?_ fun a ha => hne a (List.mem_cons_of_mem _ ha)
        rw [hmap]
        refine List.mem_map.mpr ⟨j, hj, if_neg fun h => ?_⟩
        exact hne _ List.mem_cons_self h.symm
      · rw [hd.same]
        exact map_acknowledge _ _ _
      · intro j hj hdate
        refine hd.kept j ?_ hdate
        rw [hmap]
        refine List.mem_map.mpr ⟨j, hj, if_neg fun h => ?_⟩
        obtain rfl := hs.listed.inj hi hj h
        rw [hack] at hdate
        cases hdate

/-! ### Every run -/

/-- NEVER UN-ACKABLE: in every run of any replicas, each event of the outbox that a document holds is
    acknowledged by its own id. The id names this very NEED and this very event, the write changes
    nothing but the event's date and fits, and any number of the events can be acknowledged in any
    order. -/
theorem deliveries_acknowledgeable {L : Limits}
    {s : Sys (Cas.World JsString Request Clock StoredNeed Fault)
      (Cas.Task Request Clock StoredNeed)}
    (h : Runs (machine L) free Cas.init s) {id : JsString}
    {v : Version Request Clock StoredNeed} (hv : (s.shared.docs id).head? = some v) :
    (∀ i ∈ v.doc.deliveries, ∀ now : Clock,
      needOfEvent i.eventId = .ok id ∧ i.eventId = eventId i.kind id i.event ∧
      (∀ j ∈ v.doc.deliveries, j.eventId = i.eventId → j = i) ∧
      key (acknowledgement i) = id ∧ plan L (acknowledgement i) now = .ok none ∧
      edit L (acknowledgement i) now v.doc =
        .ok (if i.acknowledgedAt.isSome then none else some (acked v.doc i.eventId now.time)) ∧
      (acked v.doc i.eventId now.time).deliveries = v.doc.deliveries.map fun j =>
        if j.eventId = i.eventId then { j with acknowledgedAt := some now.time } else j) ∧
    ∀ acks : List (Acknowledgement × Clock), (∀ a ∈ acks, Held v.doc.deliveries a.1) →
      ∃ doc, acknowledgeAll L acks v.doc = .ok doc ∧
        Acknowledged acks v.doc.deliveries doc.deliveries ∧
        byteLength (text L.hash doc) ≤ L.maxDocumentBytes := by
  have hs : Sound L id v.doc := sound_of_runs h id v (List.mem_of_mem_head? hv)
  refine ⟨fun i hi now => ?_, fun acks hheld => ?_⟩
  · obtain ⟨hneed, hkey⟩ := key_acknowledgement hs hi
    exact ⟨hneed, (hs.listed.items i hi).eventId, fun j hj => hs.listed.inj hi hj, hkey,
      plan_acknowledgement hs hi now, edit_acknowledgement hs hi now,
      acknowledge_eq_map hs.listed.keys _ _⟩
  · obtain ⟨doc, hall, hdoc, hacks⟩ := acknowledgeAll_ok acks hs hheld
    have hfits := hdoc.fits
    exact ⟨doc, hall, hacks, by omega⟩

/-! ### A first NEED -/

def epoch : Clock := ⟨0, by decide⟩

def spacious : Limits := ⟨4096, 8, 5, fun _ => js "00"⟩

def firstNeed : Reservation :=
  ⟨js "a:1", js "r", js "p", js "f", js "c", js "m", js "s", js "d", none,
    some ⟨js "p", .NEED, some ⟨.NEED, none, none, js "\x7b\x7d"⟩⟩⟩

def firstItem : OutboxItem :=
  ⟨js "need:a:1", js "p", .NEED, ⟨.NEED, none, none, js "\x7b\x7d"⟩, none⟩

def firstDoc : StoredNeed :=
  ⟨{ freshDoc firstNeed 0 with deliveries := [firstItem] }, fresh (js "null")⟩

theorem first_fits : ¬(config spacious firstDoc.toExtras).maxDocumentBytes <
    (config spacious firstDoc.toExtras).bytes firstDoc.toDoc +
      (firstDoc.deliveries.countP fun x => x.acknowledgedAt = none) * 24 + 128 := by
  decide +kernel

theorem plan_first :
    plan spacious (.ledger (.reserveNeed firstNeed) (js "null")) epoch = .ok (some firstDoc) := by
  have hpk : packed (config spacious firstDoc.toExtras) firstDoc.toDoc = .ok firstDoc.toDoc := by
    unfold packed
    exact if_neg first_fits
  have hres : reserveNeed (config spacious (fresh (js "null"))) firstNeed epoch.time =
      .ok firstDoc.toDoc := by
    unfold reserveNeed
    rw [if_neg (by decide), if_neg (by decide)]
    have happ : appendDelivery (config spacious (fresh (js "null"))) (freshDoc firstNeed epoch.time)
        firstNeed.delivery .NEED firstNeed.provider = .ok firstDoc.toDoc := rfl
    rw [happ]
    exact hpk
  simp only [plan, Cosmos.plan]
  rw [hres]
  rfl

/-- A NEED with a colon in its id is reserved; its one event can be acknowledged. -/
theorem first_acknowledgeable :
    ∃ s, Runs (machine spacious) free Cas.init s ∧
      (s.shared.docs (js "a:1")).head? =
        some ⟨.ledger (.reserveNeed firstNeed) (js "null"), epoch, firstDoc⟩ ∧
      edit spacious (acknowledgement firstItem) epoch firstDoc =
        .ok (some (acked firstDoc (js "need:a:1") 0)) := by
  have hcall : step (machine spacious) Cas.init
      (none, .call (.ledger (.reserveNeed firstNeed) (js "null")) epoch) = some ⟨Cas.init.shared,
        [.creating (.ledger (.reserveNeed firstNeed) (js "null")) epoch firstDoc true]⟩ := by
    simp [step, pick, machine, Cas.machine, client, plan_first, Cas.init]
  have hexec : step (machine spacious) ⟨Cas.init.shared,
      [.creating (.ledger (.reserveNeed firstNeed) (js "null")) epoch firstDoc true]⟩
      (some 0, .execute none) = some ⟨execCreate (client spacious) Cas.init.shared
        (.ledger (.reserveNeed firstNeed) (js "null")) epoch firstDoc true, []⟩ := by
    simp [step, pick, machine, Cas.machine]
  have hruns : Runs (machine spacious) free Cas.init _ :=
    .tail (.tail (.refl _) (fun _ _ => trivial) hcall) (fun _ _ => trivial) hexec
  have hdocs : ((execCreate (client spacious) Cas.init.shared
      (.ledger (.reserveNeed firstNeed) (js "null")) epoch firstDoc true).docs (js "a:1")).head? =
        some ⟨.ledger (.reserveNeed firstNeed) (js "null"), epoch, firstDoc⟩ := by
    have hkey : js "a:1" = (client spacious).key (.ledger (.reserveNeed firstNeed) (js "null")) := rfl
    rw [execCreate, hkey]
    simp [Cas.init]
  refine ⟨_, hruns, hdocs, ?_⟩
  exact ((deliveries_acknowledgeable hruns hdocs).1 firstItem (List.mem_singleton.mpr rfl)
    epoch).2.2.2.2.2.1

end Truyn.Ledger.Outbox
