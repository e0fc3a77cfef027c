import Truyn.Ledger.CosmosPerforms
import Truyn.Ledger.Effects

/-! ledger:agreement | the two ledgers cannot be told apart

    Both ledgers do what `perform` says about the record of a NEED, and `perform` does not look at
    clocks (`perform_timeless`). Their effect records are kept the same way, each adapter with its
    own checks. So ledgers that start empty and get the same valid calls, with clocks of their own,
    accept and refuse the same ones and show the same records, effects and pending events
    (`ledgers_agree`), as long as neither runs out of room. -/

namespace Truyn.Ledger
open Cas
open Cosmos (nonempty)

/-! ### Clocks do not matter -/

/-- An item without the time it was acknowledged at. -/
def OutboxItem.timeless (i : OutboxItem) : OutboxItem :=
  { i with acknowledgedAt := i.acknowledgedAt.map fun _ => 0 }

/-- A record without its times. -/
def Record.timeless (r : Record) : Record :=
  { r with
    createdAt := 0, terminalAt := r.terminalAt.map fun _ => 0,
    deliveries := r.deliveries.map OutboxItem.timeless }

@[simp] theorem OutboxItem.timeless_timeless (i : OutboxItem) : i.timeless.timeless = i.timeless := by
  simp [timeless, Function.comp_def]

/-- What a call answers and writes, without the times. -/
def told (x : Except Fault (Answer × Option Record)) : Except Fault (Answer × Option Record) :=
  x.map fun p => (p.1, p.2.map Record.timeless)

theorem told_map {x : Except Fault (List OutboxItem)}
    {f g : List OutboxItem → Answer × Option Record}
    (h : ∀ items, (f items).1 = (g items).1 ∧
      (f items).2.map Record.timeless = (g items).2.map Record.timeless) :
    told (x.map f) = told (x.map g) := by
  cases x with
  | error e => rfl
  | ok items =>
    obtain ⟨h₁, h₂⟩ := h items
    simp only [told, Except.map, h₁, h₂]

theorem execTransition_timeless (c : Transition) (now : Time) (r : Record) :
    told (execTransition c now r) = told (execTransition c 0 r.timeless) := by
  unfold execTransition
  by_cases hto : c.toStatus = .matched
  · rw [if_pos hto, if_pos hto]
  rw [if_neg hto, if_neg hto]
  by_cases hreq : Party c.requester r.requester
  swap
  · rw [if_pos hreq, if_pos (show ¬Party c.requester r.timeless.requester from hreq)]
  rw [if_neg (not_not.mpr hreq),
    if_neg (not_not.mpr (show Party c.requester r.timeless.requester from hreq))]
  by_cases hprov : Party c.provider r.provider
  swap
  · rw [if_pos hprov, if_pos (show ¬Party c.provider r.timeless.provider from hprov)]
  rw [if_neg (not_not.mpr hprov),
    if_neg (not_not.mpr (show Party c.provider r.timeless.provider from hprov))]
  by_cases hm : r.status = .matched
  swap
  · rw [if_pos hm, if_pos (show r.timeless.status ≠ .matched from hm)]
    rfl
  rw [if_neg (not_not.mpr hm), if_neg (not_not.mpr (show r.timeless.status = .matched from hm))]
  refine told_map (x := postTerminal c r) fun items => ⟨rfl, ?_⟩
  simp [Record.timeless, Function.comp_def]

theorem execPartial_timeless (c : Partial) (r : Record) :
    told (execPartial c r) = told (execPartial c r.timeless) := by
  unfold execPartial
  by_cases hprov : Party (some c.provider) r.provider
  swap
  · rw [if_pos hprov, if_pos (show ¬Party (some c.provider) r.timeless.provider from hprov)]
  rw [if_neg (not_not.mpr hprov),
    if_neg (not_not.mpr (show Party (some c.provider) r.timeless.provider from hprov))]
  by_cases hm : r.status = .matched
  swap
  · rw [if_pos hm, if_pos (show r.timeless.status ≠ .matched from hm)]
    rfl
  rw [if_neg (not_not.mpr hm), if_neg (not_not.mpr (show r.timeless.status = .matched from hm))]
  by_cases hknown : c.sequence = (r.partialSequence : ℤ) - 1 ∧ c.digest = r.partialDigest
  · rw [if_pos hknown, if_pos (show c.sequence = (r.timeless.partialSequence : ℤ) - 1 ∧
      c.digest = r.timeless.partialDigest from hknown)]
  rw [if_neg hknown, if_neg (show ¬(c.sequence = (r.timeless.partialSequence : ℤ) - 1 ∧
    c.digest = r.timeless.partialDigest) from hknown)]
  by_cases hseq : c.sequence = r.partialSequence
  swap
  · rw [if_pos hseq, if_pos (show c.sequence ≠ r.timeless.partialSequence from hseq)]
  rw [if_neg (not_not.mpr hseq),
    if_neg (not_not.mpr (show c.sequence = r.timeless.partialSequence from hseq))]
  refine told_map (x := postFrame c r) fun items => ⟨rfl, ?_⟩
  simp [Record.timeless, Function.comp_def]

theorem execAcknowledge_timeless (c : Acknowledgement) (now : Time) (r : Record) :
    told (execAcknowledge c now r) = told (execAcknowledge c 0 r.timeless) := by
  have hfind : (r.timeless.deliveries.find? fun i => i.eventId = c.eventId ∧
      i.recipient = c.recipient) = (r.deliveries.find? fun i => i.eventId = c.eventId ∧
      i.recipient = c.recipient).map OutboxItem.timeless := by
    simp only [Record.timeless, List.find?_map]
    rfl
  unfold execAcknowledge
  rw [hfind]
  cases r.deliveries.find? fun i => i.eventId = c.eventId ∧ i.recipient = c.recipient with
  | none => rfl
  | some i =>
    simp only [Option.map_some]
    have hack : i.timeless.acknowledgedAt.isSome = i.acknowledgedAt.isSome := by
      simp [OutboxItem.timeless]
    rw [hack]
    by_cases hi : i.acknowledgedAt.isSome = true
    · rw [if_pos hi, if_pos hi]
    · rw [if_neg hi, if_neg hi]
      simp only [told, Except.map, Option.map_some, Record.timeless, List.map_map]
      have hitems : r.deliveries.map (OutboxItem.timeless ∘ fun i =>
            if i.eventId = c.eventId then { i with acknowledgedAt := some now } else i) =
          r.deliveries.map (OutboxItem.timeless ∘ (fun i =>
            if i.eventId = c.eventId then { i with acknowledgedAt := some 0 } else i) ∘
              OutboxItem.timeless) := by
        refine List.map_congr_left fun j _ => ?_
        by_cases hj : j.eventId = c.eventId <;>
          simp [OutboxItem.timeless, hj, Function.comp_def]
      rw [hitems]
      simp [Function.comp_def]

/-- TIMELESS: a call answers and writes the same on records that differ in times only. -/
theorem perform_timeless (c : Call) (now : Time) (r : Option Record) :
    told (perform c now r) = told (perform c 0 (r.map Record.timeless)) := by
  unfold perform
  split
  · cases r with
    | none =>
      cases c with
      | reserveNeed c => exact told_map fun items => ⟨rfl, rfl⟩
      | _ => rfl
    | some r =>
      cases c with
      | reserveNeed c => rfl
      | transitionNeed c => exact execTransition_timeless c now r
      | acceptPartial c => exact execPartial_timeless c r
      | acknowledgeDelivery c => exact execAcknowledge_timeless c now r
  · rfl

/-- Two ledgers show the same records, but for the times. -/
def Alike (v u : View) : Prop := ∀ id, (v id).map Record.timeless = (u id).map Record.timeless

/-- The answer did not refuse for lack of room. -/
def Fits {α : Type} (x : Except Fault α) : Prop := ∀ f, x = .error f → f.full = false

variable {now now' : Time} {id recipient : JsString} {rows : Sqlite.Effects}
  {docs : JsString → Option Cosmos.EffectDoc} {cfg : Cosmos.EffectConfig}

variable {v : View} {r : Sqlite.EffectRow} {c : Finish} {maxRecords : ℕ}

/-- Ledgers that obey from alike records answer alike and stay alike. -/
theorem alike_of_obeys {c : Call} {u v' u' : View} {out out' : Except Fault Answer} (h : Alike v u)
    (hv : Obeys (perform c now (v id)) id v out v')
    (hu : Obeys (perform c now' (u id)) id u out' u') (hf : Fits out) (hf' : Fits out') :
    out.toOption = out'.toOption ∧ Alike v' u' := by
  have htold : told (perform c now (v id)) = told (perform c now' (u id)) := by
    rw [perform_timeless c now, perform_timeless c now', h id]
  cases hx : perform c now (v id) with
  | error f =>
    cases hy : perform c now' (u id) with
    | ok p => rw [hx, hy] at htold; cases htold
    | error g =>
      rw [hx] at hv
      rw [hy] at hu
      cases out with
      | ok a => exact hv.elim
      | error _ =>
        cases out' with
        | ok a => exact hu.elim
        | error _ =>
          obtain rfl : v' = v := hv
          obtain rfl : u' = u := hu
          exact ⟨rfl, h⟩
  | ok p =>
    cases hy : perform c now' (u id) with
    | error g => rw [hx, hy] at htold; cases htold
    | ok q =>
      obtain ⟨a, d⟩ := p
      obtain ⟨b, e⟩ := q
      rw [hx, hy] at htold
      simp only [told, Except.map, Except.ok.injEq, Prod.mk.injEq] at htold
      obtain ⟨rfl, hde⟩ := htold
      rw [hx] at hv
      rw [hy] at hu
      cases out with
      | error f =>
        have hfull : f.full = true := by cases d <;> exact hv.1
        exact absurd (hf f rfl) (by simp [hfull])
      | ok o =>
        cases out' with
        | error f =>
          have hfull : f.full = true := by cases e <;> exact hu.1
          exact absurd (hf' f rfl) (by simp [hfull])
        | ok o' =>
          cases d with
          | none =>
            cases e with
            | some e => cases hde
            | none =>
              obtain ⟨rfl, rfl⟩ := hv
              obtain ⟨rfl, rfl⟩ := hu
              exact ⟨rfl, h⟩
          | some d =>
            cases e with
            | none => cases hde
            | some e =>
              obtain ⟨rfl, rfl⟩ := hv
              obtain ⟨rfl, rfl⟩ := hu
              refine ⟨rfl, fun id' => ?_⟩
              by_cases hid : id' = id
              · subst hid
                rw [Function.update_self, Function.update_self]
                exact hde
              · rw [Function.update_of_ne hid, Function.update_of_ne hid]
                exact h id'

/-! ### Effects -/

/-- The arguments are strings of the lengths that both ledgers take; a count of tokens comes with a
    completed effect. -/
def EffectCall.Valid : EffectCall → Prop
  | .beginEffect c => [c.id, c.requester, c.provider, c.fingerprint].all nonempty = true
  | .finishEffect c => nonempty c.id = true ∧ Cosmos.invalidMeter c = false

/-- What both ledgers record of an effect. -/
structure Known where
  requester : JsString
  provider : JsString
  fingerprint : JsString
  status : EffectStatus
  deriving DecidableEq

def Sqlite.EffectRow.known (r : Sqlite.EffectRow) : Known :=
  ⟨r.requester, r.provider, r.fingerprint, r.status⟩

def Effect.known (e : Effect) : Known := ⟨e.requester, e.provider, e.fingerprint, e.status⟩

/-- The table and the documents record the same effects. -/
structure SameEffects (rows : Sqlite.Effects) (docs : JsString → Option Cosmos.EffectDoc) : Prop where
  known : ∀ id, (Sqlite.oneEffect rows id).map Sqlite.EffectRow.known =
    (docs id).map fun d => d.toEffect.known
  logicalId : ∀ id d, docs id = some d → d.logicalId = id

theorem packedEffect_cases (cfg : Cosmos.EffectConfig) (doc : Cosmos.EffectDoc) :
    Cosmos.packedEffect cfg doc = .error ⟨503, "lifecycle_document_capacity_reached"⟩ ∨
      Cosmos.packedEffect cfg doc = .ok doc := by
  unfold Cosmos.packedEffect
  split
  · exact .inl rfl
  · exact .inr rfl

/-- An answer that fits is no lack of room for a document. -/
theorem not_fits_full {α : Type} :
    ¬Fits (.error ⟨503, "lifecycle_document_capacity_reached"⟩ : Except Fault α) :=
  fun h => absurd (h _ rfl) (by decide)

theorem oneEffect_append (h : Sqlite.oneEffect rows r.id = none) :
    Sqlite.oneEffect (rows ++ [r]) id =
      if id = r.id then some r else Sqlite.oneEffect rows id := by
  rw [Sqlite.oneEffect, List.find?_append]
  split
  · next hid =>
    subst hid
    rw [show rows.find? (fun x => x.id = r.id) = none from h]
    simp
  · next hid =>
    have hr : [r].find? (fun x => x.id = id) = none := by simp [Ne.symm hid]
    rw [hr, Option.or_none]
    rfl

theorem oneEffect_update (hr : Sqlite.oneEffect rows c.id = some r) (hp : r.provider = c.provider)
    (hs : r.status = .started) (id : JsString) :
    (Sqlite.oneEffect (Sqlite.updateEffect c now rows) id).map Sqlite.EffectRow.known =
      if id = c.id then some { r.known with status := c.outcome }
      else (Sqlite.oneEffect rows id).map Sqlite.EffectRow.known := by
  have hid : r.id = c.id := by simpa using List.find?_some hr
  have hfind : Sqlite.oneEffect (Sqlite.updateEffect c now rows) id =
      (Sqlite.oneEffect rows id).map fun r =>
        if r.id = c.id ∧ r.provider = c.provider ∧ r.status = .started then
          { r with status := c.outcome, finished_at := some now } else r := by
    rw [Sqlite.oneEffect, Sqlite.updateEffect, List.find?_map]
    congr 2
    funext x
    simp only [Function.comp_apply]
    split <;> rfl
  rw [hfind, Option.map_map]
  split
  · next heq =>
    subst heq
    rw [hr, Option.map_some, Function.comp_apply, if_pos ⟨hid, hp, hs⟩]
    rfl
  · next hne =>
    cases hx : Sqlite.oneEffect rows id with
    | none => rfl
    | some x =>
      have hxid : x.id = id := by simpa using List.find?_some hx
      rw [Option.map_some, Option.map_some, Function.comp_apply, if_neg]
      rintro ⟨h, -, -⟩
      exact hne (hxid.symm.trans h)

theorem sameEffects_update {rows' : Sqlite.Effects} {d : Cosmos.EffectDoc}
    (h : SameEffects rows docs) (hd : d.logicalId = id)
    (hrows : ∀ id', (Sqlite.oneEffect rows' id').map Sqlite.EffectRow.known =
      if id' = id then some d.toEffect.known
      else (Sqlite.oneEffect rows id').map Sqlite.EffectRow.known) :
    SameEffects rows' (Function.update docs id (some d)) := by
  refine ⟨fun id' => ?_, fun id' e he => ?_⟩ <;> by_cases hid : id' = id
  · subst hid
    rw [hrows, if_pos rfl, Function.update_self]
    rfl
  · rw [hrows, if_neg hid, Function.update_of_ne hid]
    exact h.known id'
  · subst hid
    rw [Function.update_self] at he
    cases he
    exact hd
  · rw [Function.update_of_ne hid] at he
    exact h.logicalId _ _ he

theorem beginEffect_agree {c : Intent} (h : SameEffects rows docs)
    (hv : (EffectCall.beginEffect c).Valid) (hf : Fits (Sqlite.beginEffect maxRecords c now rows).1)
    (hf' : Fits (Cosmos.effectCall cfg (.beginEffect c) now' docs).1) :
    (Sqlite.beginEffect maxRecords c now rows).1.toOption =
        (Cosmos.effectCall cfg (.beginEffect c) now' docs).1.toOption ∧
      SameEffects (Sqlite.beginEffect maxRecords c now rows).2
        (Cosmos.effectCall cfg (.beginEffect c) now' docs).2 := by
  have hne : ∀ s ∈ [c.id, c.provider, c.requester, c.fingerprint], ¬s = [] := by
    intro s hs
    refine ne_nil_of_nonempty (List.all_eq_true.mp hv s ?_)
    simp only [List.mem_cons, List.not_mem_nil, or_false] at hs ⊢
    tauto
  have hany : ¬([c.id, c.provider, c.requester, c.fingerprint].any (· = [])) = true := by
    rw [List.any_eq_true]
    rintro ⟨s, hs, he⟩
    exact hne s hs (of_decide_eq_true he)
  have hk := h.known c.id
  unfold Sqlite.beginEffect at hf ⊢
  rw [if_neg hany] at hf ⊢
  unfold Cosmos.effectCall Client.perform at hf' ⊢
  have hall : [c.id, c.requester, c.provider, c.fingerprint].all nonempty = true := hv
  simp only [Cosmos.effectClient, Cosmos.effectPlan, Cosmos.effectKey, hall, Bool.not_true,
    Bool.false_eq_true, if_false] at hf' ⊢
  rcases packedEffect_cases cfg { c.effect now' with logicalId := c.id, version := 1 } with
    hpack | hpack
  · rw [hpack] at hf'
    exact absurd hf' not_fits_full
  · rw [hpack] at hf' ⊢
    simp only [Except.map] at hf' ⊢
    cases hrow : Sqlite.oneEffect rows c.id with
    | none =>
      rw [hrow] at hk hf
      cases hdoc : docs c.id with
      | some d => rw [hdoc] at hk; cases hk
      | none =>
        simp only at hf ⊢
        split
        · next hfull =>
          rw [if_pos hfull] at hf
          exact absurd (hf _ rfl) (by decide)
        · refine ⟨rfl, sameEffects_update h rfl fun id' => ?_⟩
          rw [oneEffect_append hrow]
          split <;> rfl
    | some r =>
      rw [hrow] at hk
      cases hdoc : docs c.id with
      | none => rw [hdoc] at hk; cases hk
      | some d =>
        rw [hdoc] at hk
        have hkd : r.known = d.toEffect.known := Option.some.inj hk
        have hm : c.matches r.requester r.provider r.fingerprint =
            c.matches d.requester d.provider d.fingerprint := by
          simp only [Sqlite.EffectRow.known, Effect.known, Known.mk.injEq] at hkd
          rw [hkd.1, hkd.2.1, hkd.2.2.1]
        simp only [hm, ne_eq, not_true_eq_false, if_false, hdoc]
        split
        · exact ⟨rfl, h⟩
        · exact ⟨rfl, h⟩

theorem finishEffect_agree (h : SameEffects rows docs) (hv : (EffectCall.finishEffect c).Valid)
    (hf' : Fits (Cosmos.effectCall cfg (.finishEffect c) now' docs).1) :
    (Sqlite.finishEffect c now rows).1.toOption =
        (Cosmos.effectCall cfg (.finishEffect c) now' docs).1.toOption ∧
      SameEffects (Sqlite.finishEffect c now rows).2
        (Cosmos.effectCall cfg (.finishEffect c) now' docs).2 := by
  obtain ⟨hid, hmeter⟩ := hv
  have hk := h.known c.id
  unfold Sqlite.finishEffect
  unfold Cosmos.effectCall Client.perform at hf' ⊢
  simp only [Cosmos.effectClient, Cosmos.effectPlan, Cosmos.effectKey, hid, hmeter, Bool.not_true,
    Bool.false_eq_true, if_false] at hf' ⊢
  cases hout : invalidOutcome c.outcome with
  | true => exact ⟨rfl, h⟩
  | false =>
    simp only [hout, Bool.false_eq_true, if_false] at hf' ⊢
    cases hrow : Sqlite.oneEffect rows c.id with
    | none =>
      rw [hrow] at hk
      cases hdoc : docs c.id with
      | some d => rw [hdoc] at hk; cases hk
      | none => exact ⟨rfl, h⟩
    | some r =>
      rw [hrow] at hk
      cases hdoc : docs c.id with
      | none => rw [hdoc] at hk; cases hk
      | some d =>
        rw [hdoc] at hk hf'
        have hkd : r.known = d.toEffect.known := Option.some.inj hk
        have hfields : r.provider = d.provider ∧ r.status = d.status := by
          simp only [Sqlite.EffectRow.known, Effect.known, Known.mk.injEq] at hkd
          exact ⟨hkd.2.1, hkd.2.2.2⟩
        have hlid := h.logicalId _ _ hdoc
        simp only [Cosmos.effectEdit, Cosmos.effectKey, hlid, ne_eq, not_true_eq_false, if_false,
          Cosmos.finish] at hf' ⊢
        by_cases hp : d.provider = c.provider
        swap
        · rw [if_pos hp, if_pos (hfields.1 ▸ hp)]
          exact ⟨rfl, h⟩
        rw [if_neg (not_not.mpr hp)] at hf' ⊢
        rw [if_neg (not_not.mpr (hfields.1.trans hp))]
        by_cases hs : d.status = .started
        swap
        · rw [if_pos hs, if_pos (hfields.2 ▸ hs)]
          exact ⟨rfl, h⟩
        rw [if_neg (not_not.mpr hs)] at hf' ⊢
        rw [if_neg (not_not.mpr (hfields.2.trans hs))]
        simp only at hf' ⊢
        rcases packedEffect_cases cfg { d with
            status := c.outcome, terminalAt := some now',
            observedTokens := if c.observedTokens.isSome then c.observedTokens else d.observedTokens,
            logicalId := c.id, version := d.version + 1 } with hpack | hpack
        · rw [hpack] at hf'
          exact absurd hf' not_fits_full
        · rw [hpack]
          refine ⟨rfl, sameEffects_update h rfl fun id' => ?_⟩
          rw [oneEffect_update hrow (hfields.1.trans hp) (hfields.2.trans hs)]
          split
          · rw [hkd]
            rfl
          · rfl

/-- Effect calls answer alike and keep the effects the same. -/
theorem effects_agree {c : EffectCall} (h : SameEffects rows docs) (hv : c.Valid)
    (hf : Fits (Sqlite.effectCall maxRecords c now rows).1)
    (hf' : Fits (Cosmos.effectCall cfg c now' docs).1) :
    (Sqlite.effectCall maxRecords c now rows).1.toOption =
        (Cosmos.effectCall cfg c now' docs).1.toOption ∧
      SameEffects (Sqlite.effectCall maxRecords c now rows).2
        (Cosmos.effectCall cfg c now' docs).2 := by
  cases c with
  | beginEffect c => exact beginEffect_agree h hv hf hf'
  | finishEffect c => exact finishEffect_agree h hv hf'

/-! ### Pending events -/

/-- An event that is still to be delivered. -/
structure PendingEvent where
  eventId : JsString
  kind : Kind
  requestId : JsString
  event : Event

/-- The pending events of a recipient in a ledger that shows these records. -/
def Pending (v : View) (recipient : JsString) (p : PendingEvent) : Prop :=
  ∃ id r, v id = some r ∧ ∃ i ∈ r.deliveries, i.recipient = recipient ∧ i.acknowledgedAt = none ∧
    ¬(i.kind = .NEED ∧ r.status ≠ .matched) ∧ p = ⟨i.eventId, i.kind, id, i.event⟩

/-- `selectOutbox`, without its limit: unacknowledged rows joined with the row of their NEED. -/
def Sqlite.pendingDeliveries (db : Sqlite.Db) (recipient : JsString) : List PendingEvent :=
  (db.lifecycle_outbox.filter fun e => e.recipient = recipient ∧ e.acknowledged_at = none ∧
    db.lifecycle_needs.any fun n => n.id = e.request_id ∧ (e.kind ≠ .NEED ∨ n.status = .matched)).map
      fun e => ⟨e.event_id, e.kind, e.request_id, e.event_json⟩

/-- What the query of `pendingDeliveries` finds, page after page, without its limit. -/
def Cosmos.PendingDelivery (docs : Cosmos.Docs) (recipient : JsString) (p : PendingEvent) : Prop :=
  ∃ key doc, docs key = some doc ∧ ∃ d ∈ doc.deliveries, d.recipient = recipient ∧
    d.acknowledgedAt = none ∧ ¬(d.kind = .NEED ∧ doc.status ≠ .matched) ∧
      p = ⟨d.eventId, d.kind, doc.logicalId, d.event⟩

variable {p : PendingEvent}

theorem Sqlite.mem_pendingDeliveries {db : Sqlite.Db} (ht : Sqlite.Tidy db) :
    p ∈ Sqlite.pendingDeliveries db recipient ↔ Pending db.view recipient p := by
  unfold Sqlite.pendingDeliveries Pending
  constructor
  · intro h
    obtain ⟨e, he, rfl⟩ := List.mem_map.mp h
    obtain ⟨hmem, hc⟩ := List.mem_filter.mp he
    obtain ⟨hr, hack, hany⟩ := of_decide_eq_true hc
    obtain ⟨n, hn, hc⟩ := List.any_eq_true.mp hany
    obtain ⟨hid, hkind⟩ := of_decide_eq_true hc
    have hrow : db.row e.request_id = some n := by
      obtain ⟨m, hm⟩ : ∃ m, db.row e.request_id = some m := by
        rw [← Option.isSome_iff_exists, Sqlite.Db.row, List.find?_isSome]
        exact ⟨n, hn, by simpa using hid⟩
      rw [hm, List.inj_on_of_nodup_map ht.key (List.mem_of_find?_eq_some hm) hn
        ((Sqlite.row_id hm).trans hid.symm)]
    refine ⟨e.request_id, _, Sqlite.view_of_row hrow, e.item,
      List.mem_map_of_mem (List.mem_filter.mpr ⟨hmem, by simp⟩), hr, hack, ?_, rfl⟩
    rintro ⟨hneed, hst⟩
    rcases hkind with hk | hk
    · exact hk hneed
    · exact hst hk
  · rintro ⟨id, r, hv, i, hi, hr, hack, hkind, rfl⟩
    obtain ⟨row, hrow, rfl⟩ := Option.map_eq_some_iff.mp hv
    obtain ⟨e, he, rfl⟩ := List.mem_map.mp hi
    obtain ⟨hmem, hid⟩ := List.mem_filter.mp he
    have hid : e.request_id = id := of_decide_eq_true hid
    subst hid
    refine List.mem_map.mpr ⟨e, List.mem_filter.mpr ⟨hmem, decide_eq_true ⟨hr, hack, ?_⟩⟩, rfl⟩
    refine List.any_eq_true.mpr ⟨row, List.mem_of_find?_eq_some hrow,
      decide_eq_true ⟨Sqlite.row_id hrow, ?_⟩⟩
    by_cases hn : e.kind = .NEED
    · exact .inr (not_not.mp fun hst => hkind ⟨hn, hst⟩)
    · exact .inl hn

theorem Cosmos.pendingDelivery_iff {docs : Cosmos.Docs} (ht : Cosmos.Tidy docs) :
    Cosmos.PendingDelivery docs recipient p ↔ Pending (Cosmos.recordsOf docs) recipient p := by
  constructor
  · rintro ⟨id, doc, hd, d, hmem, hr, hack, hkind, rfl⟩
    exact ⟨id, doc.toRecord, by rw [Cosmos.recordsOf, hd]; rfl, d, hmem, hr, hack, hkind, by
      rw [ht.logicalId _ _ hd]⟩
  · rintro ⟨id, r, hv, i, hi, hr, hack, hkind, rfl⟩
    obtain ⟨doc, hd, rfl⟩ := Option.map_eq_some_iff.mp hv
    exact ⟨id, doc, hd, i, hi, hr, hack, hkind, by rw [ht.logicalId _ _ hd]⟩

/-- Alike records have the same events pending. -/
theorem pending_alike {u : View} (h : Alike v u) (hp : Pending v recipient p) :
    Pending u recipient p := by
  obtain ⟨id, r, hv, i, hi, hr, hack, hkind, rfl⟩ := hp
  have hid := h id
  rw [hv, Option.map_some] at hid
  obtain ⟨r', hu, hrr⟩ := Option.map_eq_some_iff.mp hid.symm
  have hst : r'.timeless.status = r.timeless.status := by rw [hrr]
  have hmem : i.timeless ∈ r'.deliveries.map OutboxItem.timeless := by
    have hd := congrArg Record.deliveries hrr
    simp only [Record.timeless] at hd
    rw [hd]
    exact List.mem_map_of_mem hi
  obtain ⟨j, hj, hji⟩ := List.mem_map.mp hmem
  simp only [OutboxItem.timeless, OutboxItem.mk.injEq] at hji
  obtain ⟨hid', hrec, hk, hev, hat⟩ := hji
  refine ⟨id, r', hu, j, hj, hrec.trans hr, ?_, ?_, ?_⟩
  · rw [hack] at hat
    simpa using hat
  · rw [hk, show r'.status = r.status from hst]
    exact hkind
  · rw [hid', hk, hev]

/-! ### Both ledgers under the same calls -/

inductive Operation
  | need (c : Call)
  | effect (c : EffectCall)

inductive Outcome
  | need (a : Answer)
  | effect (a : EffectAnswer)
  deriving DecidableEq

/-- A call with valid arguments, whatever it asks for. -/
def Operation.Valid : Operation → Prop
  | .need c => c.Valid
  | .effect c => c.Valid

/-- The options of the two ledgers. -/
structure Options where
  maxRecords : ℕ
  needs : Cosmos.Config
  effects : Cosmos.EffectConfig

/-- The tables of the single-host ledger. -/
structure Tables where
  needs : Sqlite.Db
  effects : Sqlite.Effects

def Tables.empty : Tables := ⟨.empty, []⟩

def Tables.call (opts : Options) (o : Operation) (now : Time) (t : Tables) :
    Except Fault Outcome × Tables :=
  match o with
  | .need c =>
    let result := Sqlite.call opts.maxRecords true c now t.needs
    (result.1.map fun r => .need r.answer, { t with needs := result.2 })
  | .effect c =>
    let result := Sqlite.effectCall opts.maxRecords c now t.effects
    (result.1.map .effect, { t with effects := result.2 })

/-- The documents of the multi-host ledger. -/
structure Documents where
  needs : Cosmos.Docs
  effects : JsString → Option Cosmos.EffectDoc

def Documents.empty : Documents := ⟨fun _ => none, fun _ => none⟩

def Documents.call (opts : Options) (o : Operation) (now : Time) (s : Documents) :
    Except Fault Outcome × Documents :=
  match o with
  | .need c =>
    let result := Cosmos.call opts.needs c now s.needs
    (result.1.map .need, { s with needs := result.2 })
  | .effect c =>
    let result := Cosmos.effectCall opts.effects c now s.effects
    (result.1.map .effect, { s with effects := result.2 })

/-- What the two ledgers hold after the same valid calls, each by its own clock, that neither of
    them refused for lack of room. -/
inductive Together (opts : Options) : Tables → Documents → Prop
  | start : Together opts .empty .empty
  | call {t : Tables} {s : Documents} {o : Operation} {now now' : Time} : Together opts t s →
      o.Valid → Fits (t.call opts o now).1 → Fits (s.call opts o now').1 →
      Together opts (t.call opts o now).2 (s.call opts o now').2

/-- The ledgers answer the next call alike, and show the same statuses, counters and events. -/
structure Indistinguishable (opts : Options) (t : Tables) (s : Documents) : Prop where
  answers : ∀ (o : Operation) (now now' : Time), o.Valid → Fits (t.call opts o now).1 →
    Fits (s.call opts o now').1 →
    (t.call opts o now).1.toOption = (s.call opts o now').1.toOption
  status : ∀ id, (t.needs.row id).map Sqlite.NeedRow.status = (s.needs id).map fun d => d.status
  counter : ∀ id, (t.needs.row id).map Sqlite.NeedRow.partial_sequence =
    (s.needs id).map fun d => d.partialSequence
  effects : ∀ id, (Sqlite.oneEffect t.effects id).map Sqlite.EffectRow.status =
    (s.effects id).map fun d => d.status
  pending : ∀ recipient p,
    p ∈ Sqlite.pendingDeliveries t.needs recipient ↔ Cosmos.PendingDelivery s.needs recipient p

/-- The relation between the two ledgers that every call keeps. -/
structure Simulates (t : Tables) (s : Documents) : Prop where
  rows : Sqlite.Tidy t.needs
  docs : Cosmos.Tidy s.needs
  records : Alike t.needs.view (Cosmos.recordsOf s.needs)
  effects : SameEffects t.effects s.effects

theorem fits_of_map {α β : Type} {f : α → β} {x : Except Fault α} (h : Fits (x.map f)) : Fits x :=
  fun e he => h e (by rw [he]; rfl)

theorem toOption_map {α β γ : Type} {f : α → γ} {g : β → γ} {x : Except Fault α} {y : Except Fault β}
    {h : α → β} (hg : ∀ a, f a = g (h a)) (hxy : (x.map h).toOption = y.toOption) :
    (x.map f).toOption = (y.map g).toOption := by
  cases x with
  | error e =>
    cases y with
    | error e' => rfl
    | ok b => cases hxy
  | ok a =>
    cases y with
    | error e' => cases hxy
    | ok b =>
      obtain rfl : h a = b := Option.some.inj hxy
      exact congrArg some (hg a)

variable {opts : Options} {t : Tables} {s : Documents}

/-- One call of both ledgers: the same outcome, and they stay in step. -/
theorem simulates_call {o : Operation} (h : Simulates t s) (hv : o.Valid)
    (hf : Fits (t.call opts o now).1) (hf' : Fits (s.call opts o now').1) :
    (t.call opts o now).1.toOption = (s.call opts o now').1.toOption ∧
      Simulates (t.call opts o now).2 (s.call opts o now').2 := by
  cases o with
  | need c =>
    obtain ⟨hrows, hdocs, hrec, heff⟩ := h
    have hq := Sqlite.call_obeys opts.maxRecords now hrows hv
    have hc := Cosmos.call_obeys opts.needs now' hdocs hv
    have hfit : Fits ((Sqlite.call opts.maxRecords true c now t.needs).1.map Sqlite.Reply.answer) := by
      intro f hx
      refine hf f ?_
      simp only [Tables.call]
      cases hr : (Sqlite.call opts.maxRecords true c now t.needs).1 with
      | error e => rw [hr] at hx; cases hx; rfl
      | ok r => rw [hr] at hx; cases hx
    obtain ⟨hout, hrec'⟩ := alike_of_obeys hrec hq.1 hc.1 hfit (fits_of_map hf')
    exact ⟨toOption_map (fun _ => rfl) hout, hq.2, hc.2, hrec', heff⟩
  | effect c =>
    obtain ⟨hrows, hdocs, hrec, heff⟩ := h
    obtain ⟨hout, heff'⟩ := effects_agree heff hv (fits_of_map hf) (fits_of_map hf')
    refine ⟨toOption_map (h := id) (fun _ => rfl) ?_, hrows, hdocs, hrec, heff'⟩
    rw [← hout]
    cases (Sqlite.effectCall opts.maxRecords c now t.effects).1 <;> rfl

theorem simulates_of_together (h : Together opts t s) : Simulates t s := by
  induction h with
  | start =>
    refine ⟨Sqlite.tidy_empty, ⟨?_, ?_⟩, fun _ => rfl, ⟨fun _ => rfl, ?_⟩⟩
    · intro _ _ h
      cases h
    · intro _ _ h
      cases h
    · intro _ _ h
      cases h
  | call _ hv hf hf' ih => exact (simulates_call ih hv hf hf').2

/-- AGREE: after the same calls, the single-host and the multi-host ledger cannot be told apart. -/
theorem ledgers_agree {opts : Options} {t : Tables} {s : Documents} (h : Together opts t s) :
    Indistinguishable opts t s := by
  have hs := simulates_of_together h
  have hfield : ∀ {α : Type} (f : Record → α), (∀ r : Record, f r.timeless = f r) → ∀ id,
      (t.needs.view id).map f = (Cosmos.recordsOf s.needs id).map f := by
    intro α f hf id
    have hid := congrArg (Option.map f) (hs.records id)
    rw [Option.map_map, Option.map_map] at hid
    have hcomp : f ∘ Record.timeless = f := funext hf
    rwa [hcomp] at hid
  refine ⟨fun o now now' hv hf hf' => (simulates_call hs hv hf hf').1, ?_, ?_, ?_, ?_⟩
  · intro id
    have := hfield Record.status (fun _ => rfl) id
    rw [Sqlite.Db.view, Cosmos.recordsOf, Option.map_map, Option.map_map] at this
    exact this
  · intro id
    have := hfield Record.partialSequence (fun _ => rfl) id
    rw [Sqlite.Db.view, Cosmos.recordsOf, Option.map_map, Option.map_map] at this
    exact this
  · intro id
    have := congrArg (Option.map Known.status) (hs.effects.known id)
    rw [Option.map_map, Option.map_map] at this
    exact this
  · intro recipient p
    rw [Sqlite.mem_pendingDeliveries hs.rows, Cosmos.pendingDelivery_iff hs.docs]
    exact ⟨pending_alike hs.records, pending_alike fun id => (hs.records id).symm⟩

/-! ### Arguments that only one ledger looks at -/

def roomy : Options := ⟨10, ⟨100000, 256, 5, fun _ => 0⟩, ⟨100000, 5, fun _ => 0⟩⟩

/-- A reservation that comes with the paid authorization `p`. -/
def paidBy (p : Option PaidAuthorization) : Reservation :=
  ⟨js "n", js "r", js "p", js "f", js "c", js "fast", js "r", js "d", p, none⟩

/-- An authorization that makes the requester pay. -/
def foreign : PaidAuthorization :=
  ⟨js "truyn.paid.need/1", js "authorized", js "r", js "p", js "c", js "r", js "provider-owner", 7⟩

def effectIntent : Intent := ⟨js "n", js "r", js "p", js "f"⟩

/-- The single-host ledger looks neither at a paid authorization nor at a count of tokens; the
    multi-host ledger refuses the wrong ones. -/
theorem told_apart :
    ((Tables.empty.call roomy (.need (.reserveNeed (paidBy (some foreign)))) 0).1 =
        .ok (.need .reserved) ∧
      (Documents.empty.call roomy (.need (.reserveNeed (paidBy (some foreign)))) 0).1 =
        .error ⟨403, "paid_need_authorization_invalid"⟩) ∧
    (((Tables.empty.call roomy (.effect (.beginEffect effectIntent)) 0).2.call roomy
        (.effect (.finishEffect ⟨js "n", js "p", .failed, some 5⟩)) 1).1 =
        .ok (.effect (.finished true)) ∧
      ((Documents.empty.call roomy (.effect (.beginEffect effectIntent)) 0).2.call roomy
        (.effect (.finishEffect ⟨js "n", js "p", .failed, some 5⟩)) 1).1 =
        .error ⟨400, "invalid_effect_meter"⟩) :=
  ⟨⟨rfl, rfl⟩, rfl, rfl⟩

/-- Ledgers with one NEED that nobody pays for. -/
theorem one_need_agree : Indistinguishable roomy
    (Tables.empty.call roomy (.need (.reserveNeed (paidBy none))) 0).2
    (Documents.empty.call roomy (.need (.reserveNeed (paidBy none))) 7).2 :=
  ledgers_agree (.call .start ⟨by decide, by decide, by decide⟩ (fun f h => by cases h)
    (fun f h => by cases h))

end Truyn.Ledger
