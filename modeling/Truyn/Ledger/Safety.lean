import Truyn.Ledger.Need

/-! ledger:safety | the abstract ledger keeps its promises

    Along every lineage of record versions: one reservation, at most one departure from `matched`, a
    terminal status that never changes, and an outbox that mirrors the record (`Outbox`,
    `Streamed`). The invariants are kept from version to version (`outbox_edit`, `streamed_edit`)
    and hold of whole histories (`safe_of_lineage`). -/

namespace Truyn.Ledger
open Cas

/-- How many events of a kind the outbox has. -/
def Record.count (r : Record) (k : Kind) : ℕ := r.deliveries.countP fun i => i.kind = k

/-- The sequence numbers of the PARTIAL events, in the order they were accepted. -/
def Record.sequences (r : Record) : List (Option ℤ) :=
  (r.deliveries.filter fun i => i.kind = .PARTIAL).map fun i => i.event.sequence

/-- The outbox mirrors the record: one NEED, one announcement of the terminal status. -/
structure Outbox (r : Record) : Prop where
  need : r.count .NEED ≤ 1
  terminal : r.count .RESULT + r.count .REVOKE ≤ 1
  result : 0 < r.count .RESULT → r.status = .completed
  revoke : 0 < r.count .REVOKE → r.status = .cancelled
  known : ∀ i ∈ r.deliveries, ∀ s, i.kind ≠ .other s

/-- The PARTIAL events carry exactly the accepted sequence numbers, in order. -/
def Streamed (r : Record) : Prop :=
  r.sequences = (List.range r.partialSequence).map fun n : ℕ => some (n : ℤ)

/-- How often the record left `matched`. -/
def departures : History → ℕ
  | v :: u :: l =>
    (if u.doc.status = .matched ∧ v.doc.status ≠ .matched then 1 else 0) + departures (u :: l)
  | _ => 0

/-- What the versions of one record promise. -/
structure Safe (l : History) : Prop where
  reserved : l.countP (fun v => v.call.reserves) ≤ 1
  left : departures l ≤ 1
  terminal : l.Pairwise fun new old => old.doc.status ≠ .matched → new.doc.status = old.doc.status
  outbox : ∀ v ∈ l, Outbox v.doc
  streamed : (∀ v ∈ l, v.call.delivers) → ∀ v ∈ l, Streamed v.doc

variable {id recipient : JsString} {r r' : Record} {kind : Kind} {d : Option Delivery}
  {items : List OutboxItem} {c : Call} {t : Time}

/-! ### What a call adds to the outbox -/

theorem Posts.length_le (h : Posts id kind recipient d items) : items.length ≤ 1 := by
  cases h <;> simp

theorem Posts.kind_eq (h : Posts id kind recipient d items) : ∀ i ∈ items, i.kind = kind := by
  cases h <;> simp

theorem Posts.length_eq (h : Posts id kind recipient d items) (hd : d.isSome) :
    items.length = 1 := by
  cases h
  · cases hd
  · rfl

/-- Items of one kind count for that kind only. -/
theorem countP_of_kind (h : ∀ i ∈ items, i.kind = kind) (k : Kind) :
    items.countP (fun i => i.kind = k) = if kind = k then items.length else 0 := by
  split
  · next hk =>
    rw [List.countP_eq_length]
    intro i hi
    simp [h i hi, hk]
  · next hk =>
    rw [List.countP_eq_zero]
    intro i hi
    simp [h i hi, hk]

/-- Acknowledging changes no count. -/
theorem countP_of_pending {items' : List OutboxItem}
    (h : items.map OutboxItem.pending = items'.map OutboxItem.pending) (k : Kind) :
    items.countP (fun i => i.kind = k) = items'.countP (fun i => i.kind = k) := by
  have hp : ∀ l : List OutboxItem, (l.map OutboxItem.pending).countP (fun i => i.kind = k) =
      l.countP (fun i => i.kind = k) := fun l => by
    rw [List.countP_map]; rfl
  rw [← hp items, ← hp items', h]

/-- Acknowledging changes no sequence number. -/
theorem sequences_of_pending
    (h : items.map OutboxItem.pending = r.deliveries.map OutboxItem.pending) :
    Record.sequences { r with deliveries := items } = r.sequences := by
  have hp : ∀ l : List OutboxItem,
      ((l.map OutboxItem.pending).filter fun i => i.kind = .PARTIAL).map (fun i => i.event.sequence)
        = (l.filter fun i => i.kind = .PARTIAL).map fun i => i.event.sequence := fun l => by
    rw [List.filter_map, List.map_map]; rfl
  rw [Record.sequences, Record.sequences, ← hp items, ← hp r.deliveries, h]

/-! ### Creations -/

theorem outbox_create (h : Creates c t r) : Outbox r := by
  cases h with
  | reserveNeed hp =>
    have hk := hp.kind_eq
    have hl := hp.length_le
    refine ⟨?_, ?_, ?_, ?_, ?_⟩ <;>
      simp [Record.count, Reservation.record, countP_of_kind hk, hl]
    intro i hi s
    simp [hk i hi]

theorem streamed_create (h : Creates c t r) : Streamed r := by
  cases h with
  | reserveNeed hp =>
    have hk := hp.kind_eq
    simp only [Streamed, Record.sequences, Reservation.record, List.range_zero, List.map_nil,
      List.map_eq_nil_iff, List.filter_eq_nil_iff]
    intro i hi
    simp [hk i hi]

theorem create_reserves (h : Creates c t r) :
    c.reserves = true ∧ r.status = .matched := by
  cases h with
  | reserveNeed _ => exact ⟨rfl, rfl⟩

/-! ### Edits -/

/-- The items a transition adds are of the kind that announces its status. -/
theorem announces_kind {c : Transition} (h : c.announces r items) :
    items = [] ∨ items.length ≤ 1 ∧
      ((∀ i ∈ items, i.kind = .RESULT) ∧ c.toStatus = .completed ∨
        (∀ i ∈ items, i.kind = .REVOKE) ∧ c.toStatus = .cancelled) := by
  unfold Transition.announces at h
  split at h
  · next hc => exact Or.inr ⟨h.length_le, Or.inl ⟨h.kind_eq, hc⟩⟩
  · next hc => exact Or.inr ⟨h.length_le, Or.inr ⟨h.kind_eq, hc⟩⟩
  · exact Or.inl h

/-- Every edit keeps the outbox a mirror of the record. -/
theorem outbox_edit (h : Edits c t r r') (ho : Outbox r) :
    Outbox r' := by
  obtain ⟨hneed, hterm, hres, hrev, hknown⟩ := ho
  cases h with
  | acceptPartial hm hseq hp hs =>
    have hk := hp.kind_eq
    refine ⟨?_, ?_, ?_, ?_, ?_⟩ <;>
      simp only [Record.count, List.countP_append, countP_of_kind hk, reduceCtorEq, if_false,
        Nat.add_zero, List.mem_append] at *
    · exact hneed
    · exact hterm
    · exact hres
    · exact hrev
    · rintro i (hi | hi) s
      · exact hknown i hi s
      · simp [hk i hi]
  | @transitionNeed c t r items hm hne ha =>
    -- a matched record has announced nothing yet
    have hr0 : r.count .RESULT = 0 := by
      rcases Nat.eq_zero_or_pos (r.count .RESULT) with h0 | h0
      · exact h0
      · simp [hres h0] at hm
    have hv0 : r.count .REVOKE = 0 := by
      rcases Nat.eq_zero_or_pos (r.count .REVOKE) with h0 | h0
      · exact h0
      · simp [hrev h0] at hm
    simp only [Record.count] at hneed hr0 hv0
    rcases announces_kind ha with rfl | ⟨hl, ⟨hk, hto⟩ | ⟨hk, hto⟩⟩
    · refine ⟨?_, ?_, ?_, ?_, ?_⟩ <;>
        simp [Record.count, List.append_nil, hneed, hr0, hv0]
      exact fun i hi s => hknown i hi s
    · refine ⟨?_, ?_, ?_, ?_, ?_⟩ <;>
        simp [Record.count, List.countP_append, countP_of_kind hk, hneed, hr0, hv0, hl, hto]
      rintro i (hi | hi) s
      · exact hknown i hi s
      · simp [hk i hi]
    · refine ⟨?_, ?_, ?_, ?_, ?_⟩ <;>
        simp [Record.count, List.countP_append, countP_of_kind hk, hneed, hr0, hv0, hl, hto]
      rintro i (hi | hi) s
      · exact hknown i hi s
      · simp [hk i hi]
  | @acknowledgeDelivery c t r items hp =>
    have hc : ∀ k, Record.count { r with deliveries := items } k = r.count k :=
      countP_of_pending hp
    refine ⟨by rw [hc]; exact hneed, by rw [hc, hc]; exact hterm, by rw [hc]; exact hres,
      by rw [hc]; exact hrev, ?_⟩
    intro i hi s
    have : i.pending ∈ r.deliveries.map OutboxItem.pending :=
      hp ▸ List.mem_map_of_mem hi
    obtain ⟨j, hj, hji⟩ := List.mem_map.mp this
    have hkind : i.kind = j.kind := (congrArg OutboxItem.kind hji).symm
    rw [hkind]
    exact hknown j hj s

/-- An edit by a call that delivers keeps the PARTIAL events in step with the counter. -/
theorem streamed_edit (h : Edits c t r r') (hd : c.delivers = true) (hs : Streamed r) :
    Streamed r' := by
  cases h with
  | @acceptPartial c t r items hm hseq hp hi =>
    have hk := hp.kind_eq
    obtain ⟨i, rfl⟩ := List.length_eq_one_iff.mp (hp.length_eq hd)
    simp only [List.mem_singleton, forall_eq] at hk hi
    simp only [Streamed, Record.sequences, List.filter_append, List.map_append, List.range_succ,
      List.map_cons, List.map_nil] at hs ⊢
    rw [hs]
    simp [hk, hi, hseq]
  | @transitionNeed c t r items hm hne ha =>
    have hnone : items.filter (fun i => i.kind = .PARTIAL) = [] := by
      rw [List.filter_eq_nil_iff]
      rcases announces_kind ha with rfl | ⟨-, ⟨hk, -⟩ | ⟨hk, -⟩⟩
      · simp
      · intro i hi; simp [hk i hi]
      · intro i hi; simp [hk i hi]
    simp only [Streamed, Record.sequences, List.filter_append, hnone, List.append_nil] at hs ⊢
    exact hs
  | acknowledgeDelivery hp =>
    rw [Streamed, sequences_of_pending hp]
    exact hs

/-- An edit reserves nothing, and changes the status only of a matched record. -/
theorem edit_status (h : Edits c t r r') :
    c.reserves = false ∧ (r.status ≠ .matched → r'.status = r.status) := by
  cases h with
  | acceptPartial _ _ _ _ => exact ⟨rfl, fun _ => rfl⟩
  | transitionNeed hm _ _ => exact ⟨rfl, fun hn => absurd hm hn⟩
  | acknowledgeDelivery _ => exact ⟨rfl, fun _ => rfl⟩

/-! ### Histories -/

theorem departures_terminal {l : History} (h : Abstract l) :
    ∀ v ∈ l.head?, v.doc.status = .matched → departures l = 0 := by
  induction h with
  | nil => simp
  | create _ => simp [departures]
  | @edit c t d v l hl he ih =>
    simp only [List.head?_cons, Option.mem_some_iff, forall_eq'] at ih ⊢
    intro hd
    have hv : v.doc.status = .matched := by
      by_contra hn
      exact hn ((edit_status he).2 hn ▸ hd)
    simp [departures, hd, ih hv]

/-- SAFE: a record is reserved once, leaves `matched` once and for good, and its outbox tells
    exactly what happened to it. -/
theorem safe_of_lineage {l : History} (h : Abstract l) : Safe l := by
  induction h with
  | nil => exact ⟨by simp, by simp [departures], .nil, by simp, by simp⟩
  | create h =>
    refine ⟨?_, by simp [departures], List.pairwise_singleton _ _, ?_, ?_⟩
    · simp [(create_reserves h).1]
    · simpa using outbox_create h
    · simpa using fun _ => streamed_create h
  | @edit c t d v l hl he ih =>
    have hst := edit_status he
    refine ⟨?_, ?_, ?_, ?_, ?_⟩
    · -- reserved
      rw [List.countP_cons, if_neg (by simp [hst.1])]
      exact ih.reserved
    · -- left
      by_cases hv : v.doc.status = .matched
      · have h0 := departures_terminal hl v rfl hv
        rw [departures, h0]
        split <;> omega
      · rw [departures, if_neg (by simp [hv]), Nat.zero_add]
        exact ih.left
    · -- terminal
      refine List.pairwise_cons.mpr ⟨?_, ih.terminal⟩
      intro u hu hn
      have hvu : v.doc.status = u.doc.status := by
        rcases List.mem_cons.mp hu with rfl | hu
        · rfl
        · exact (List.pairwise_cons.mp ih.terminal).1 u hu hn
      exact (hst.2 (hvu ▸ hn)).trans hvu
    · -- outbox
      intro u hu
      rcases List.mem_cons.mp hu with rfl | hu
      · exact outbox_edit he (ih.outbox v List.mem_cons_self)
      · exact ih.outbox u hu
    · -- streamed
      intro hd u hu
      have hs := ih.streamed fun x hx => hd x (List.mem_cons_of_mem _ hx)
      rcases List.mem_cons.mp hu with rfl | hu
      · exact streamed_edit he (hd _ List.mem_cons_self) (hs v List.mem_cons_self)
      · exact hs u hu

end Truyn.Ledger
