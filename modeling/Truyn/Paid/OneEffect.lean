import Truyn.Paid.Receipts

/-! paid:one-effect | a paid effect is executed once, and has one receipt

    The claim and the receipt of an effect are set once in its document and stay (`Lasting`). The
    oldest version with a claim tells who won it (`Claimed`), and a call that wins it is the only one
    to issue the paid POST (`Once`). Whoever returns an output has seen the stored receipt, so all
    outputs have its digest. -/

namespace Truyn.Paid
open Ledger Ledger.Cosmos Programs

/-- The store of effect documents. -/
abbrev EffectStore := Store JsString EffectRecord Deed

/-- A newer version has the claim and the receipt of an older one. -/
structure Keeps (newer older : EffectRecord) : Prop where
  claim : ∀ c, older.receiptExecution = some c → newer.receiptExecution = some c
  receipt : ∀ r, older.effectReceipt = some r → newer.effectReceipt = some r

/-- Claim and receipt are set once, the claim first. -/
structure Lasting (l : List (Version EffectRecord)) : Prop where
  keeps : l.Pairwise fun newer older => Keeps newer.doc older.doc
  backed : ∀ v ∈ l, v.doc.effectReceipt.isSome = true → v.doc.receiptExecution.isSome = true

/-- Call `n` set the claim, with this token. -/
def Claimed (l : List (Version EffectRecord)) (n : ℕ) (token : JsString) : Prop :=
  ∃ v older, v :: older <:+ l ∧ v.writer = some n ∧
    (∃ c, v.doc.receiptExecution = some c ∧ c.token = token) ∧
    ∀ u ∈ older, u.doc.receiptExecution = none

/-- The receipt is stored, under a claim with this token. -/
def Captured (l : List (Version EffectRecord)) (token : JsString) (r : Receipt) : Prop :=
  ∃ v ∈ l, v.doc.effectReceipt = some r ∧ ∃ c, v.doc.receiptExecution = some c ∧ c.token = token

def isClaim (k : JsString) (e : ℕ × Deed) : Bool :=
  match e.2 with
  | .claimed k' _ => k' = k
  | _ => false

def isPost (k : JsString) (e : ℕ × Deed) : Bool := e.2 = .post k

/-- Every effect is claimed once and paid for once, by the same call. -/
structure Once (s : EffectStore) : Prop where
  lasting : ∀ k, Lasting (s.docs k)
  claimed : ∀ n k t, (n, Deed.claimed k t) ∈ s.log → Claimed (s.docs k) n t
  posted : ∀ n k, (n, Deed.post k) ∈ s.log → ∃ t, (n, Deed.claimed k t) ∈ s.log
  captured : ∀ n k t, (n, Deed.captured k t) ∈ s.log → ∃ r, Captured (s.docs k) t r
  claims : ∀ k, s.log.countP (isClaim k) ≤ 1
  posts : ∀ k, s.log.countP (isPost k) ≤ 1
  signed : ∀ k, ∀ v ∈ s.docs k, v.writer ≠ none

/-- Documents gain versions, and calls do more and more. -/
def effects : Theory JsString EffectRecord Deed where
  inv := Once
  may s t := (∀ k, s.docs k <:+ t.docs k) ∧ s.log <:+ t.log
  refl _ := ⟨fun _ => List.suffix_rfl, List.suffix_rfl⟩
  trans h h' := ⟨fun k => (h.1 k).trans (h'.1 k), h.2.trans h'.2⟩
  grows h := h.1

variable {t k : JsString} {l : List (Version EffectRecord)} {n : ℕ} {r : Receipt}
  {v : Version EffectRecord} {s : EffectStore} {h : Host} {doc : EffectRecord}

variable {t' token : JsString} {l' : List (Version EffectRecord)} {d : EffectRecord} {o : Outside}
  {b : Binding} {now : Time}

/-! ### Histories -/

theorem Claimed.grows (h : Claimed l n t) (hl : l <:+ l') :
    Claimed l' n t := by
  obtain ⟨v, older, hs, hrest⟩ := h
  exact ⟨v, older, hs.trans hl, hrest⟩

theorem Captured.grows (h : Captured l t r) (hl : l <:+ l') :
    Captured l' t r := by
  obtain ⟨v, hv, hrest⟩ := h
  exact ⟨v, hl.subset hv, hrest⟩

/-- The claim is won once. -/
theorem claimed_unique {m : ℕ} (h : Claimed l n t) (h' : Claimed l m t') :
    n = m ∧ t = t' := by
  obtain ⟨v, older, hs, hw, ⟨c, hc, ht⟩, hnone⟩ := h
  obtain ⟨v', older', hs', hw', ⟨c', hc', ht'⟩, hnone'⟩ := h'
  -- of two suffixes one is part of the other, and a longer one would have the other's claim
  have hsame : v :: older = v' :: older' := by
    rcases List.suffix_or_suffix_of_suffix hs hs' with hsuf | hsuf
    · rcases List.suffix_cons_iff.mp hsuf with heq | hsuf
      · exact heq
      · have hv := hnone' v (hsuf.subset List.mem_cons_self)
        rw [hc] at hv
        cases hv
    · rcases List.suffix_cons_iff.mp hsuf with heq | hsuf
      · exact heq.symm
      · have hv := hnone v' (hsuf.subset List.mem_cons_self)
        rw [hc'] at hv
        cases hv
  obtain ⟨rfl, -⟩ := List.cons.inj hsame
  rw [hw] at hw'
  rw [hc] at hc'
  cases hc'
  exact ⟨Option.some.inj hw', ht ▸ ht'⟩

/-- Whose document has a claim, it was won. -/
theorem claimed_exists (hsigned : ∀ v ∈ l, v.writer ≠ none)
    (h : ∃ v ∈ l, v.doc.receiptExecution ≠ none) : ∃ n t, Claimed l n t := by
  induction l with
  | nil =>
    obtain ⟨v, hv, -⟩ := h
    cases hv
  | cons u l ih =>
    by_cases hl : ∃ v ∈ l, v.doc.receiptExecution ≠ none
    · obtain ⟨n, t, hc⟩ := ih (fun v hv => hsigned v (List.mem_cons_of_mem _ hv)) hl
      exact ⟨n, t, hc.grows (List.suffix_cons _ _)⟩
    · obtain ⟨v, hv, hne⟩ := h
      rcases List.mem_cons.mp hv with rfl | hv
      · obtain ⟨n, hn⟩ := Option.ne_none_iff_exists'.mp (hsigned v List.mem_cons_self)
        obtain ⟨c, hc⟩ := Option.ne_none_iff_exists'.mp hne
        refine ⟨n, c.token, v, l, List.suffix_rfl, hn, ⟨c, hc, rfl⟩, fun u hu => ?_⟩
        by_contra hsome
        exact hl ⟨u, hu, hsome⟩
      · exact absurd ⟨v, hv, hne⟩ hl

/-- Of two versions one is the newer: what both say about claim and receipt is the same. -/
theorem Lasting.agree (h : Lasting l) {u : Version EffectRecord} (hu : u ∈ l) (hv : v ∈ l) :
    u = v ∨ Keeps u.doc v.doc ∨ Keeps v.doc u.doc := agree_of_lineage h.keeps hu hv

theorem Lasting.claim_eq (h : Lasting l) {u : Version EffectRecord} (hu : u ∈ l) (hv : v ∈ l)
    {c d : Claim} (hc : u.doc.receiptExecution = some c) (hd : v.doc.receiptExecution = some d) :
    c = d := by
  rcases h.agree hu hv with rfl | hk | hk
  · exact Option.some.inj (hc.symm.trans hd)
  · exact Option.some.inj (hc.symm.trans (hk.claim d hd))
  · exact Option.some.inj ((hk.claim c hc).symm.trans hd)

/-- All stored receipts are one. -/
theorem Lasting.receipt_eq (h : Lasting l) {u : Version EffectRecord} (hu : u ∈ l) (hv : v ∈ l)
    {q : Receipt} (hr : u.doc.effectReceipt = some r) (hq : v.doc.effectReceipt = some q) :
    r = q := by
  rcases h.agree hu hv with rfl | hk | hk
  · exact Option.some.inj (hr.symm.trans hq)
  · exact Option.some.inj (hr.symm.trans (hk.receipt q hq))
  · exact Option.some.inj ((hk.receipt r hr).symm.trans hq)

/-- The receipt is stored under the token that won the claim. -/
theorem Captured.token_eq (hl : Lasting l) (h : Captured l t r) (h' : Claimed l n t') : t = t' := by
  obtain ⟨v, hv, -, c, hc, rfl⟩ := h
  obtain ⟨u, older, hs, -, ⟨d, hd, rfl⟩, -⟩ := h'
  rw [hl.claim_eq hv (hs.subset List.mem_cons_self) hc hd]

theorem Lasting.cons {l : List (Version EffectRecord)} (h : Lasting l) {v : Version EffectRecord}
    (hkeeps : ∀ u ∈ l.head?, Keeps v.doc u.doc)
    (hbacked : v.doc.effectReceipt.isSome = true → v.doc.receiptExecution.isSome = true) :
    Lasting (v :: l) := by
  refine ⟨List.pairwise_cons.mpr ⟨fun u hu => ?_, h.keeps⟩, fun u hu => ?_⟩
  · cases l with
    | nil => cases hu
    | cons x l =>
      have hx := hkeeps x rfl
      rcases List.mem_cons.mp hu with rfl | hu
      · exact hx
      · have hxu := (List.pairwise_cons.mp h.keeps).1 u hu
        exact ⟨fun c hc => hx.claim c (hxu.claim c hc), fun r hr => hx.receipt r (hxu.receipt r hr)⟩
  · rcases List.mem_cons.mp hu with rfl | hu
    · exact hbacked
    · exact h.backed u hu

/-! ### Writes and deeds -/

/-- A write that keeps claim and receipt. -/
theorem once_write (hs : Once s) (hkeeps : ∀ u ∈ (s.docs k).head?, Keeps d u.doc)
    (hbacked : d.effectReceipt.isSome = true → d.receiptExecution.isSome = true) :
    Once (s.write n k d) ∧ effects.may s (s.write n k d) := by
  have hgrows : ∀ k', s.docs k' <:+ (s.write n k d).docs k' := by
    intro k'
    by_cases hk : k' = k
    · subst hk
      rw [Store.write_docs]
      exact List.suffix_cons _ _
    · rw [Store.write_docs_ne hk]
  refine ⟨⟨fun k' => ?_, fun m k' t hm => (hs.claimed m k' t hm).grows (hgrows k'), hs.posted, ?_,
    hs.claims, hs.posts, ?_⟩, hgrows, List.suffix_rfl⟩
  · by_cases hk : k' = k
    · subst hk
      rw [Store.write_docs]
      exact (hs.lasting k').cons hkeeps hbacked
    · rw [Store.write_docs_ne hk]
      exact hs.lasting k'
  · intro m k' t hm
    obtain ⟨r, hr⟩ := hs.captured m k' t hm
    exact ⟨r, hr.grows (hgrows k')⟩
  · intro k' v hv
    by_cases hk : k' = k
    · subst hk
      rw [Store.write_docs] at hv
      rcases List.mem_cons.mp hv with rfl | hv
      · exact fun h => by cases h
      · exact hs.signed k' v hv
    · rw [Store.write_docs_ne hk] at hv
      exact hs.signed k' v hv

theorem may_act (s : EffectStore) (n : ℕ) (o : Deed) : effects.may s (s.act n o) :=
  ⟨fun _ => List.suffix_rfl, List.suffix_cons _ _⟩

/-- One more deed: a claim that was won and not told yet, a POST of the winner's that was not issued
    yet, or a receipt that is stored. -/
theorem once_act (hs : Once s) {o : Deed} (hclaimed : ∀ k t, o = .claimed k t →
      Claimed (s.docs k) n t ∧ ∀ m t', (m, Deed.claimed k t') ∉ s.log) (hposted : ∀ k, o = .post k →
      (∃ t, (n, Deed.claimed k t) ∈ s.log) ∧ ∀ m, (m, Deed.post k) ∉ s.log)
    (hcaptured : ∀ k t, o = .captured k t → ∃ r, Captured (s.docs k) t r) :
    Once (s.act n o) := by
  refine ⟨hs.lasting, fun m k t hm => ?_, fun m k hm => ?_, fun m k t hm => ?_, fun k => ?_,
    fun k => ?_, hs.signed⟩
  · rcases List.mem_cons.mp hm with heq | hm
    · cases heq
      exact (hclaimed k t rfl).1
    · exact hs.claimed m k t hm
  · rcases List.mem_cons.mp hm with heq | hm
    · cases heq
      obtain ⟨t, ht⟩ := (hposted k rfl).1
      exact ⟨t, List.mem_cons_of_mem _ ht⟩
    · obtain ⟨t, ht⟩ := hs.posted m k hm
      exact ⟨t, List.mem_cons_of_mem _ ht⟩
  · rcases List.mem_cons.mp hm with heq | hm
    · cases heq
      exact hcaptured k t rfl
    · exact hs.captured m k t hm
  · show ((n, o) :: s.log).countP (isClaim k) ≤ 1
    by_cases ho : isClaim k (n, o) = true
    · have hzero : s.log.countP (isClaim k) = 0 := by
        refine List.countP_eq_zero.mpr ?_
        rintro ⟨m, o'⟩ hm ho'
        cases o <;> simp only [isClaim, decide_eq_true_eq, Bool.false_eq_true] at ho
        cases o' <;> simp only [isClaim, decide_eq_true_eq, Bool.false_eq_true] at ho'
        subst ho ho'
        exact (hclaimed _ _ rfl).2 m _ hm
      rw [List.countP_cons_of_pos ho, hzero]
    · rw [List.countP_cons_of_neg ho]
      exact hs.claims k
  · show ((n, o) :: s.log).countP (isPost k) ≤ 1
    by_cases ho : isPost k (n, o) = true
    · have hzero : s.log.countP (isPost k) = 0 := by
        refine List.countP_eq_zero.mpr ?_
        rintro ⟨m, o'⟩ hm ho'
        obtain rfl : o = .post k := of_decide_eq_true ho
        obtain rfl : o' = .post k := of_decide_eq_true ho'
        exact (hposted k rfl).2 m hm
      rw [List.countP_cons_of_pos ho, hzero]
    · rw [List.countP_cons_of_neg ho]
      exact hs.posts k

/-- The call that won the claim, and has done nothing yet, says so. -/
theorem once_claimed (hs : Once s) (hclaim : Claimed (s.docs k) n t) (hnew : s.acts n = []) :
    Once (s.act n (.claimed k t)) := by
  refine once_act hs ?_ (fun _ h => by cases h) (fun _ _ h => by cases h)
  rintro _ _ ⟨⟩
  refine ⟨hclaim, fun m t' hm => ?_⟩
  obtain ⟨rfl, -⟩ := claimed_unique (hs.claimed m k t' hm) hclaim
  have hmem : (m, Deed.claimed k t') ∈ s.acts m := List.mem_filter.mpr ⟨hm, by simp⟩
  rw [hnew] at hmem
  cases hmem

/-- The call that won the claim, and has only said so yet, issues the paid POST. -/
theorem once_post (hs : Once s) (hacts : s.acts n = [(n, .claimed k t)]) :
    Once (s.act n (.post k)) := by
  have hmine : (n, Deed.claimed k t) ∈ s.log := by
    have hmem : (n, Deed.claimed k t) ∈ s.acts n := by
      rw [hacts]
      exact List.mem_singleton.mpr rfl
    exact (List.mem_filter.mp hmem).1
  refine once_act hs (fun _ _ h => by cases h) ?_ (fun _ _ h => by cases h)
  rintro _ ⟨⟩
  refine ⟨⟨t, hmine⟩, fun m hm => ?_⟩
  obtain ⟨t', ht'⟩ := hs.posted m k hm
  obtain ⟨rfl, -⟩ := claimed_unique (hs.claimed m k t' ht') (hs.claimed n k t hmine)
  have hmem : (m, Deed.post k) ∈ s.acts m := List.mem_filter.mpr ⟨hm, by simp⟩
  rw [hacts, List.mem_singleton] at hmem
  cases hmem

/-- A call that saw the receipt stored under its token says so. -/
theorem once_captured (hs : Once s) (hr : Captured (s.docs k) t r) :
    Once (s.act n (.captured k t)) := by
  refine once_act hs (fun _ _ h => by cases h) (fun _ h => by cases h) ?_
  rintro _ _ ⟨⟩
  exact ⟨r, hr⟩

/-! ### What the callbacks write -/

theorem finishUpdate_keeps {c : Finish} (hd : finishUpdate h c o doc = .ok (some d)) :
    d.receiptExecution = doc.receiptExecution ∧ d.effectReceipt = doc.effectReceipt := by
  unfold finishUpdate at hd
  split at hd
  · cases hd
  split at hd
  · cases hd
  · cases hd
  simp only at hd
  split at hd <;> cases hd
  exact ⟨rfl, rfl⟩

/-- What the receipts' `mutate` makes of its callback. -/
theorem receiptUpdate_ok {update : Time → EffectRecord → Except Fault (Option EffectRecord)}
    {r : Option EffectRecord} (hr : receiptUpdate h b update o doc = .ok r) :
    ∃ r', update o.now doc = .ok r' ∧
      r = r'.map fun next => { next with version := doc.version + 1 } := by
  unfold receiptUpdate at hr
  split at hr
  · cases hr
  split at hr
  · cases hr
  next row hown =>
  obtain rfl : doc = row := by
    unfold owner at hown
    split at hown
    · cases hown
    simp only at hown
    split at hown
    · cases hown
    split at hown
    · cases hown
    exact Except.ok.inj hown
  split at hr
  · cases hr
  split at hr
  · cases hr
  · next hu =>
    cases hr
    exact ⟨none, hu, rfl⟩
  · next next hu =>
    simp only at hr
    split at hr <;> cases hr
    exact ⟨some next, hu, rfl⟩

variable {sha : JsString → JsString}

theorem claimUpdate_ok {scope : Option JsString} {r : Option EffectRecord}
    (hr : claimUpdate sha h b scope token now doc = .ok r) :
    doc.receiptExecution = none ∧ doc.effectReceipt = none ∧
      ∃ c, c.token = token ∧ r = some { doc with receiptExecution := some c } := by
  unfold claimUpdate at hr
  split at hr
  · cases hr
  next hfree =>
  split at hr
  · cases hr
  cases hr
  simp only [not_or, Bool.not_eq_true, Option.isSome_eq_false_iff, Option.isNone_iff_eq_none] at hfree
  exact ⟨hfree.2.1, hfree.2.2, _, rfl, rfl⟩

/-- A receipt is stored under its claim's token, or is there already. -/
theorem captureUpdate_ok {value : Receipt} {r : Option EffectRecord}
    (hr : captureUpdate token value now doc = .ok r) :
    ∃ c, doc.receiptExecution = some c ∧ c.token = token ∧
      (r = none ∧ doc.effectReceipt = some value ∨
        doc.effectReceipt = none ∧ r = some { doc with
          effectReceipt := some value, receiptCapturedAt := some now }) := by
  unfold captureUpdate at hr
  split at hr
  · cases hr
  next c hc =>
  split at hr
  · cases hr
  next htoken =>
  split at hr
  · cases hr
  split at hr
  · cases hr
  refine ⟨c, hc, not_not.mp htoken, ?_⟩
  split at hr
  · next q hq =>
    split at hr
    · cases hr
    next hsame =>
    cases hr
    exact .inl ⟨rfl, by rw [hq, not_not.mp hsame]⟩
  · next hq =>
    cases hr
    exact .inr ⟨hq, rfl⟩

end Truyn.Paid
