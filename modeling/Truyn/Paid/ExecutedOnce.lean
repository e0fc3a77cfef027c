import Truyn.Paid.OneEffect

/-! paid:executed-once | every call on paid effects, in every run

    Each program keeps the claim and the receipt of an effect, and whoever returns an output has
    seen the receipt stored that has the output's digest. From this, for any calls that run at once,
    stop anywhere and lose any replies: `effect_executed_once`. -/

namespace Truyn.Paid
open Ledger Ledger.Cosmos Programs

variable {sha : JsString → JsString} {n : ℕ} {waits : Bool} {s : EffectStore}

/-- A receipt with this output digest is stored. -/
def Stored (s : EffectStore) (k digest : JsString) : Prop :=
  ∃ v ∈ s.docs k, ∃ r, v.doc.effectReceipt = some r ∧ r.outputDigest = digest

theorem Stored.grows {t : EffectStore} {k digest : JsString} (h : Stored s k digest)
    (hst : effects.may s t) : Stored t k digest := by
  obtain ⟨v, hv, hr⟩ := h
  exact ⟨v, (hst.1 k).subset hv, hr⟩

theorem receipt_digest {v : ReceiptValue} {r : Receipt} (h : receipt v = .ok r) :
    r.outputDigest = v.outputDigest := by
  unfold receipt at h
  split at h
  · split at h <;> cases h
    rfl
  · cases h

variable {need : Need} {b : Binding} {h : Host}

theorem bindingFor_id (h : bindingFor sha need = .ok b) :
    b.id = need.id := by
  unfold bindingFor at h
  split at h <;> cases h
  rfl

/-! ### The ledger's programs -/

/-- A read gives some version of the effect's document. -/
theorem returns_getEffect {id : JsString} :
    Returns effects true n (fun b r t => b = waits ∧ Env effects n waits s t ∧
      ∀ row, r = some row → ∃ v ∈ t.docs (effectKey sha id), v.doc = row)
      (getEffect sha id) waits s := by
  unfold getEffect
  split
  · exact Returns.throw
  refine Returns.bind (Returns.get ?_ ?_)
  · intro t hst _
    exact Returns.pure fun u htu _ => ⟨rfl, hst.trans htu, by rintro _ ⟨⟩⟩
  · intro t v older hst _ hv
    simp only
    split
    · exact Returns.throw
    · refine Returns.pure fun u htu _ => ⟨rfl, hst.trans htu, ?_⟩
      rintro _ ⟨⟩
      exact ⟨v, (hv.trans (htu.may.1 _)).subset List.mem_cons_self, rfl⟩

theorem returns_beginEffect {c : Intent} :
    Returns effects true n (fun _ _ _ => True) (beginEffect sha h c) waits s := by
  unfold beginEffect
  split
  · exact Returns.throw
  refine Returns.bind (Returns.ask fun o t _ _ => ?_)
  simp only
  split
  · exact Returns.throw
  refine Returns.bind (Returns.check fun _ _ u _ _ => Returns.bind (Returns.create ?_ ?_ ?_))
  · intro x _ hx hd
    refine once_write hx (fun y hy => ?_) (fun h => by cases h)
    rw [hd] at hy
    cases hy
  · exact fun _ _ _ _ _ _ _ => Returns.pure fun _ _ _ => trivial
  · intro x _ _
    refine Returns.bind (Returns.mono returns_getEffect ?_)
    rintro _ (_ | existing) y _ -
    · exact Returns.throw
    · simp only
      split
      · exact Returns.pure fun _ _ _ => trivial
      · exact Returns.throw

theorem returns_finishEffect {c : Finish} :
    Returns effects true n (fun _ _ _ => True) (finishEffect sha h c) waits s := by
  unfold finishEffect
  split
  · exact Returns.throw
  split
  · exact Returns.throw
  split
  · exact Returns.throw
  refine Returns.bind (Returns.mutate ?_ ?_ ?_ _)
  · exact fun _ _ _ _ _ _ _ _ => Returns.pure fun _ _ _ => trivial
  · intro t v older o d _ ht hd hf
    obtain ⟨hclaim, hreceipt⟩ := finishUpdate_keeps hf
    refine once_write ht (fun u hu => ?_) fun hr => ?_
    · rw [hd] at hu
      cases hu
      exact ⟨fun c hc => hclaim.trans hc, fun r hr => hreceipt.trans hr⟩
    · rw [hclaim]
      rw [hreceipt] at hr
      exact (ht.lasting _).backed v (hd ▸ List.mem_cons_self) hr
  · exact fun _ _ _ _ _ _ _ _ _ _ _ _ => Returns.pure fun _ _ _ => trivial

/-- A claim that succeeds is won, by this very call. -/
theorem returns_claimReceiptExecution {scope : Option JsString} :
    Returns effects true n (fun w c t => w = waits ∧ t.acts n = s.acts n ∧
      Claimed (t.docs (effectKey sha b.id)) n c.token)
      (claimReceiptExecution sha h b scope) waits s := by
  unfold claimReceiptExecution
  split
  · exact Returns.throw
  refine Returns.bind (Returns.ask fun o t hst ht => Returns.bind ?_)
  unfold receiptMutate
  split
  · exact Returns.throw
  refine Returns.mutate ?_ ?_ ?_ _
  · -- the callback never leaves the document as it is
    intro u v older now _ _ _ hf
    obtain ⟨r, hu, hr⟩ := receiptUpdate_ok hf
    obtain ⟨-, -, c, -, rfl⟩ := claimUpdate_ok hu
    cases hr
  · intro u v older now d _ hu hd hf
    obtain ⟨r, hupd, hr⟩ := receiptUpdate_ok hf
    obtain ⟨hnc, hnr, c, -, rfl⟩ := claimUpdate_ok hupd
    cases hr
    refine once_write hu (fun x hx => ?_) fun _ => rfl
    rw [hd] at hx
    cases hx
    exact ⟨fun c' hc' => absurd (hnc.symm.trans hc') (by simp),
      fun r' hr' => absurd (hnr.symm.trans hr') (by simp)⟩
  · intro u v older now d x htu hu hd hf hux hx
    obtain ⟨r, hupd, hr⟩ := receiptUpdate_ok hf
    obtain ⟨hnc, -, c, -, rfl⟩ := claimUpdate_ok hupd
    cases hr
    refine Returns.pure fun y hxy _ => ⟨rfl, ?_, ?_⟩
    · exact hxy.acts.trans (hux.acts.trans (htu.acts.trans hst.acts))
    · have hgrows := (hux.trans hxy).may.1 (effectKey sha b.id)
      rw [Store.write_docs, hd] at hgrows
      refine ⟨_, _, hgrows, rfl, ⟨c, rfl, rfl⟩, fun z hz => ?_⟩
      rcases List.mem_cons.mp hz with rfl | hz
      · exact hnc
      · -- an older claim would still be there
        have hpair := (hu.lasting (effectKey sha b.id)).keeps
        rw [hd] at hpair
        have hkeep := (List.pairwise_cons.mp hpair).1 z hz
        by_contra hsome
        obtain ⟨c', hc'⟩ := Option.ne_none_iff_exists'.mp hsome
        exact absurd (hnc.symm.trans (hkeep.claim c' hc')) (by simp)

/-- A captured receipt is stored under the token, with the digest it was given. -/
theorem returns_captureEffectReceipt {token : JsString} {value : ReceiptValue} :
    Returns effects true n (fun w _ t => w = waits ∧
      Stored t (effectKey sha b.id) value.outputDigest)
      (captureEffectReceipt sha h b token value) waits s := by
  unfold captureEffectReceipt
  refine Returns.bind (Returns.check fun normalized hn t _ _ => ?_)
  have hdigest := receipt_digest hn
  split
  · exact Returns.throw
  have hfinal : ∀ u, Once u → Captured (u.docs (effectKey sha b.id)) token normalized →
      Returns effects true n (fun w _ t => w = waits ∧
        Stored t (effectKey sha b.id) value.outputDigest)
        (Act.emit (.captured (effectKey sha b.id) token) : EffectAct Unit) waits u := by
    intro u _ hc
    refine Returns.emit (fun x hux hx => ⟨?_, may_act ..⟩) fun x y hux _ hxy _ => ⟨rfl, ?_⟩
    · exact once_captured hx (hc.grows (hux.may.1 _))
    · obtain ⟨v, hv, hr, -⟩ := hc.grows ((hux.may.1 _).trans (hxy.may.1 _))
      exact ⟨v, hv, normalized, hr, hdigest⟩
  refine Returns.bind ?_
  unfold receiptMutate
  split
  · exact Returns.throw
  refine Returns.mutate ?_ ?_ ?_ _
  · intro u v older now _ hu hv hf
    obtain ⟨r, hupd, hr⟩ := receiptUpdate_ok hf
    obtain ⟨c, hc, hct, ⟨-, hsame⟩ | ⟨-, rfl⟩⟩ := captureUpdate_ok hupd
    · exact hfinal u hu ⟨v, hv.subset List.mem_cons_self, hsame, c, hc, hct⟩
    · cases hr
  · intro u v older now d _ hu hd hf
    obtain ⟨r, hupd, hr⟩ := receiptUpdate_ok hf
    obtain ⟨c, hc, -, ⟨rfl, -⟩ | ⟨hnr, rfl⟩⟩ := captureUpdate_ok hupd
    · cases hr
    cases hr
    refine once_write hu (fun x hx => ?_) fun _ => ?_
    · rw [hd] at hx
      cases hx
      exact ⟨fun c' hc' => hc', fun r' hr' => absurd (hnr.symm.trans hr') (by simp)⟩
    · show v.doc.receiptExecution.isSome = true
      rw [hc]
      rfl
  · intro u v older now d x _ _ hd hf hux hx
    obtain ⟨r, hupd, hr⟩ := receiptUpdate_ok hf
    obtain ⟨c, hc, hct, ⟨rfl, -⟩ | ⟨-, rfl⟩⟩ := captureUpdate_ok hupd
    · cases hr
    cases hr
    refine hfinal x hx ?_
    have hgrows := hux.may.1 (effectKey sha b.id)
    rw [Store.write_docs] at hgrows
    exact ⟨_, hgrows.subset List.mem_cons_self, rfl, c, hc, hct⟩

/-! ### The wrapped adapter's programs -/

theorem returns_execute (hnew : s.acts n = []) :
    Returns effects true n (fun _ out t => Stored t (effectKey sha need.id) (sha out))
      (execute sha h need) waits s := by
  unfold execute
  refine Returns.bind (Returns.check fun b hb t hst _ => ?_)
  rw [← bindingFor_id hb]
  refine Returns.bind (Returns.ask fun o u htu _ => ?_)
  split
  · exact Returns.throw
  refine Returns.bind (Returns.mono returns_claimReceiptExecution ?_)
  rintro _ c x hx ⟨rfl, hacts, hclaim⟩
  have hacts' : x.acts n = [] := hacts.trans (htu.acts.trans (hst.acts.trans hnew))
  refine Returns.bind (Returns.emit (fun y hxy hy => ⟨?_, may_act ..⟩) ?_)
  · exact once_claimed hy (hclaim.grows (hxy.may.1 _)) (hxy.acts.trans hacts')
  intro y z hxy _ hyz _
  have hone : z.acts n = [(n, .claimed (effectKey sha b.id) c.token)] := by
    refine hyz.acts.trans ?_
    rw [Store.acts, Store.act, List.filter_cons_of_pos (by simp)]
    exact congrArg _ (hxy.acts.trans hacts')
  refine Returns.bind (Returns.ask fun o a hza _ => ?_)
  split
  · exact Returns.throw
  refine Returns.bind (Returns.emit (fun d had hd => ⟨?_, may_act ..⟩) ?_)
  · exact once_post hd (had.acts.trans (hza.acts.trans hone))
  intro _ _ _ _ _ _
  refine Returns.bind (Returns.ask fun o' _ _ _ => ?_)
  refine Returns.bind (Returns.check fun r _ _ _ _ => ?_)
  refine Returns.bind (Returns.check fun output _ _ _ _ => ?_)
  refine Returns.bind (Returns.mono returns_captureEffectReceipt ?_)
  rintro _ _ e _ ⟨rfl, hstored⟩
  exact Returns.pure fun g heg _ => hstored.grows heg.may

theorem retrieved_digest {expected : Receipt} {r : Retrieved} {out : JsString}
    (hout : r.output? sha h expected = .ok out) : expected.outputDigest = sha out := by
  unfold Retrieved.output? at hout
  split at hout
  · cases hout
  split at hout
  · cases hout
  split at hout
  · cases hout
  next actual hactual =>
  split at hout
  · cases hout
  next hsame =>
  cases hout
  rw [← not_not.mp hsame]
  exact receipt_digest hactual

theorem witnessed_digest {c : Claim} {expected : Witnessed} {r : Retrieved} {out : JsString}
    (hout : r.witnessed? sha h c expected = .ok out) :
    expected.outputDigest = sha out := by
  unfold Retrieved.witnessed? at hout
  split at hout
  · cases hout
  split at hout
  · cases hout
  next hsame =>
  cases hout
  simp only [not_or, ne_eq, not_not] at hsame
  exact hsame.2.2.2.2.1.symm

theorem storedReceipt_some {row : EffectRecord} {r : Receipt} (hr : storedReceipt h row = .ok r) :
    row.effectReceipt = some r := by
  unfold storedReceipt at hr
  split at hr
  · cases hr
  next q hq =>
  split at hr
  · cases hr
  split at hr <;> cases hr
  exact hq

theorem intended_some {saved : Option EffectRecord} {row : EffectRecord}
    (h : intended b saved = .ok row) : saved = some row := by
  unfold intended owner at h
  cases saved with
  | none => cases h
  | some r =>
    simp only [Option.isNone_some, Bool.false_eq_true, if_false] at h
    split at h
    · cases h
    split at h
    · cases h
    split at h <;> cases h
    rfl

theorem returns_recoverStoredEffect :
    Returns effects true n (fun _ out t => Stored t (effectKey sha need.id) (sha out))
      (recoverStoredEffect sha h need) waits s := by
  unfold recoverStoredEffect
  refine Returns.bind (Returns.check fun b hb t _ _ => ?_)
  rw [← bindingFor_id hb]
  refine Returns.bind (Returns.mono returns_getEffect ?_)
  rintro _ saved u _ ⟨rfl, -, hseen⟩
  refine Returns.bind (Returns.check fun row hrow x hux _ => ?_)
  refine Returns.bind (Returns.check fun expected hexp y hxy _ => ?_)
  refine Returns.bind (Returns.ask fun o z hyz _ => ?_)
  refine Returns.bind (Returns.check fun read _ a hza _ => ?_)
  refine Returns.bind (Returns.check fun output hout c hac _ => ?_)
  refine Returns.bind (Returns.mono returns_getEffect ?_)
  rintro _ latest d _ ⟨rfl, hcd, -⟩
  refine Returns.bind (Returns.check fun last _ e hde _ => ?_)
  split
  · exact Returns.throw
  refine Returns.pure fun g heg _ => ?_
  obtain ⟨v, hv, rfl⟩ := hseen row (intended_some hrow)
  have hstored : Stored u (effectKey sha b.id) (sha output) :=
    ⟨v, hv, expected, storedReceipt_some hexp, retrieved_digest hout⟩
  have hug := hux.trans (hxy.trans (hyz.trans (hza.trans (hac.trans (hcd.trans (hde.trans heg))))))
  exact hstored.grows hug.may

theorem returns_recoverUnknownEffect :
    Returns effects true n (fun _ out t => Stored t (effectKey sha need.id) (sha out))
      (recoverUnknownEffect sha h need) waits s := by
  unfold recoverUnknownEffect
  split
  · exact Returns.throw
  refine Returns.bind (Returns.check fun b hb t _ _ => ?_)
  rw [← bindingFor_id hb]
  refine Returns.bind (Returns.mono returns_getEffect ?_)
  rintro _ saved u _ -
  refine Returns.bind (Returns.check fun row _ _ _ _ => ?_)
  refine Returns.bind (Returns.check fun claim _ _ _ _ => ?_)
  refine Returns.bind (Returns.ask fun o _ _ _ => ?_)
  refine Returns.bind (Returns.check fun expected _ _ _ _ => ?_)
  refine Returns.bind (Returns.ask fun o' _ _ _ => ?_)
  refine Returns.bind (Returns.check fun read _ _ _ _ => ?_)
  refine Returns.bind (Returns.check fun output hout _ _ _ => ?_)
  refine Returns.bind (Returns.mono returns_getEffect ?_)
  rintro _ latest _ _ -
  refine Returns.bind (Returns.check fun last _ _ _ _ => ?_)
  split
  · exact Returns.throw
  refine Returns.bind (Returns.ask fun o'' _ _ _ => ?_)
  split
  · exact Returns.throw
  refine Returns.bind (Returns.mono returns_captureEffectReceipt ?_)
  rintro _ _ x _ ⟨rfl, hstored⟩
  refine Returns.bind (Returns.mono returns_getEffect ?_)
  rintro _ committed y _ ⟨rfl, hxy, -⟩
  refine Returns.bind (Returns.check fun final _ z hyz _ => ?_)
  split
  · exact Returns.throw
  refine Returns.pure fun a hza _ => ?_
  rw [← witnessed_digest hout]
  exact hstored.grows (hxy.trans (hyz.trans hza)).may

/-! ### Every run -/

/-- What a call that has come to its end has seen. -/
def Seen (sha : JsString → JsString) (c : EffectRequest) (r : Except Fault EffectReply)
    (t : EffectStore) : Prop :=
  ∀ out, r = .ok (.returned out) → Stored t (c.effect sha) (sha out)

theorem verified_program : Verified effects true (program sha) fun _ c _ r t => Seen sha c r t := by
  intro n c s _ hfresh
  have hnone : ∀ {β : Type} {p : EffectAct β} {f : β → EffectReply},
      Returns effects true n (fun _ _ _ => True) p true s → (∀ x out, f x ≠ .returned out) →
      Safe effects true n (fun _ r t => Seen sha c r t) (do pure (f (← p)) : EffectAct EffectReply)
        true s := by
    intro β p f hp hf
    have hbind : Returns effects true n (fun _ x t => Seen sha c (.ok x) t)
        (do pure (f (← p)) : EffectAct EffectReply) true s :=
      Returns.bind (Returns.mono hp fun _ x _ _ _ => Returns.pure fun _ _ _ out hout =>
        absurd (Except.ok.inj hout) (hf x out))
    exact Safe.mono hbind fun _ r _ _ hr out hout => hr _ hout out rfl
  have hout : ∀ {p : EffectAct JsString},
      Returns effects true n (fun _ out t => Stored t (c.effect sha) (sha out)) p true s →
      Safe effects true n (fun _ r t => Seen sha c r t)
        (do pure (.returned (← p)) : EffectAct EffectReply) true s := by
    intro p hp
    have hbind : Returns effects true n (fun _ x t => Seen sha c (.ok x) t)
        (do pure (.returned (← p)) : EffectAct EffectReply) true s := by
      refine Returns.bind (Returns.mono hp fun _ x _ _ hx => Returns.pure fun u htu _ => ?_)
      rintro _ ⟨⟩
      exact hx.grows htu.may
    exact Safe.mono hbind fun _ r _ _ hr out hout => hr _ hout out rfl
  cases c with
  | beginEffect h c => exact hnone returns_beginEffect fun _ _ h => by cases h
  | finishEffect h c => exact hnone returns_finishEffect fun _ _ h => by cases h
  | execute h need => exact hout (returns_execute hfresh.acts)
  | recoverStoredEffect h need => exact hout returns_recoverStoredEffect
  | recoverUnknownEffect h need => exact hout returns_recoverUnknownEffect

abbrev EffectWorld := World JsString EffectRecord Outside Deed (Except Fault EffectReply) EffectRequest

/-- No documents yet. -/
def blank : EffectStore := ⟨fun _ => [], []⟩

theorem once_blank : Once blank where
  lasting _ := ⟨List.Pairwise.nil, fun _ h => by cases h⟩
  claimed _ _ _ h := by cases h
  posted _ _ h := by cases h
  captured _ _ _ h := by cases h
  claims _ := Nat.zero_le 1
  posts _ := Nat.zero_le 1
  signed _ _ h := by cases h

theorem old_blank : Old blank := ⟨rfl, fun _ _ h => by cases h⟩

/-- A stored receipt stays the newest document's receipt. -/
theorem Lasting.kept {l l' : List (Version EffectRecord)} (h : Lasting l') (hl : l <:+ l')
    {v : Version EffectRecord} {r : Receipt} (hv : v ∈ l) (hr : v.doc.effectReceipt = some r) :
    ∃ u ∈ l'.head?, u.doc.effectReceipt = some r := by
  cases l' with
  | nil =>
    rw [List.suffix_nil.mp hl] at hv
    cases hv
  | cons u l' =>
    refine ⟨u, rfl, ?_⟩
    rcases List.mem_cons.mp (hl.subset hv) with rfl | hv'
    · exact hr
    · exact ((List.pairwise_cons.mp h.keeps).1 v hv').receipt r hr

/-- EXECUTED ONCE: in every run, an effect is claimed at most once and paid for at most once. Its
    stored receipt is there in every later state, was stored under the claim's token, and whatever
    outputs calls return for the effect have one digest. -/
theorem effect_executed_once (sha : JsString → JsString) {w w' : EffectWorld}
    (h : Run (program sha) true (World.start blank) w) (h' : Run (program sha) true w w')
    (k : JsString) :
    w.store.log.countP (isClaim k) ≤ 1 ∧ w.store.log.countP (isPost k) ≤ 1 ∧
    (∀ v ∈ w.store.docs k, ∀ r, v.doc.effectReceipt = some r →
      (∃ u ∈ (w'.store.docs k).head?, u.doc.effectReceipt = some r) ∧
      (∀ u ∈ w'.store.docs k, ∀ q, u.doc.effectReceipt = some q → q = r) ∧
      ∃ c, v.doc.receiptExecution = some c ∧ (∃ n, Claimed (w.store.docs k) n c.token) ∧
        ∀ n t, (n, Deed.claimed k t) ∈ w'.store.log → t = c.token) ∧
    ∀ n m c d out out', w.calls[n]? = some c → w.calls[m]? = some d → c.effect sha = k →
      d.effect sha = k → (n, .ok (.returned out)) ∈ w.answers →
      (m, .ok (.returned out')) ∈ w.answers → sha out = sha out' := by
  have hsound := sound_of_run verified_program once_blank old_blank h
  obtain ⟨hmay, hsound'⟩ := hsound.may_of_run verified_program h'
  have hinv := hsound.inv
  have hinv' := hsound'.inv
  refine ⟨hinv.claims k, hinv.posts k, fun v hv r hr => ⟨?_, fun u hu q hq => ?_, ?_⟩, ?_⟩
  · exact (hinv'.lasting k).kept (hmay.1 k) hv hr
  · exact (hinv'.lasting k).receipt_eq hu ((hmay.1 k).subset hv) hq hr
  · obtain ⟨c, hc⟩ := Option.isSome_iff_exists.mp
      ((hinv.lasting k).backed v hv (Option.isSome_iff_exists.mpr ⟨r, hr⟩))
    have hcap : Captured (w.store.docs k) c.token r := ⟨v, hv, hr, c, hc, rfl⟩
    obtain ⟨n, t, hwon⟩ := claimed_exists (hinv.signed k)
      ⟨v, hv, fun hnone => by rw [hc] at hnone; cases hnone⟩
    have htoken := hcap.token_eq (hinv.lasting k) hwon
    refine ⟨c, hc, ⟨n, htoken ▸ hwon⟩, fun m t' hm => ?_⟩
    exact ((hcap.grows (hmay.1 k)).token_eq (hinv'.lasting k) (hinv'.claimed m k t' hm)).symm
  · intro n m c d out out' hc hd hck hdk hn hm
    have hseen := answered_of_run verified_program once_blank old_blank
      (fun _ _ _ _ _ _ _ henv hp out hout => (hp out hout).grows henv.may) h
    obtain ⟨-, c', hc', hsn⟩ := hseen n _ hn
    obtain ⟨-, d', hd', hsm⟩ := hseen m _ hm
    cases hc'.symm.trans hc
    cases hd'.symm.trans hd
    obtain ⟨u, hu, r, hr, hrd⟩ := hsn out rfl
    obtain ⟨v, hv, q, hq, hqd⟩ := hsm out' rfl
    rw [hck] at hu
    rw [hdk] at hv
    rw [← hrd, ← hqd, (hinv.lasting k).receipt_eq hu hv hr hq]

/-! ### Two executors -/

/-- SHA-256, of the texts that are hashed here. -/
def digests (s : JsString) : JsString :=
  if s = js "effect-1" then
    js "91e625bd191d0a29ccde01c4759fb7b404601ce49b475a6df8796ab675494cfc"
  else if s = js "an answer" then
    js "ee9555184346cf42bc9ef6619d764c88f4c193f8fabbbffc0cceacfa44a9dd35"
  else js "b45e7dc677e5ea160f3f8636b518d059e7705daa8a7a3f1a6aaa82acf642a274"

def someHost : Host := ⟨digests (js "effect-1"), false, 900000, 5, fun _ => 600⟩

def paidNeed : Need := ⟨js "effect-1", js "node-2", js "\x7b\"q\":1\x7d", false, js "node-1"⟩

def answering : Outside where
  now := 0
  aborted := false
  randomUUID := js "token-1"
  capacity := .ok ()
  executed := .ok ⟨js "azure-openai", true, js "completed", some (js "resp_1"), some (js "gpt"),
    some ⟨some 3, some 4, some 7⟩, none, some (js "an answer")⟩
  retrieved := .ok ⟨true, js "azure-openai", some (js "resp_1"), some (js "gpt"),
    some ⟨some 3, some 4, some 7⟩, none, some (js "an answer")⟩
  witnessed := .error unavailable

/-- The effect is taken, two executors read its document before the first claims it, the first
    executes it and stores its receipt, and a third call reads the answer back. -/
def twoExecutors : List (Move Outside EffectRequest) :=
  [.call (.beginEffect someHost ⟨js "effect-1", js "node-2", js "node-1", digests (js "text")⟩)] ++
    List.replicate 4 (.go 0 answering) ++
    [.call (.execute someHost paidNeed), .call (.execute someHost paidNeed)] ++
    List.replicate 4 (.go 1 answering) ++ List.replicate 4 (.go 2 answering) ++
    List.replicate 12 (.go 1 answering) ++ List.replicate 6 (.go 2 answering) ++
    [.call (.recoverStoredEffect someHost paidNeed)] ++ List.replicate 5 (.go 3 answering)

def afterTwo : EffectWorld := (World.start blank).play (program digests) twoExecutors

theorem run_afterTwo : Run (program digests) true (World.start blank) afterTwo :=
  run_play (program digests) true twoExecutors (World.start blank)

theorem two_executors :
    afterTwo.store.log = [(1, .captured (effectKey digests (js "effect-1")) (js "token-1")),
      (1, .post (effectKey digests (js "effect-1"))),
      (1, .claimed (effectKey digests (js "effect-1")) (js "token-1"))] ∧
    afterTwo.store.log.countP (isPost (effectKey digests (js "effect-1"))) ≤ 1 := by
  refine ⟨by decide +kernel, ?_⟩
  exact (effect_executed_once digests run_afterTwo .refl (effectKey digests (js "effect-1"))).2.1

end Truyn.Paid
