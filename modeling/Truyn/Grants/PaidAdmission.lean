import Truyn.Grants.Granted

/-! grants:paid-admission | a provider starts paid work only for what a relay reserved under a grant

    A grant is given to a relay's call, for its own message (`granted_of_run`). A provider's call
    starts its adapter only after its last read of the record came out as it wants, and the record
    was like that at some moment after the call was made (`executed_of_run`). -/

namespace Truyn.Grants
open Ledger Ledger.Cosmos Ledger.Outbox Programs

abbrev NeedWorld := World JsString StoredNeed Outside Deed (Except Fault Bool) NeedRequest

variable {sha : JsString → JsString} {n : ℕ} {k : JsString} {E : Deed → Prop}
  {R : Option (ℕ × StoredNeed) → Prop} {P : Bool → Prop} {h : ProviderHost} {need : Presented}

/-! ### Grants -/

/-- The call is a relay's, and this is what it may be granted. -/
def Sends (sha : JsString → JsString) (c : NeedRequest) (g : Grant) : Prop :=
  ∃ L m, c = .relay L true m ∧ g.id = m.id ∧ g.requester = m.sender ∧
    m.capability = some g.capability ∧ g.fingerprint = sha m.text

variable {id : JsString} {L : Limits} {Q : ℕ → Prop} {w : NeedWorld}

theorem awaits_getNeed {Q : Option (ℕ × StoredNeed) → Prop} (hQ : ∀ r, Q r) :
    Awaits k E R Q (getNeed id) := by
  unfold getNeed
  split
  · exact Awaits.throw
  refine Awaits.bind (Awaits.read fun r => ?_)
  cases r with
  | none => exact Awaits.pure (hQ _)
  | some r =>
    simp only
    split
    · exact Awaits.throw
    · exact Awaits.pure (hQ _)

theorem awaits_write {r : Request} (hP : ∀ b, P b) :
    Awaits k E R P (write L r) := by
  unfold write
  refine Awaits.bind (Awaits.ask fun o => ?_)
  split
  · exact Awaits.throw
  · refine Awaits.bind (Awaits.check fun _ _ => Awaits.bind (Awaits.put fun b => ?_))
    cases b with
    | true => exact Awaits.pure (hP _)
    | false => exact Awaits.throw
  · exact Awaits.bind (Awaits.mutate (fun r => Awaits.pure (hP _)) _)

theorem awaits_relayNeed {paidNeedEnforcement : Bool} {m : NeedMessage}
    (hE : ∀ policy g, Sends sha (.relay L paidNeedEnforcement m) g → ¬E (.granted policy g))
    (hP : ∀ b, P b) : Awaits k E R P (relayNeed sha L paidNeedEnforcement m) := by
  unfold relayNeed
  refine Awaits.bind (Awaits.ask fun _ => Awaits.bind (Awaits.check fun _ _ =>
    Awaits.bind (awaits_getNeed fun found => ?_)))
  cases found with
  | some r => exact Awaits.throw
  | none =>
    cases hcap : m.capability with
    | none => exact Awaits.throw
    | some capability =>
      refine Awaits.bind (Awaits.ask fun _ => Awaits.bind (Awaits.check fun found _ => ?_))
      cases found with
      | none => exact Awaits.throw
      | some found =>
        refine Awaits.bind (Awaits.mono (P := fun _ => True) ?_ fun paid _ => ?_)
        · unfold paidGrant
          cases paidNeedEnforcement with
          | false => exact Awaits.pure trivial
          | true =>
            refine Awaits.bind (Awaits.check fun paid _ => Awaits.bind (Awaits.emit ?_ ?_))
            · exact hE _ _ ⟨L, m, rfl, rfl, rfl, hcap, rfl⟩
            · exact Awaits.pure trivial
        · exact Awaits.bind (Awaits.ask fun _ => Awaits.bind (Awaits.check fun _ _ =>
            awaits_write hP))

/-- The provider acts only by starting its adapter, with the tag of its last check. -/
theorem awaits_executeNeed (hverify : Awaits k E R Q (verifyRequired h need))
    (hQ : ∀ tag, Q tag → ¬E (.execute tag)) (hP : ∀ b, P b) :
    Awaits k E R P (executeNeed h need) := by
  have hend : ∀ {b : Bool}, Awaits k E R P (pure b : NeedAct Bool) := Awaits.pure (hP _)
  have hstart : Awaits k E R P (startAdapter h need) := by
    unfold startAdapter
    refine Awaits.bind (Awaits.ask fun _ => Awaits.bind (Awaits.check fun _ _ =>
      Awaits.bind (Awaits.ask fun _ => ?_)))
    split
    · exact hend
    · exact Awaits.bind (Awaits.mono hverify fun tag htag =>
        Awaits.bind (Awaits.emit (hQ tag htag) hend))
  unfold executeNeed
  split
  · exact hend
  refine Awaits.bind (Awaits.ask fun _ => ?_)
  split
  · exact hend
  refine Awaits.bind (Awaits.mono hverify fun _ _ => ?_)
  refine Awaits.bind (Awaits.mono (P := fun _ => True) ?_ fun taken _ => ?_)
  · unfold takeEffect
    split
    · exact Awaits.pure trivial
    · exact Awaits.bind (Awaits.ask fun _ => Awaits.check fun _ _ => trivial)
  split
  · exact hend
  refine Awaits.bind (Awaits.mono (P := fun _ => True) ?_ fun billed _ => ?_)
  · unfold authorizeBilling
    split
    · exact Awaits.pure trivial
    · exact Awaits.bind (Awaits.ask fun _ => Awaits.check fun _ _ => trivial)
  split
  · exact hend
  refine Awaits.bind (Awaits.ask fun _ => ?_)
  split
  · exact hend
  · exact hstart

theorem awaits_required
    (hverify : h.requirePaidNeedLedger = true → Awaits k E R Q (verifyPaidNeedAtProvider h need))
    (hzero : h.requirePaidNeedLedger = false → Q 0) : Awaits k E R Q (verifyRequired h need) := by
  unfold verifyRequired
  cases hreq : h.requirePaidNeedLedger with
  | false => exact Awaits.pure (hzero hreq)
  | true => exact hverify hreq

/-- What a check of the record comes to. -/
theorem awaits_verify {S : Option (ℕ × StoredNeed) → Prop}
    (hread : Awaits k E R S (getNeed need.id))
    (hQ : ∀ tag record, S (some (tag, record)) → accepts h.nodeId need record = true → Q tag) :
    Awaits k E R Q (verifyPaidNeedAtProvider h need) := by
  unfold verifyPaidNeedAtProvider
  split
  · exact Awaits.throw
  split
  · exact Awaits.throw
  refine Awaits.bind (Awaits.mono (Awaits.catching hread fun _ => Awaits.throw) fun r hr => ?_)
  cases r with
  | none => exact Awaits.throw
  | some r =>
    simp only
    split
    · exact Awaits.throw
    next hok =>
    rw [Bool.not_eq_true', Bool.not_eq_false] at hok
    refine Awaits.bind (Awaits.ask fun _ => ?_)
    split
    · exact Awaits.throw
    · exact Awaits.pure (hQ _ _ hr hok)

/-- No call but the relay's own is granted anything, and the relay's only its own message. -/
theorem until_granted (c : NeedRequest)
    (hE : ∀ o, E o → ∃ policy g, o = .granted policy g ∧ ¬Sends sha c g) :
    Until k E R (fun _ => True) (program sha c) := by
  have hexecute : ∀ tag, ¬E (.execute tag) := fun tag ho => by
    obtain ⟨_, _, heq, -⟩ := hE _ ho
    cases heq
  have hany : ∀ {p : NeedAct Bool}, Awaits k E R (fun _ => True) p →
      Until k E R (fun _ => True) p := fun h => Until.mono h fun _ _ => trivial
  cases c with
  | relay L paidNeedEnforcement m =>
    refine hany (awaits_relayNeed (fun policy g hg ho => ?_) fun _ => trivial)
    obtain ⟨_, _, heq, hno⟩ := hE _ ho
    cases heq
    exact hno hg
  | ledger L r => exact hany (awaits_write fun _ => trivial)
  | provider h e =>
    cases hneed : normalizeEvent sha e with
    | none =>
      rw [program, hneed]
      exact hany (Awaits.pure trivial)
    | some need =>
      rw [program, hneed]
      refine hany (awaits_executeNeed (Q := fun _ => True) (awaits_required (fun _ => ?_) ?_)
        (fun tag _ => hexecute tag) fun _ => trivial)
      · exact awaits_verify (awaits_getNeed (Q := fun _ => True) fun _ => trivial)
          fun _ _ _ _ => trivial
      · exact fun _ => trivial

/-- No documents yet. -/
def blank : NeedStore := ⟨fun _ => [], []⟩

theorem reserved_blank : Reserved blank :=
  ⟨fun _ => List.Pairwise.nil, fun _ _ h => absurd h List.not_mem_nil,
    fun _ _ h => absurd h List.not_mem_nil⟩

theorem old_blank : Old blank := ⟨rfl, fun _ _ h => absurd h List.not_mem_nil⟩

/-- A call that was not made has neither acted nor anything to do. -/
theorem unmade (hrun : Run (program sha) false (World.start blank) w) (hn : w.calls.length ≤ n) :
    w.running n = none ∧ ∀ o, (n, o) ∉ w.store.log := by
  have hsound := sound_of_run verified_program reserved_blank old_blank hrun
  constructor
  · cases hp : w.running n with
    | none => rfl
    | some p =>
      obtain ⟨c, hc, -⟩ := hsound.running n p hp
      have := getElem?_lt hc
      omega
  · intro o ho
    have hacts : (n, o) ∈ w.store.acts n := List.mem_filter.mpr ⟨ho, by simp⟩
    rw [(hsound.fresh n hn).acts] at hacts
    cases hacts

/-- GRANTED: what was granted to a call was granted to a relay's, for its own message. -/
theorem granted_of_run (hrun : Run (program sha) false (World.start blank) w) {policy : OfferPolicy}
    {g : Grant} (hlog : (n, Deed.granted policy g) ∈ w.store.log) :
    ∃ c, w.calls[n]? = some c ∧ Sends sha c g := by
  cases hc : w.calls[n]? with
  | none => exact absurd hlog ((unmade hrun (List.getElem?_eq_none_iff.mp hc)).2 _)
  | some c =>
    refine ⟨c, rfl, ?_⟩
    by_contra hno
    obtain ⟨u, -, -, hfalse⟩ := cause_of_run (k := [])
      (E := fun o => ∃ policy g, o = .granted policy g ∧ ¬Sends sha c g) (R := fun _ => False)
      hrun rfl (fun o ho => by cases ho)
      (fun c' hc' => by
        rw [hc] at hc'
        cases hc'
        exact until_granted c fun _ ho => ho)
      hlog ⟨policy, g, rfl, hno⟩
    exact hfalse

/-! ### The provider's last check -/

/-- The record `tag` as the provider must read it. -/
def Admits (h : ProviderHost) (need : Presented) (tag : ℕ) (r : Option (ℕ × StoredNeed)) : Prop :=
  ∃ record, r = some (tag, record) ∧ accepts h.nodeId need record = true

theorem awaits_record (hnone : ¬R none) :
    Awaits id E R (fun r => ¬R r) (getNeed id) := by
  unfold getNeed
  split
  · exact Awaits.throw
  refine Awaits.bind (Awaits.get fun r hr => ?_)
  cases r with
  | none => exact Awaits.pure hnone
  | some r =>
    simp only
    split
    · exact Awaits.throw
    · exact Awaits.pure hr

/-- The provider starts its adapter only with a tag that it read, of a record that admits the NEED. -/
theorem until_executed {e : ProviderEvent} {tag : ℕ} (hneed : normalizeEvent sha e = some need)
    (hreq : h.requirePaidNeedLedger = true) :
    Until need.id (fun o => o = .execute tag) (Admits h need tag) (fun _ => True)
      (program sha (.provider h e)) := by
  rw [program, hneed]
  have hverify : Awaits need.id (fun o => o = .execute tag) (Admits h need tag) (fun t => t ≠ tag)
      (verifyPaidNeedAtProvider h need) := by
    refine awaits_verify (awaits_record ?_) ?_
    · rintro ⟨_, hr, -⟩
      cases hr
    · rintro tag' record hno hok rfl
      exact hno ⟨record, rfl, hok⟩
  have hrun : Awaits need.id (fun o => o = .execute tag) (Admits h need tag) (fun _ => True)
      (executeNeed h need) := by
    refine awaits_executeNeed (awaits_required (fun _ => hverify) ?_) ?_ fun _ => trivial
    · intro hno
      rw [hreq] at hno
      cases hno
    · rintro _ hne ⟨⟩
      exact hne rfl
  exact Until.mono hrun fun _ _ => trivial

/-- The record is of this very NEED, for this provider, and nobody has ended it. -/
structure Fits (h : ProviderHost) (need : Presented) (record : StoredNeed) : Prop where
  matched : record.status = .matched
  id : record.logicalId = need.id
  requester : record.requester = need.sender
  provider : record.provider = h.nodeId
  capability : some record.capability = need.capability
  fingerprint : some record.fingerprint = need.paidFingerprint

theorem accepts_fits {record : StoredNeed} (hid : record.logicalId = need.id)
    (hok : accepts h.nodeId need record = true) :
    Fits h need record ∧ record.paidAuthorization.isSome = true := by
  obtain ⟨hstatus, hsender, hprovider, hcapability, -, hfingerprint, hpaid⟩ := of_decide_eq_true hok
  refine ⟨⟨hstatus, hid, hsender, hprovider, hcapability, hfingerprint⟩, ?_⟩
  cases hp : record.paidAuthorization with
  | none =>
    rw [hp] at hpaid
    cases hpaid
  | some a => rfl

/-- What a record that fits now says of every older one: it fitted as well. -/
theorem Fits.older {newer older : StoredNeed} (hfits : Fits h need newer) (hkeep : Keeps newer older) :
    Fits h need older where
  matched := by
    by_contra hne
    exact hne ((hkeep.status hne).symm.trans hfits.matched)
  id := hkeep.logicalId.symm.trans hfits.id
  requester := hkeep.requester.symm.trans hfits.requester
  provider := hkeep.provider.symm.trans hfits.provider
  capability := by
    rw [← hkeep.capability]
    exact hfits.capability
  fingerprint := by
    rw [← hkeep.fingerprint]
    exact hfits.fingerprint

/-- PAID ADMISSION: where a provider that requires it starts its adapter for a NEED, at its last check
    the record was of exactly this NEED and matched, and a relay's call for the very message had
    reserved it, after it was granted exactly that by an authority's valid decision. Where the record
    does not fit the NEED when the call is made, or is cancelled or completed, it never starts. -/
theorem paid_admission (sha : JsString → JsString) {w₀ w : NeedWorld}
    (hstart : Run (program sha) false (World.start blank) w₀) (hrun : Run (program sha) false w₀ w)
    {n : ℕ} {h : ProviderHost} {e : ProviderEvent} {need : Presented} (hnew : w₀.calls.length ≤ n)
    (hcall : w.calls[n]? = some (.provider h e)) (hneed : normalizeEvent sha e = some need)
    (hreq : h.requirePaidNeedLedger = true) :
    (∀ tag, (n, Deed.execute tag) ∈ w.store.log →
      ∃ u, Run (program sha) false w₀ u ∧ Run (program sha) false u w ∧
        ∃ v older, u.store.docs need.id = v :: older ∧ tag = older.length + 1 ∧
          Fits h need v.doc ∧
          ∃ m L message policy, u.calls[m]? = some (.relay L true message) ∧
            message.id = need.id ∧ message.sender = need.sender ∧
            message.capability = need.capability ∧ some (sha message.text) = need.paidFingerprint ∧
            (m, Deed.granted policy (grantOf v.doc)) ∈ u.store.log ∧
            policy.Allows (grantOf v.doc) ∧
            ∃ first ∈ (u.store.docs need.id).getLast?, first.writer = some m) ∧
    ((∃ v ∈ (w₀.store.docs need.id).head?, ¬Fits h need v.doc) →
      ∀ tag, (n, Deed.execute tag) ∉ w.store.log) := by
  obtain ⟨hrunning, hlog⟩ := unmade hstart hnew
  have hcause : ∀ tag, (n, Deed.execute tag) ∈ w.store.log →
      ∃ u, Run (program sha) false w₀ u ∧ Run (program sha) false u w ∧
        ∃ v older, u.store.docs need.id = v :: older ∧ tag = older.length + 1 ∧
          Fits h need v.doc ∧ v.doc.paidAuthorization.isSome = true := by
    intro tag hact
    obtain ⟨u, hu, huw, record, hread, hok⟩ := cause_of_run
      (E := fun o => o = .execute tag) (R := Admits h need tag) hrun hrunning hlog
      (fun c hc => by
        rw [hcall] at hc
        cases hc
        exact until_executed hneed hreq)
      hact rfl
    have hinv := (sound_of_run verified_program reserved_blank old_blank (hstart.trans hu)).inv
    rw [Store.read, List.drop_zero] at hread
    cases hd : u.store.docs need.id with
    | nil =>
      rw [hd] at hread
      cases hread
    | cons v older =>
      rw [hd] at hread
      cases hread
      have hid : v.doc.logicalId = need.id := hinv.placed _ v (hd ▸ List.mem_cons_self)
      obtain ⟨hfits, hpaid⟩ := accepts_fits hid hok
      exact ⟨u, hu, huw, v, older, hd, rfl, hfits, hpaid⟩
  refine ⟨fun tag hact => ?_, ?_⟩
  · obtain ⟨u, hu, huw, v, older, hd, htag, hfits, hpaid⟩ := hcause tag hact
    have hinv := (sound_of_run verified_program reserved_blank old_blank (hstart.trans hu)).inv
    obtain ⟨m, policy, hgranted, hallows, first, hfirst, hwriter⟩ :=
      hinv.granted need.id v (hd ▸ List.mem_cons_self) hpaid
    obtain ⟨c, hc, L, message, rfl, hid, hsender, hcap, htext⟩ :=
      granted_of_run (hstart.trans hu) hgranted
    refine ⟨u, hu, huw, v, older, hd, htag, hfits, m, L, message, policy, hc,
      hid.symm.trans hfits.id, hsender.symm.trans hfits.requester, hcap.trans hfits.capability, ?_,
      hgranted, hallows, first, hfirst, hwriter⟩
    rw [← htext]
    exact hfits.fingerprint
  · rintro ⟨v₀, hv₀, hno⟩ tag hact
    obtain ⟨u, hu, -, v, older, hd, -, hfits, -⟩ := hcause tag hact
    have hsound := sound_of_run verified_program reserved_blank old_blank hstart
    obtain ⟨hmay, hsound'⟩ := hsound.may_of_run verified_program hu
    have hmem : v₀ ∈ v :: older := by
      rw [← hd]
      exact (hmay.1 need.id).subset (List.mem_of_mem_head? hv₀)
    rcases List.mem_cons.mp hmem with rfl | hold
    · exact hno hfits
    · have hhistory := hsound'.inv.history need.id
      rw [hd] at hhistory
      exact hno (hfits.older ((List.pairwise_cons.mp hhistory).1 v₀ hold))

/-! ### A paid NEED -/

def someText : JsString := js "\x7b\"from\":\"node-1\",\"id\":\"need-1\",\"payload\":\x7b\"capability\":\"echo\"\x7d,\"type\":\"NEED\"\x7d"

/-- SHA-256, of the texts that are hashed here. -/
def digests (s : JsString) : JsString :=
  if s = someText then
    js "7ee4c72eb7af8c8a7c73091782f378225e64224b57eb5c693a79a19bbbb58294"
  else if s = js "need-1" then
    js "d3d89dcfc65961f52e172206ec8db49098d0fc975c00b939761ca8e452813d11"
  else js "f430e673d93ac3f880c8b552c72b8d1e23c514e35f65d778f856f6f67f1263b8"

def someLimits : Limits := ⟨850000, 256, 5, digests⟩

def somePolicy : OfferPolicy where
  providerNodeId := js "node-2"
  providerGrantAuthority := some
    { durable := true
      authorize := fun _ _ _ => some ⟨true, js "private", none⟩
      getProviderPolicy := fun _ => some (some ⟨js "active", js "private"⟩)
      revision := some 3 }

def someMessage : NeedMessage where
  fast := false
  id := js "need-1"
  sender := js "node-1"
  capability := some (js "echo")
  text := someText
  event := js "\x7b\"kind\":\"NEED\"\x7d"

def someProvider : ProviderHost := ⟨js "node-2", [js "echo"], true, true, false, false⟩

def somePresented : Presented :=
  ⟨js "need-1", js "node-1", some (js "echo"), false, some (digests someText)⟩

def someRequest : NeedRequest := .provider someProvider (.need true false false someMessage)

def agreeing : Outside where
  clock := ⟨1, by decide⟩
  refused := .ok ()
  capacity := .ok ()
  matching := .ok (some ⟨js "node-2", somePolicy, js "[\x7b\x7d,null]"⟩)
  access := true
  acquired := .ok true
  billing := .ok true
  materialized := .ok ()
  aborted := false

/-- The relay reserves the NEED. -/
def afterRelay : NeedWorld := (World.start blank).play (program digests)
  (.call (.relay someLimits true someMessage) :: List.replicate 8 (.go 0 agreeing))

/-- The provider is shown it, and starts its adapter. -/
def afterProvider : NeedWorld := afterRelay.play (program digests)
  (.call someRequest :: List.replicate 11 (.go 1 agreeing))

theorem run_afterRelay : Run (program digests) false (World.start blank) afterRelay :=
  run_play (program digests) false _ (World.start blank)

theorem run_afterProvider : Run (program digests) false afterRelay afterProvider :=
  run_play (program digests) false _ afterRelay

def isExecute : ℕ × Deed → Bool
  | (1, .execute 1) => true
  | _ => false

theorem paid_need :
    ∃ u, Run (program digests) false afterRelay u ∧ ∃ v older,
      u.store.docs (js "need-1") = v :: older ∧ Fits someProvider somePresented v.doc := by
  have hany : afterProvider.store.log.any isExecute = true := by
    have hdigests : digests = _ := funext digests.eq_1
    rw [afterProvider, afterRelay, someRequest, someProvider, someLimits, someMessage, hdigests]
    repeat rw [js_ofList]
    decide +kernel
  have hexecuted : (1, Deed.execute 1) ∈ afterProvider.store.log := by
    obtain ⟨o, ho, hexec⟩ := List.any_eq_true.mp hany
    unfold isExecute at hexec
    split at hexec
    · exact ho
    · cases hexec
  have hrelay : afterRelay.calls = [.relay someLimits true someMessage] :=
    calls_call (program digests) _ 0 agreeing 8 (World.start blank)
  have hcalls : afterProvider.calls = afterRelay.calls ++ [someRequest] :=
    calls_call (program digests) someRequest 1 agreeing 11 afterRelay
  have hcall : afterProvider.calls[1]? = some someRequest := by
    rw [hcalls, hrelay]
    rfl
  have hneed : normalizeEvent digests (.need true false false someMessage) = some somePresented := rfl
  obtain ⟨u, hu, -, v, older, hd, -, hfits, -⟩ := (paid_admission digests run_afterRelay
    run_afterProvider (by rw [hrelay]; exact Nat.le_refl _) hcall hneed rfl).1 1 hexecuted
  exact ⟨u, hu, v, older, hd, hfits⟩

end Truyn.Grants
