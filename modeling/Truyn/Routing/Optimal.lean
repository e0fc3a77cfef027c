import Truyn.Routing.Selection

/-! routing:optimal | what a selection returns, and that the best of it comes first

    `Eligible` says of an offer what each part of the selection found: the relay at the filter, the
    ledger in its answer, the settings in the ranking. A selection returns the offers of the
    directory of which all of it is true, and no other (`mem_matchingOffers`). -/

namespace Truyn.Routing

variable {H : Host} {s t : State} {now : ℤ} {w : Wait} {q : Query} {settings : Settings}
  {offer : Offer} {l ranked : List Offer}

/-! ### The ledger -/

/-- The ledger's answer confirms the offer. -/
def Confirmed (H : Host) (getOffer : JsString → Except HttpError (Option Durable))
    (offer : Offer) : Prop :=
  ∃ saved, readOffer H getOffer offer = .ok saved ∧ durableOfferMatches H offer saved = .ok true

variable {getOffer : JsString → Except HttpError (Option Durable)}

theorem mem_confirmBatch {batch : List Offer} (h : confirmBatch H getOffer batch = .ok l) :
    offer ∈ l ↔ offer ∈ batch ∧ Confirmed H getOffer offer := by
  induction batch generalizing l with
  | nil =>
    obtain rfl : [] = l := Except.ok.inj h
    simp
  | cons first batch ih =>
    obtain ⟨saved, hsaved, h⟩ := Checks.bind_ok.mp h
    rw [List.mapM_cons] at hsaved
    obtain ⟨answer, hanswer, hsaved⟩ := Checks.bind_ok.mp hsaved
    obtain ⟨answers, hanswers, hsaved⟩ := Checks.bind_ok.mp hsaved
    obtain rfl := Checks.pure_ok.mp hsaved
    obtain ⟨matched, hmatched, h⟩ := Checks.bind_ok.mp h
    obtain ⟨rest, hrest, h⟩ := Checks.bind_ok.mp h
    obtain rfl := Checks.pure_ok.mp h
    have hbatch := ih (Checks.bind_ok.mpr ⟨answers, hanswers, hrest⟩)
    have hfirst : Confirmed H getOffer first ↔ matched = true := by
      constructor
      · rintro ⟨saved, hs, hm⟩
        obtain rfl : answer = saved := Except.ok.inj (hanswer.symm.trans hs)
        exact Except.ok.inj (hmatched.symm.trans hm)
      · rintro rfl
        exact ⟨answer, hanswer, hmatched⟩
    by_cases hm : matched = true
    · rw [if_pos hm, List.mem_cons, List.mem_cons, hbatch]
      constructor
      · rintro (rfl | ⟨hmem, hok⟩)
        · exact ⟨.inl rfl, hfirst.mpr hm⟩
        · exact ⟨.inr hmem, hok⟩
      · rintro ⟨rfl | hmem, hok⟩
        · exact .inl rfl
        · exact .inr ⟨hmem, hok⟩
    · rw [if_neg hm, List.mem_cons, hbatch]
      constructor
      · exact fun ⟨hmem, hok⟩ => ⟨.inr hmem, hok⟩
      · rintro ⟨rfl | hmem, hok⟩
        · exact absurd (hfirst.mp hok) hm
        · exact ⟨hmem, hok⟩

/-- No candidate is lost between the batches. -/
theorem mem_confirm {fuel : ℕ} {candidates : List Offer} (hfuel : candidates.length ≤ fuel)
    (h : confirm H getOffer fuel candidates = .ok l) :
    offer ∈ l ↔ offer ∈ candidates ∧ Confirmed H getOffer offer := by
  induction fuel generalizing candidates l with
  | zero =>
    obtain rfl := List.length_eq_zero_iff.mp (Nat.le_zero.mp hfuel)
    obtain rfl : [] = l := Except.ok.inj h
    simp
  | succ fuel ih =>
    cases candidates with
    | nil =>
      obtain rfl : [] = l := Except.ok.inj h
      simp
    | cons first candidates =>
      obtain ⟨eligible, hbatch, h⟩ := Checks.bind_ok.mp h
      obtain ⟨rest, hrest, h⟩ := Checks.bind_ok.mp h
      obtain rfl := Checks.pure_ok.mp h
      have hpos := H.reads_pos
      have hshort : ((first :: candidates).drop H.maxConcurrentOfferLedgerReads).length ≤ fuel := by
        rw [List.length_drop]
        simp only [List.length_cons] at hfuel ⊢
        omega
      rw [List.mem_append, mem_confirmBatch hbatch, ih hshort hrest, ← or_and_right,
        ← List.mem_append, List.take_append_drop]

/-! ### Eligibility -/

structure Eligible (H : Host) (s : State) (now : ℤ) (w : Wait) (q : Query) (settings : Settings)
    (offer : Offer) : Prop where
  unrevoked : offer.revoked = false
  capability : ∀ capability, given q.capability = some capability → offer.capability = capability
  foreign : ∀ requester, given q.requesterNodeId = some requester →
    offer.envelope.sender ≠ requester
  fresh : isNodeFresh H s offer.envelope.sender now = true
  allowed : ∀ requester, given q.requesterNodeId = some requester →
    (H.localDevelopmentMode = false ∨ H.paidNeedEnforcement = true) →
    providerPolicyAllowsRequester offer.policy requester H.trustedRequesterNodeIds = true
  confirmed : Confirmed H w.getOffer offer
  affordable : ∀ ceiling, settings.ceiling = some ceiling →
    offerUnitCost H offer settings.ratio ≤ ceiling

theorem capable_iff {capability : Option JsString} : Directory.capable capability offer = true ↔
    ∀ c, given capability = some c → offer.capability = c := by
  rcases capability with - | - | ⟨u, c⟩
  · simp [Directory.capable, given]
  · simp [Directory.capable, given]
  · simp [Directory.capable, given]

theorem permits_iff {requesterNodeId : Option JsString} :
    permits H offer requesterNodeId = true ↔
      ∀ requester, given requesterNodeId = some requester → offer.envelope.sender ≠ requester ∧
        ((H.localDevelopmentMode = false ∨ H.paidNeedEnforcement = true) →
          providerPolicyAllowsRequester offer.policy requester H.trustedRequesterNodeIds = true) := by
  unfold permits
  cases given requesterNodeId with
  | none => simp
  | some requester =>
    cases H.localDevelopmentMode <;> cases H.paidNeedEnforcement <;> simp

theorem withinCeiling_iff : withinCeiling H settings offer = true ↔
    ∀ ceiling, settings.ceiling = some ceiling → offerUnitCost H offer settings.ratio ≤ ceiling := by
  unfold withinCeiling
  cases settings.ceiling with
  | none => simp
  | some ceiling => simp

theorem eligible_iff : Eligible H s now w q settings offer ↔
    candidate H s now q offer = true ∧ Confirmed H w.getOffer offer ∧
      withinCeiling H settings offer = true := by
  simp only [candidate, decide_eq_true_eq, Bool.not_eq_true', capable_iff, permits_iff,
    withinCeiling_iff]
  constructor
  · intro h
    exact ⟨⟨h.unrevoked, h.capability, h.fresh, fun r hr => ⟨h.foreign r hr, h.allowed r hr⟩⟩,
      h.confirmed, h.affordable⟩
  · rintro ⟨⟨hunrevoked, hcapability, hfresh, hrequester⟩, hconfirmed, haffordable⟩
    exact ⟨hunrevoked, hcapability, fun r hr => (hrequester r hr).1, hfresh,
      fun r hr => (hrequester r hr).2, hconfirmed, haffordable⟩

/-! ### Ranking -/

/-- How an offer stood when the relay ranked it. -/
def standingOf (H : Host) (w : Wait) (settings : Settings) (offer : Offer) :=
  standing settings.mode (assess H w.state w.rankedAt settings.ratio offer 0)

/-- What is sorted for a list of offers. -/
def entries (H : Host) (w : Wait) (settings : Settings) (offers : List Offer) : List Ranked :=
  offers.zipIdx.map fun p => assess H w.state w.rankedAt settings.ratio p.1 (w.random p.2)

theorem offers_entries (offers : List Offer) :
    (entries H w settings offers).map Ranked.offer = offers := by
  rw [entries, List.map_map]
  exact List.zipIdx_map_fst 0 offers

/-- The random tie does not count in the standing. -/
theorem standing_entries {offers : List Offer} {entry : Ranked}
    (h : entry ∈ entries H w settings offers) :
    standing settings.mode entry = standingOf H w settings entry.offer := by
  obtain ⟨p, -, rfl⟩ := List.mem_map.mp h
  rfl

theorem mem_ranked {offers : List Offer} :
    offer ∈ (sort settings.mode (entries H w settings offers)).map Ranked.offer ↔
      offer ∈ offers := by
  have hperm := (List.perm_insertionSort
    (fun a b => negative (compare settings.mode b a) = false) (entries H w settings offers)).map
      Ranked.offer
  rw [offers_entries] at hperm
  exact hperm.mem_iff

theorem rankOffers_ok {eligible : List Offer} {routing : Option Trust.Value}
    (h : rankOffers H w.state eligible routing w.rankedAt w.random = .ok (ranked, t)) :
    ∃ settings, routingSettings routing = .ok settings ∧
      (∀ offer, offer ∈ ranked ↔ offer ∈ eligible ∧ withinCeiling H settings offer = true) ∧
      ∀ first ∈ ranked.head?, ∀ offer ∈ ranked,
        standingOf H w settings first ≤ standingOf H w settings offer := by
  obtain ⟨settings, hsettings, h⟩ := Checks.bind_ok.mp h
  obtain ⟨rfl, -⟩ := Prod.mk.inj (Checks.pure_ok.mp h)
  refine ⟨settings, hsettings, fun offer => ?_, ?_⟩
  · rw [← List.mem_filter]
    exact mem_ranked
  · intro first hfirst offer hoffer
    have hmem : offer ∈ (entries H w settings (eligible.filter (withinCeiling H settings))).map
        Ranked.offer := by
      rw [offers_entries]
      exact mem_ranked.mp hoffer
    obtain ⟨entry, hentry, rfl⟩ := List.mem_map.mp hmem
    rw [List.head?_map, Option.mem_def, Option.map_eq_some_iff] at hfirst
    obtain ⟨best, hbest, rfl⟩ := hfirst
    obtain ⟨rest, hsort⟩ := List.head?_eq_some_iff.mp hbest
    have hin : best ∈ entries H w settings (eligible.filter (withinCeiling H settings)) :=
      (List.perm_insertionSort _ _).mem_iff.mp (List.mem_of_mem_head? hbest)
    rw [← standing_entries hin, ← standing_entries hentry]
    exact standing_le_of_sort hsort hentry

/-! ### Selection -/

theorem matchingOffers_ok {after : State} (h : matchingOffers H s now w q = .ok (ranked, after)) :
    ∃ eligible t,
      confirm H w.getOffer (candidates H s now q).length (candidates H s now q) = .ok eligible ∧
      rankOffers H w.state eligible q.routing w.rankedAt w.random = .ok (ranked, t) := by
  unfold matchingOffers at h
  obtain ⟨-, h⟩ := Checks.guard_ok.mp h
  obtain ⟨eligible, hconfirm, h⟩ := Checks.bind_ok.mp h
  obtain ⟨⟨found, t⟩, hrank, h⟩ := Checks.bind_ok.mp h
  obtain ⟨last, -, h⟩ := Checks.bind_ok.mp h
  obtain ⟨rfl, -⟩ := Prod.mk.inj (Checks.pure_ok.mp h)
  exact ⟨eligible, t, hconfirm, hrank⟩

/-- A selection returns every eligible offer of the directory and no other, and none has a lesser
    standing than the first. -/
theorem matchingOffers_best {after : State} (hs : s.directory.Indexed)
    (h : matchingOffers H s now w q = .ok (ranked, after)) :
    ∃ settings, routingSettings q.routing = .ok settings ∧
      (∀ offer, offer ∈ ranked ↔
        offer ∈ s.directory.values ∧ Eligible H s now w q settings offer) ∧
      ∀ first ∈ ranked.head?, ∀ offer ∈ ranked,
        standingOf H w settings first ≤ standingOf H w settings offer := by
  obtain ⟨eligible, t, hconfirm, hrank⟩ := matchingOffers_ok h
  obtain ⟨settings, hsettings, hmem, hbest⟩ := rankOffers_ok hrank
  refine ⟨settings, hsettings, fun offer => ?_, hbest⟩
  have hscan := (Directory.offersForCapability_perm hs q.capability).mem_iff (a := offer)
  rw [hmem, mem_confirm le_rfl hconfirm, candidates, List.mem_filter, hscan, List.mem_filter, eligible_iff]
  have hcapable (hc : candidate H s now q offer = true) :
      Directory.capable q.capability offer = true := (of_decide_eq_true hc).2.1
  constructor
  · rintro ⟨⟨⟨⟨hin, -⟩, hcandidate⟩, hconfirmed⟩, hwithin⟩
    exact ⟨hin, hcandidate, hconfirmed, hwithin⟩
  · rintro ⟨hin, hcandidate, hconfirmed, hwithin⟩
    exact ⟨⟨⟨⟨hin, hcapable hcandidate⟩, hcandidate⟩, hconfirmed⟩, hwithin⟩

/-- Whatever was put, dropped and revoked before: the index finds what a full scan finds, the
    comparator is a strict weak order, and a selection returns the offers that were eligible when
    the relay filtered them, the ledger answered for them and they were ranked, best first. -/
theorem selects_best {acts : List Directory.Act} {after : State}
    (hs : s.directory = Directory.after acts)
    (h : matchingOffers H s now w q = .ok (ranked, after)) :
    (∀ capability, (s.directory.offersForCapability capability).Perm
      (s.directory.values.filter (Directory.capable capability))) ∧
    (∀ mode, IsStrictWeakOrder Ranked fun a b => negative (compare mode a b) = true) ∧
    (∀ mode a b, negative (compare mode a b) = true ↔
      standing mode a < standing mode b ∨ standing mode a = standing mode b ∧ a.tie < b.tie) ∧
    ∃ settings, routingSettings q.routing = .ok settings ∧
      (∀ offer, offer ∈ ranked ↔
        offer ∈ s.directory.values ∧ Eligible H s now w q settings offer) ∧
      ∀ first ∈ ranked.head?, ∀ offer ∈ ranked,
        standingOf H w settings first ≤ standingOf H w settings offer := by
  have hindexed : s.directory.Indexed := hs ▸ Directory.indexed_after acts
  exact ⟨Directory.offersForCapability_perm hindexed, compare_strictWeakOrder,
    fun mode a b => (negative_compare mode a b).trans Prod.Lex.toLex_lt_toLex,
    matchingOffers_best hindexed h⟩

/-! ### One provider, and two -/

/-- The offer of a provider that serves its owner only. -/
def soloOffer : Offer where
  envelope := ⟨js "offer", js "provider", .object [], js "\x7b\x7d"⟩
  capability := js "llm"
  policy := ⟨js "provider", js "llm", .ownerOnly, [js "owner"], none, none⟩

def solo : State where
  directory := Directory.after [.put (js "offer") soloOffer]
  openSockets := [js "provider"]

def relay (localDevelopmentMode : Bool) : Host where
  localDevelopmentMode
  nodeFreshnessMs := 60000
  sha256 := id
  round x := x

def asks (requester : String) : Query where
  capability := some (js "llm")
  requesterNodeId := some (js requester)

/-- A second offer, with a price. -/
def cheapOffer : Offer where
  envelope := ⟨js "cheap", js "other", .object [(js "pricing", .object
    [(js "inputUsdPerMTok", .number 1), (js "outputUsdPerMTok", .number 4)])], js "\x7b\x7d"⟩
  capability := js "llm"
  policy := ⟨js "other", js "llm", .ownerOnly, [js "owner"], none, none⟩

def both : State where
  directory := Directory.after [.put (js "offer") soloOffer, .put (js "cheap") cheapOffer]
  openSockets := [js "provider", js "other"]

def atOnce : Wait := { state := both, rankedAt := 6, reservedAt := 6 }

/-- Two offers, of which the one with a price comes first. -/
theorem selects_best_priced : ∃ ranked after,
    matchingOffers (relay false) both 5 atOnce (asks "owner") = .ok (ranked, after) ∧
    ranked.map (fun offer => offer.envelope.id) = [js "cheap", js "offer"] ∧
    ∃ settings, routingSettings (asks "owner").routing = .ok settings ∧
      (∀ offer, offer ∈ ranked ↔ offer ∈ both.directory.values ∧
        Eligible (relay false) both 5 atOnce (asks "owner") settings offer) ∧
      ∀ first ∈ ranked.head?, ∀ offer ∈ ranked,
        standingOf (relay false) atOnce settings first ≤ standingOf (relay false) atOnce settings offer := by
  have hids : (matchingOffers (relay false) both 5 atOnce (asks "owner")).toOption.map
      (fun r => r.1.map fun offer => offer.envelope.id) = some [js "cheap", js "offer"] := by
    decide +kernel
  obtain ⟨⟨ranked, after⟩, hok, hids⟩ := Option.map_eq_some_iff.mp hids
  have h := Checks.toOption_eq_some.mp hok
  exact ⟨ranked, after, h, hids, (selects_best rfl h).2.2.2⟩

/-- In local development mode a stranger is given what the policy denies it; and an offer that is
    revoked while the ledger is asked is returned, as the filter is not run again. -/
theorem policy_skipped_and_revoked_late :
    (∃ after, matchingOffers (relay true) solo 5 { state := solo, rankedAt := 6, reservedAt := 6 }
        (asks "stranger") = .ok ([soloOffer], after) ∧
      providerPolicyAllowsRequester soloOffer.policy (js "stranger")
        (relay true).trustedRequesterNodeIds = false) ∧
    ∃ after, matchingOffers { relay false with lifecycleLedger := some .cosmosMultiHost } solo 5
        { getOffer := fun _ => .ok (some ⟨js "provider", soloOffer.envelope.json, false⟩)
          state := { solo with directory := solo.directory.revoke (js "offer") }
          rankedAt := 6, reservedAt := 6 } (asks "owner") = .ok ([soloOffer], after) ∧
      (Maps.get after.directory.offers (js "offer")).map Offer.revoked = some true :=
  ⟨⟨_, rfl, rfl⟩, ⟨_, rfl, rfl⟩⟩

end Truyn.Routing
