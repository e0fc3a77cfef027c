import Truyn.Js.Json
import Truyn.Schemes.Lanes

/-! context:singleflight | singleflight-semantic-router.js, shared warm-ups and retrievals

    A warm-up marks its root when it is done, whether or not the root was invalidated meanwhile, and
    whoever asks for the root while it is in flight joins it. So a retrieval can rest on a warm-up that
    is older than an invalidation it came after; where no root is invalidated while its warm-up is in
    flight, none does (`singleflight_consistent`). One warm-up of a root is in flight at a time, and
    the retrievals of one query take turns, come what may. -/

namespace Truyn.SingleFlight

abbrev Cid := JsString

/-- `contextQueryHash(query)`: the algorithm and 64 digits. -/
abbrev QueryHash := { s : JsString // s.length = 71 }

inductive Status
  | running
  | resolved
  | failed
  deriving DecidableEq

/-- A call of `router.warmContext`; `since` is how often its root had been invalidated before. -/
structure WarmUp where
  cid : Cid
  since : ℕ
  status : Status

/-- Where a flight of `retrieve` is: it awaits `ensureRootWarm`, it has its root warm, it has entered
    its lane, or its warm-up failed. The number is that of the warm-up it rests on. -/
inductive Phase
  | joining (warmUp : ℕ) (leads : Bool)
  | warm (warmUp : ℕ)
  | inLane (warmUp lane : ℕ)
  | failed

def Phase.warmUp : Phase → Option ℕ
  | .joining w _ | .warm w | .inLane w _ => some w
  | .failed => none

structure Flight where
  cid : Cid
  queryHash : QueryHash
  topK : ℕ
  since : ℕ
  phase : Phase

/-- A call of `retrieve`, and the flight that it awaits. -/
structure Retrieval where
  cid : Cid
  since : ℕ
  flight : ℕ

/-- The maps of the router, and every warm-up, flight and call that there has been. A root that is
    warm is marked with the warm-up that made it so. -/
structure State where
  warmedRoots : Cid → Option ℕ := fun _ => none
  rootWarmFlights : Cid → Option ℕ := fun _ => none
  retrievalFlights : JsString → Option ℕ := fun _ => none
  lanes : Lanes.Queue QueryHash := {}
  warmUps : List WarmUp := []
  flights : List Flight := []
  retrievals : List Retrieval := []
  invalidations : Cid → ℕ := fun _ => 0

/-- The `key` of a flight: `cid:queryHash:topK`. -/
def keyOf (cid : Cid) (queryHash : QueryHash) (topK : ℕ) : JsString :=
  cid ++ 58 :: (queryHash.1 ++ 58 :: numeral topK)

def Flight.key (f : Flight) : JsString := keyOf f.cid f.queryHash f.topK

def startWarmUp (s : State) (cid : Cid) : State :=
  { s with
    warmUps := s.warmUps ++ [⟨cid, s.invalidations cid, .running⟩]
    rootWarmFlights := Function.update s.rootWarmFlights cid (some s.warmUps.length) }

/-- The synchronous part, and what is awaited then. -/
def ensureRootWarm (s : State) (cid : Cid) : State × Phase :=
  match s.warmedRoots cid with
  | some w => (s, .warm w)
  | none =>
    match s.rootWarmFlights cid with
    | some w => (s, .joining w false)
    | none => (startWarmUp s cid, .joining s.warmUps.length true)

def retrieve (s : State) (cid : Cid) (queryHash : QueryHash) (topK : ℕ) : State :=
  let key := keyOf cid queryHash topK
  match s.retrievalFlights key with
  | some g => { s with retrievals := s.retrievals ++ [⟨cid, s.invalidations cid, g⟩] }
  | none =>
    let (s', phase) := ensureRootWarm s cid
    { s' with
      flights := s'.flights ++ [⟨cid, queryHash, topK, s.invalidations cid, phase⟩]
      retrievalFlights := Function.update s'.retrievalFlights key (some s.flights.length)
      retrievals := s'.retrievals ++ [⟨cid, s.invalidations cid, s.flights.length⟩] }

/-- `router.warmContext` has come to its end. -/
def settleWarmUp (s : State) (w : ℕ) (ok : Bool) : Option State :=
  match s.warmUps[w]? with
  | some ⟨cid, _, .running⟩ =>
    some
      { s with
        warmUps := s.warmUps.modify w fun m => { m with status := if ok then .resolved else .failed }
        warmedRoots :=
          if ok then Function.update s.warmedRoots cid (some w) else s.warmedRoots }
  | _ => none

/-- The `finally` of the call that started the warm-up. -/
def endWarmUp (s : State) (w : ℕ) : Option State :=
  match s.warmUps[w]? with
  | some m =>
    if m.status = .running then none
    else if s.rootWarmFlights m.cid = some w then
      some { s with rootWarmFlights := Function.update s.rootWarmFlights m.cid none }
    else some s
  | none => none

def setPhase (s : State) (g : ℕ) (phase : Phase) : State :=
  { s with flights := s.flights.modify g fun f => { f with phase := phase } }

/-- `ensureRootWarm` returns to its flight; who leads the warm-up has cleaned up before. -/
def proceed (s : State) (g : ℕ) : Option State :=
  match s.flights[g]? with
  | some ⟨cid, _, _, _, .joining w leads⟩ =>
    if leads ∧ s.rootWarmFlights cid = some w then none
    else
      match s.warmUps[w]?.map WarmUp.status with
      | some .resolved => some (setPhase s g (.warm w))
      | some .failed => some (setPhase s g .failed)
      | _ => none
  | _ => none

/-- `inQueryLane`: who finds nobody before starts to work at once. -/
def enterLane (s : State) (g : ℕ) : Option State :=
  match s.flights[g]? with
  | some ⟨_, queryHash, _, _, .warm w⟩ =>
    let lane := s.lanes.entries.length
    let entered := s.lanes.enter queryHash
    let lanes :=
      if s.lanes.tails queryHash = none then (entered.advance lane).getD entered else entered
    some { setPhase s g (.inLane w lane) with lanes := lanes }
  | _ => none

/-- A call in a lane goes on; who has finished its work forgets itself. -/
def laneStep (s : State) (l : ℕ) : Option State :=
  (s.lanes.advance l).map fun q =>
    { s with lanes := if q.entries[l]?.any fun e => e.phase = .finished then q.forget l else q }

/-- Whether a flight has come to its end. -/
def State.landed (s : State) (f : Flight) : Bool :=
  match f.phase with
  | .failed => true
  | .inLane _ l => s.lanes.entries[l]?.any fun e => e.phase.ended
  | _ => false

/-- The `finally` of the call that started the flight. -/
def endFlight (s : State) (g : ℕ) : Option State :=
  match s.flights[g]? with
  | some f =>
    if s.landed f = false then none
    else if s.retrievalFlights f.key = some g then
      some { s with retrievalFlights := Function.update s.retrievalFlights f.key none }
    else some s
  | none => none

/-- The synchronous part: flights whose key starts with the root are forgotten. -/
def invalidateContext (s : State) (cid : Cid) : State :=
  { s with
    warmedRoots := Function.update s.warmedRoots cid none
    retrievalFlights := fun key =>
      if (cid ++ [58]).isPrefixOf key then none else s.retrievalFlights key
    invalidations := Function.update s.invalidations cid (s.invalidations cid + 1) }

/-- Calls, and the points at which calls go on. -/
inductive Event
  | warmContext (cid : Cid)
  | retrieve (cid : Cid) (queryHash : QueryHash) (topK : ℕ)
  | invalidateContext (cid : Cid)
  | settleWarmUp (warmUp : ℕ) (ok : Bool)
  | endWarmUp (warmUp : ℕ)
  | proceed (flight : ℕ)
  | enterLane (flight : ℕ)
  | lane (lane : ℕ)
  | endFlight (flight : ℕ)

def step (s : State) : Event → Option State
  | .warmContext cid => some (ensureRootWarm s cid).1
  | .retrieve cid queryHash topK => some (retrieve s cid queryHash topK)
  | .invalidateContext cid => some (invalidateContext s cid)
  | .settleWarmUp w ok => settleWarmUp s w ok
  | .endWarmUp w => endWarmUp s w
  | .proceed g => proceed s g
  | .enterLane g => enterLane s g
  | .lane l => laneStep s l
  | .endFlight g => endFlight s g

def run : State → List Event → Option State
  | s, [] => some s
  | s, ev :: evs => (step s ev).bind fun s' => run s' evs

/-- The root that an event invalidates has no warm-up in flight. -/
def Quiet (s : State) : Event → Prop
  | .invalidateContext cid => s.rootWarmFlights cid = none
  | _ => True

def QuietRun : State → List Event → Prop
  | _, [] => True
  | s, ev :: evs => Quiet s ev ∧ (step s ev).elim True fun s' => QuietRun s' evs

variable {w g l : ℕ} {s s' : State} {cid : Cid} {ok : Bool} {ev : Event}

/-! ### Keys -/

/-- The key of a flight tells its root: the number behind the last colon has none, and a hash is always
    of one length. -/
theorem cid_of_key {cid' : Cid} {queryHash queryHash' : QueryHash} {topK topK' : ℕ}
    (h : keyOf cid queryHash topK = keyOf cid' queryHash' topK') : cid = cid' := by
  have hcolon : ∀ n, ∀ u ∈ (numeral n).reverse, decide (u ≠ 58) = true := by
    rintro n u hu
    have hdigit := (numeral_digits n u (List.mem_reverse.mp hu)).2
    rw [decide_eq_true_eq]
    rintro rfl
    exact absurd hdigit (by decide)
  have hsplit : ∀ (c : Cid) (q : QueryHash) (n : ℕ),
      (keyOf c q n).reverse.dropWhile (fun u => u ≠ 58) = 58 :: (c ++ 58 :: q.1).reverse := by
    intro c q n
    have hreverse : (keyOf c q n).reverse = (numeral n).reverse ++ 58 :: (c ++ 58 :: q.1).reverse := by
      simp [keyOf]
    rw [hreverse, List.dropWhile_append_of_pos (hcolon n)]
    exact List.dropWhile_cons_of_neg (by decide)
  have hrest := congrArg (fun k => k.reverse.dropWhile (fun u => u ≠ 58)) h
  simp only [hsplit, List.cons.injEq, true_and, List.reverse_inj] at hrest
  exact (List.append_inj' hrest (by simp [queryHash.2, queryHash'.2])).1

theorem prefix_key (f : Flight) : (f.cid ++ [58]).isPrefixOf f.key = true := by
  rw [List.isPrefixOf_iff_prefix, Flight.key, keyOf]
  exact ⟨f.queryHash.1 ++ 58 :: numeral f.topK, by simp⟩

/-! ### Warm-ups -/

/-- Nothing but the status of a warm-up changes. -/
def Grows (s s' : State) : Prop := ∀ (w : ℕ) (m : WarmUp), s.warmUps[w]? = some m →
  ∃ m', s'.warmUps[w]? = some m' ∧ m'.cid = m.cid ∧ m'.since = m.since

theorem grows_start (s : State) (cid : Cid) : Grows s (startWarmUp s cid) := fun w m hm =>
  ⟨m, by rw [startWarmUp, List.getElem?_append_left (List.getElem_of_getElem? hm).1, hm], rfl, rfl⟩

theorem ensureRootWarm_cases (s : State) (cid : Cid) :
    (∃ w, s.warmedRoots cid = some w ∧ ensureRootWarm s cid = (s, .warm w)) ∨
    (∃ w, s.rootWarmFlights cid = some w ∧ ensureRootWarm s cid = (s, .joining w false)) ∨
    (s.rootWarmFlights cid = none ∧
      ensureRootWarm s cid = (startWarmUp s cid, .joining s.warmUps.length true)) := by
  cases hwarm : s.warmedRoots cid with
  | some w => exact .inl ⟨w, rfl, by simp [ensureRootWarm, hwarm]⟩
  | none =>
    cases hflight : s.rootWarmFlights cid with
    | some w => exact .inr (.inl ⟨w, rfl, by simp [ensureRootWarm, hwarm, hflight]⟩)
    | none => exact .inr (.inr ⟨rfl, by simp [ensureRootWarm, hwarm, hflight]⟩)

/-- Whatever else a call does, it starts a warm-up of its root, or none. -/
theorem ensureRootWarm_fst (s : State) (cid : Cid) : (ensureRootWarm s cid).1 = s ∨
    s.rootWarmFlights cid = none ∧ (ensureRootWarm s cid).1 = startWarmUp s cid := by
  rcases ensureRootWarm_cases s cid with ⟨w, -, h⟩ | ⟨w, -, h⟩ | ⟨hnone, h⟩
  · exact .inl (congrArg Prod.fst h)
  · exact .inl (congrArg Prod.fst h)
  · exact .inr ⟨hnone, congrArg Prod.fst h⟩

/-- What is in flight is listed. -/
structure Single (s : State) : Prop where
  running : ∀ w m, s.warmUps[w]? = some m → m.status = .running → s.rootWarmFlights m.cid = some w
  known : ∀ cid w, s.rootWarmFlights cid = some w → ∃ m, s.warmUps[w]? = some m ∧ m.cid = cid

theorem single_start (h : Single s) (hnone : s.rootWarmFlights cid = none) :
    Single (startWarmUp s cid) where
  running w m hm hrunning := by
    simp only [startWarmUp] at hm ⊢
    rcases Nat.lt_or_ge w s.warmUps.length with hlt | hge
    · rw [List.getElem?_append_left hlt] at hm
      have hlisted := h.running w m hm hrunning
      have hne : m.cid ≠ cid := by
        rintro rfl
        rw [hnone] at hlisted
        cases hlisted
      rw [Function.update_of_ne hne, hlisted]
    · rw [List.getElem?_append_right hge, List.getElem?_singleton] at hm
      split at hm
      · cases hm
        rw [Function.update_self]
        congr 1
        omega
      · cases hm
  known c w hw := by
    simp only [startWarmUp] at hw ⊢
    by_cases hc : c = cid
    · subst hc
      rw [Function.update_self] at hw
      cases hw
      exact ⟨⟨c, s.invalidations c, .running⟩, by simp, rfl⟩
    · rw [Function.update_of_ne hc] at hw
      obtain ⟨m, hm, hcid⟩ := h.known c w hw
      obtain ⟨m', hm', hsame, -⟩ := grows_start s cid w m hm
      exact ⟨m', hm', hsame.trans hcid⟩

theorem single_ensure (h : Single s) (cid : Cid) : Single (ensureRootWarm s cid).1 := by
  rcases ensureRootWarm_fst s cid with heq | ⟨hnone, heq⟩
  · rwa [heq]
  · rw [heq]
    exact single_start h hnone

/-- Only the two lists of warm-ups matter. -/
theorem Single.congr (h : Single s) (hups : s'.warmUps = s.warmUps)
    (hflights : s'.rootWarmFlights = s.rootWarmFlights) : Single s' where
  running w m := by
    rw [hups, hflights]
    exact h.running w m
  known cid w := by
    rw [hups, hflights]
    exact h.known cid w

theorem retrieve_cases (s : State) (cid : Cid) (queryHash : QueryHash) (topK : ℕ) :
    (∃ g, s.retrievalFlights (keyOf cid queryHash topK) = some g ∧ retrieve s cid queryHash topK =
      { s with retrievals := s.retrievals ++ [⟨cid, s.invalidations cid, g⟩] }) ∨
    retrieve s cid queryHash topK =
      { (ensureRootWarm s cid).1 with
        flights := (ensureRootWarm s cid).1.flights ++
          [⟨cid, queryHash, topK, s.invalidations cid, (ensureRootWarm s cid).2⟩]
        retrievalFlights := Function.update (ensureRootWarm s cid).1.retrievalFlights
          (keyOf cid queryHash topK) (some s.flights.length)
        retrievals := (ensureRootWarm s cid).1.retrievals ++
          [⟨cid, s.invalidations cid, s.flights.length⟩] } := by
  cases h : s.retrievalFlights (keyOf cid queryHash topK) with
  | some g => exact .inl ⟨g, rfl, by simp [retrieve, h]⟩
  | none => exact .inr (by simp [retrieve, h])

theorem settleWarmUp_cases (h : settleWarmUp s w ok = some s') :
    ∃ m, s.warmUps[w]? = some m ∧ m.status = .running ∧ s' =
      { s with
        warmUps := s.warmUps.modify w fun m => { m with status := if ok then .resolved else .failed }
        warmedRoots :=
          if ok then Function.update s.warmedRoots m.cid (some w) else s.warmedRoots } := by
  unfold settleWarmUp at h
  split at h
  · next cid since hm =>
    cases h
    exact ⟨_, hm, rfl, rfl⟩
  · cases h

theorem endWarmUp_cases (h : endWarmUp s w = some s') :
    ∃ m, s.warmUps[w]? = some m ∧ m.status ≠ .running ∧ (s' = s ∨
      s.rootWarmFlights m.cid = some w ∧
      s' = { s with rootWarmFlights := Function.update s.rootWarmFlights m.cid none }) := by
  unfold endWarmUp at h
  split at h
  · next m hm =>
    split at h
    · cases h
    · next hstatus =>
      split at h
      · next hlisted =>
        cases h
        exact ⟨m, hm, hstatus, .inr ⟨hlisted, rfl⟩⟩
      · cases h
        exact ⟨m, hm, hstatus, .inl rfl⟩
  · cases h

theorem getElem?_settled {v : ℕ} {status : Status} {m' : WarmUp}
    (h : (s.warmUps.modify w fun m => { m with status := status })[v]? = some m') :
    ∃ m, s.warmUps[v]? = some m ∧ m'.cid = m.cid ∧ m'.since = m.since ∧
      m'.status = if w = v then status else m.status := by
  rw [List.getElem?_modify, Option.map_eq_map, Option.map_eq_some_iff] at h
  obtain ⟨m, hm, rfl⟩ := h
  refine ⟨m, hm, ?_⟩
  split <;> simp

theorem single_settle (h : Single s) (hstep : settleWarmUp s w ok = some s') : Single s' := by
  obtain ⟨m, hm, -, rfl⟩ := settleWarmUp_cases hstep
  refine ⟨fun v m' hm' hrunning => ?_, fun cid v hv => ?_⟩
  · obtain ⟨u, hu, hcid, -, hstatus⟩ := getElem?_settled hm'
    rw [hstatus] at hrunning
    split at hrunning
    · cases ok <;> cases hrunning
    · rw [hcid]
      exact h.running v u hu hrunning
  · obtain ⟨u, hu, hcid⟩ := h.known cid v hv
    refine ⟨_, by rw [List.getElem?_modify, hu]; rfl, ?_⟩
    split <;> exact hcid

theorem single_end (h : Single s) (hstep : endWarmUp s w = some s') :
    Single s' := by
  obtain ⟨m, hm, hstatus, rfl | ⟨hended, rfl⟩⟩ := endWarmUp_cases hstep
  · exact h
  · refine ⟨fun v m' hm' hrunning => ?_, fun cid v hv => ?_⟩
    · have hlisted := h.running v m' hm' hrunning
      have hne : m'.cid ≠ m.cid := by
        intro hcid
        obtain rfl : w = v := Option.some.inj (hended.symm.trans (hcid ▸ hlisted))
        cases hm.symm.trans hm'
        exact hstatus hrunning
      exact (Function.update_of_ne hne ..).trans hlisted
    · by_cases hcid : cid = m.cid
      · subst hcid
        simp at hv
      · exact h.known cid v ((Function.update_of_ne hcid ..).symm.trans hv)

/-! ### Flights -/

theorem proceed_cases (h : proceed s g = some s') : ∃ f w leads,
    s.flights[g]? = some f ∧ f.phase = .joining w leads ∧
      (s' = setPhase s g (.warm w) ∨ s' = setPhase s g .failed) := by
  unfold proceed at h
  split at h
  · next cid queryHash topK since w leads hf =>
    split at h
    · cases h
    · split at h
      · cases h
        exact ⟨_, w, leads, hf, rfl, .inl rfl⟩
      · cases h
        exact ⟨_, w, leads, hf, rfl, .inr rfl⟩
      · cases h
  · cases h

theorem enterLane_cases (h : enterLane s g = some s') : ∃ f w l lanes,
    s.flights[g]? = some f ∧ f.phase = .warm w ∧
      s' = { setPhase s g (.inLane w l) with lanes := lanes } ∧
      (lanes = s.lanes.enter f.queryHash ∨
        (s.lanes.enter f.queryHash).advance s.lanes.entries.length = some lanes) := by
  unfold enterLane at h
  split at h
  · next cid queryHash topK since w hf =>
    cases h
    refine ⟨_, w, _, _, hf, rfl, rfl, ?_⟩
    split
    · cases hadvance : (s.lanes.enter queryHash).advance s.lanes.entries.length with
      | none => exact .inl rfl
      | some q => exact .inr rfl
    · exact .inl rfl
  · cases h

theorem laneStep_cases (h : laneStep s l = some s') : ∃ q,
    s.lanes.advance l = some q ∧ s' =
      { s with lanes := if q.entries[l]?.any fun e => e.phase = .finished then q.forget l else q } := by
  simp only [laneStep, Option.map_eq_some_iff] at h
  obtain ⟨q, hq, rfl⟩ := h
  exact ⟨q, hq, rfl⟩

theorem endFlight_cases (h : endFlight s g = some s') : s' = s ∨
    ∃ f : Flight, s' = { s with retrievalFlights := Function.update s.retrievalFlights f.key none } := by
  unfold endFlight at h
  split at h
  · next f hf =>
    split at h
    · cases h
    · split at h
      · cases h
        exact .inr ⟨f, rfl⟩
      · cases h
        exact .inl rfl
  · cases h

theorem lanes_ensure (s : State) (cid : Cid) : (ensureRootWarm s cid).1.lanes = s.lanes := by
  rcases ensureRootWarm_fst s cid with h | ⟨-, h⟩ <;> rw [h]
  rfl

/-- What a flight leaves in its lane. -/
theorem ordered_lane {q q' : Lanes.Queue QueryHash} (h : q.Ordered)
    (hadvance : q.advance l = some q') :
    (if q'.entries[l]?.any fun e => e.phase = .finished then q'.forget l else q').Ordered := by
  have hq' := h.advance hadvance
  cases he : q'.entries[l]? with
  | none => exact hq'
  | some e =>
    rw [Option.any_some]
    split
    · next hfinished =>
      refine hq'.forget he ?_
      rw [of_decide_eq_true hfinished]
      rfl
    · exact hq'

theorem step_ordered (h : s.lanes.Ordered) (hstep : step s ev = some s') :
    s'.lanes.Ordered := by
  cases ev with
  | warmContext cid =>
    cases hstep
    rwa [lanes_ensure]
  | retrieve cid queryHash topK =>
    cases hstep
    rcases retrieve_cases s cid queryHash topK with ⟨g, -, heq⟩ | heq
    · rwa [heq]
    · rw [heq]
      show (ensureRootWarm s cid).1.lanes.Ordered
      rwa [lanes_ensure]
  | invalidateContext cid =>
    cases hstep
    exact h
  | settleWarmUp w ok =>
    obtain ⟨m, -, -, rfl⟩ := settleWarmUp_cases hstep
    exact h
  | endWarmUp w =>
    obtain ⟨m, -, -, rfl | ⟨-, rfl⟩⟩ := endWarmUp_cases hstep
    · exact h
    · exact h
  | proceed g =>
    obtain ⟨f, w, leads, -, -, rfl | rfl⟩ := proceed_cases hstep
    · exact h
    · exact h
  | enterLane g =>
    obtain ⟨f, w, l, lanes, -, -, rfl, rfl | hlanes⟩ := enterLane_cases hstep
    · exact h.enter _
    · exact (h.enter _).advance hlanes
  | lane l =>
    obtain ⟨q, hq, rfl⟩ := laneStep_cases hstep
    exact ordered_lane h hq
  | endFlight g =>
    rcases endFlight_cases hstep with rfl | ⟨f, rfl⟩
    · exact h
    · exact h

theorem step_single (h : Single s) (hstep : step s ev = some s') :
    Single s' := by
  cases ev with
  | warmContext cid =>
    cases hstep
    exact single_ensure h cid
  | retrieve cid queryHash topK =>
    cases hstep
    rcases retrieve_cases s cid queryHash topK with ⟨g, -, heq⟩ | heq
    · rw [heq]
      exact h.congr rfl rfl
    · rw [heq]
      exact (single_ensure h cid).congr rfl rfl
  | invalidateContext cid =>
    cases hstep
    exact h.congr rfl rfl
  | settleWarmUp w ok => exact single_settle h hstep
  | endWarmUp w => exact single_end h hstep
  | proceed g =>
    obtain ⟨f, w, leads, -, -, rfl | rfl⟩ := proceed_cases hstep
    · exact h.congr rfl rfl
    · exact h.congr rfl rfl
  | enterLane g =>
    obtain ⟨f, w, l, lanes, -, -, rfl, -⟩ := enterLane_cases hstep
    exact h.congr rfl rfl
  | lane l =>
    obtain ⟨q, -, rfl⟩ := laneStep_cases hstep
    exact h.congr rfl rfl
  | endFlight g =>
    rcases endFlight_cases hstep with rfl | ⟨f, rfl⟩
    · exact h
    · exact h.congr rfl rfl

/-! ### What retrievals rest on -/

/-- A warm-up of the root that is not older than its last invalidation. -/
def Current (s : State) (cid : Cid) (w : ℕ) : Prop :=
  ∃ m, s.warmUps[w]? = some m ∧ m.cid = cid ∧ m.since = s.invalidations cid

/-- A flight rests on a warm-up of its root, no older than its own call. -/
def RestsOn (s : State) (f : Flight) : Prop := ∀ w, f.phase.warmUp = some w →
  ∃ m, s.warmUps[w]? = some m ∧ m.cid = f.cid ∧ f.since ≤ m.since

structure Rests (s : State) : Prop where
  marked (cid : Cid) (w : ℕ) : s.warmedRoots cid = some w → Current s cid w
  flying (cid : Cid) (w : ℕ) : s.rootWarmFlights cid = some w → Current s cid w
  flights (g : ℕ) (f : Flight) : s.flights[g]? = some f → RestsOn s f
  listed (key : JsString) (g : ℕ) : s.retrievalFlights key = some g →
    ∃ f, s.flights[g]? = some f ∧ f.key = key ∧ f.since = s.invalidations f.cid
  asked : ∀ r ∈ s.retrievals, ∃ f, s.flights[r.flight]? = some f ∧ f.cid = r.cid ∧ r.since ≤ f.since

theorem Current.grows (h : Current s cid w) (hgrows : Grows s s')
    (hsame : s'.invalidations cid = s.invalidations cid) : Current s' cid w := by
  obtain ⟨m, hm, hcid, hsince⟩ := h
  obtain ⟨m', hm', hcid', hsince'⟩ := hgrows w m hm
  exact ⟨m', hm', hcid'.trans hcid, by rw [hsince', hsince, hsame]⟩

theorem RestsOn.grows {f : Flight} (h : RestsOn s f) (hgrows : Grows s s') :
    RestsOn s' f := by
  intro w hw
  obtain ⟨m, hm, hcid, hsince⟩ := h w hw
  obtain ⟨m', hm', hcid', hsince'⟩ := hgrows w m hm
  exact ⟨m', hm', hcid'.trans hcid, hsince'.symm ▸ hsince⟩

theorem rests_ensure (h : Rests s) (cid : Cid) : Rests (ensureRootWarm s cid).1 := by
  rcases ensureRootWarm_fst s cid with heq | ⟨-, heq⟩
  · rwa [heq]
  · rw [heq]
    have hgrows := grows_start s cid
    refine ⟨fun c w hw => (h.marked c w hw).grows hgrows rfl, fun c w hw => ?_,
      fun g f hf => (h.flights g f hf).grows hgrows, h.listed, h.asked⟩
    by_cases hc : c = cid
    · subst hc
      simp only [startWarmUp, Function.update_self] at hw
      cases hw
      exact ⟨⟨c, s.invalidations c, .running⟩, by simp [startWarmUp], rfl, rfl⟩
    · exact (h.flying c w ((Function.update_of_ne hc ..).symm.trans hw)).grows hgrows rfl

/-- What `ensureRootWarm` waits for, or finds done, is current. -/
theorem current_ensure (h : Rests s) (cid : Cid) (hw : (ensureRootWarm s cid).2.warmUp = some w) :
    Current (ensureRootWarm s cid).1 cid w := by
  have hrests := rests_ensure h cid
  rcases ensureRootWarm_cases s cid with ⟨v, hmarked, heq⟩ | ⟨v, hflying, heq⟩ | ⟨-, heq⟩
  · rw [heq] at hw ⊢
    obtain rfl : v = w := Option.some.inj hw
    exact h.marked cid v hmarked
  · rw [heq] at hw ⊢
    obtain rfl : v = w := Option.some.inj hw
    exact h.flying cid v hflying
  · rw [heq] at hw hrests ⊢
    cases hw
    exact hrests.flying cid _ (Function.update_self ..)

theorem flights_ensure (s : State) (cid : Cid) : (ensureRootWarm s cid).1.flights = s.flights ∧
    (ensureRootWarm s cid).1.invalidations = s.invalidations := by
  rcases ensureRootWarm_fst s cid with h | ⟨-, h⟩
  · rw [h]
    exact ⟨rfl, rfl⟩
  · rw [h]
    exact ⟨rfl, rfl⟩

theorem rests_retrieve (h : Rests s) (cid : Cid) (queryHash : QueryHash) (topK : ℕ) :
    Rests (retrieve s cid queryHash topK) := by
  rcases retrieve_cases s cid queryHash topK with ⟨g, hg, heq⟩ | heq
  · rw [heq]
    refine { h with asked := fun r hr => ?_ }
    rcases List.mem_append.mp hr with hr | hr
    · exact h.asked r hr
    · obtain rfl := List.mem_singleton.mp hr
      obtain ⟨f, hf, hkey, hsince⟩ := h.listed _ g hg
      have hcid : f.cid = cid := cid_of_key hkey
      exact ⟨f, hf, hcid, by rw [hsince, hcid]⟩
  · have hrests := rests_ensure h cid
    obtain ⟨hflights, hsame⟩ := flights_ensure s cid
    have hnew : RestsOn (ensureRootWarm s cid).1
        ⟨cid, queryHash, topK, s.invalidations cid, (ensureRootWarm s cid).2⟩ := by
      intro w hw
      obtain ⟨m, hm, hcid, hsince⟩ := current_ensure h cid hw
      exact ⟨m, hm, hcid, by rw [hsince, hsame]⟩
    rw [heq]
    refine ⟨hrests.marked, hrests.flying, fun g f hf => ?_, fun key g hg => ?_, fun r hr => ?_⟩
    · simp only [hflights] at hf
      rcases Nat.lt_or_ge g s.flights.length with hlt | hge
      · rw [List.getElem?_append_left hlt, ← hflights] at hf
        exact hrests.flights g f hf
      · rw [List.getElem?_append_right hge, List.getElem?_singleton] at hf
        split at hf
        · cases hf
          exact hnew
        · cases hf
    · simp only [hflights]
      by_cases hkey : key = keyOf cid queryHash topK
      · subst hkey
        simp only [Function.update_self] at hg
        cases hg
        exact ⟨_, List.getElem?_concat_length, rfl, congrFun hsame.symm cid⟩
      · obtain ⟨f, hf, hfkey, hsince⟩ :=
          hrests.listed key g ((Function.update_of_ne hkey ..).symm.trans hg)
        rw [hflights] at hf
        exact ⟨f, by rw [List.getElem?_append_left (List.getElem_of_getElem? hf).1, hf], hfkey,
          hsince⟩
    · simp only [hflights]
      rcases List.mem_append.mp hr with hr | hr
      · obtain ⟨f, hf, hcid, hsince⟩ := hrests.asked r hr
        rw [hflights] at hf
        exact ⟨f, by rw [List.getElem?_append_left (List.getElem_of_getElem? hf).1, hf], hcid,
          hsince⟩
      · obtain rfl := List.mem_singleton.mp hr
        exact ⟨_, List.getElem?_concat_length, rfl, Nat.le_refl _⟩

/-- QUIET: no current warm-up is in flight while its root is invalidated, so none gets old. -/
theorem rests_invalidate (h : Rests s) (hquiet : s.rootWarmFlights cid = none) :
    Rests (invalidateContext s cid) := by
  have hother : ∀ c, c ≠ cid → (invalidateContext s cid).invalidations c = s.invalidations c :=
    fun c hc => Function.update_of_ne hc ..
  have hgrows : Grows s (invalidateContext s cid) := fun w m hm => ⟨m, hm, rfl, rfl⟩
  refine ⟨fun c w hw => ?_, fun c w hw => ?_, h.flights, fun key g hg => ?_, h.asked⟩
  · by_cases hc : c = cid
    · subst hc
      simp [invalidateContext] at hw
    · exact (h.marked c w ((Function.update_of_ne hc ..).symm.trans hw)).grows hgrows (hother c hc)
  · by_cases hc : c = cid
    · subst hc
      cases hquiet.symm.trans hw
    · exact (h.flying c w hw).grows hgrows (hother c hc)
  · simp only [invalidateContext, Option.ite_none_left_eq_some] at hg
    obtain ⟨f, hf, hkey, hsince⟩ := h.listed key g hg.2
    have hne : f.cid ≠ cid := by
      rintro rfl
      exact hg.1 (hkey ▸ prefix_key f)
    exact ⟨f, hf, hkey, by rw [hother f.cid hne, hsince]⟩

theorem rests_settle (h : Rests s) (hsingle : Single s) (hstep : settleWarmUp s w ok = some s') :
    Rests s' := by
  obtain ⟨m, hm, hrunning, rfl⟩ := settleWarmUp_cases hstep
  have hcurrent := h.flying m.cid w (hsingle.running w m hm hrunning)
  generalize hstatus : (if ok then Status.resolved else .failed) = status
  have hgrows : ∀ t : State, t.warmUps = s.warmUps.modify w (fun m => { m with status := status }) →
      Grows s t := by
    intro t ht v m hm
    refine ⟨_, by rw [ht, List.getElem?_modify, hm]; rfl, ?_⟩
    split <;> exact ⟨rfl, rfl⟩
  refine ⟨fun c v hv => ?_, fun c v hv => (h.flying c v hv).grows (hgrows _ rfl) rfl,
    fun g f hf => (h.flights g f hf).grows (hgrows _ rfl), h.listed, h.asked⟩
  cases ok with
  | false => exact (h.marked c v hv).grows (hgrows _ rfl) rfl
  | true =>
    by_cases hc : c = m.cid
    · subst hc
      obtain rfl : w = v := by simpa using hv
      exact hcurrent.grows (hgrows _ rfl) rfl
    · exact (h.marked c v ((Function.update_of_ne hc ..).symm.trans hv)).grows (hgrows _ rfl) rfl

/-- A flight that goes on rests on what it rested on before, or on nothing. -/
theorem rests_setPhase {f : Flight} {phase : Phase} (h : Rests s) (hf : s.flights[g]? = some f)
    (hphase : ∀ w, phase.warmUp = some w → f.phase.warmUp = some w) :
    Rests (setPhase s g phase) := by
  have hkept : ∀ (k : ℕ) (e : Flight), s.flights[k]? = some e → ∃ e', (setPhase s g phase).flights[k]? = some e' ∧
      e'.cid = e.cid ∧ e'.key = e.key ∧ e'.since = e.since := by
    intro k e he
    refine ⟨_, by rw [setPhase, List.getElem?_modify, he]; rfl, ?_⟩
    split <;> exact ⟨rfl, rfl, rfl⟩
  refine ⟨h.marked, h.flying, fun k e he => ?_, fun key k hk => ?_, fun r hr => ?_⟩
  · rw [setPhase, List.getElem?_modify, Option.map_eq_map, Option.map_eq_some_iff] at he
    obtain ⟨e, hold, rfl⟩ := he
    split
    · next heq =>
      subst heq
      cases hf.symm.trans hold
      exact fun w hw => h.flights g f hf w (hphase w hw)
    · exact h.flights k e hold
  · obtain ⟨e, he, hkey, hsince⟩ := h.listed key k hk
    obtain ⟨e', he', hcid', hkey', hsince'⟩ := hkept k e he
    exact ⟨e', he', hkey'.trans hkey, by rw [hsince', hcid', hsince]; rfl⟩
  · obtain ⟨e, he, hcid, hsince⟩ := h.asked r hr
    obtain ⟨e', he', hcid', -, hsince'⟩ := hkept _ e he
    exact ⟨e', he', hcid'.trans hcid, hsince'.symm ▸ hsince⟩

theorem step_rests (h : Rests s) (hsingle : Single s) (hquiet : Quiet s ev)
    (hstep : step s ev = some s') : Rests s' := by
  cases ev with
  | warmContext cid =>
    cases hstep
    exact rests_ensure h cid
  | retrieve cid queryHash topK =>
    cases hstep
    exact rests_retrieve h cid queryHash topK
  | invalidateContext cid =>
    cases hstep
    exact rests_invalidate h hquiet
  | settleWarmUp w ok => exact rests_settle h hsingle hstep
  | endWarmUp w =>
    obtain ⟨m, -, -, rfl | ⟨-, rfl⟩⟩ := endWarmUp_cases hstep
    · exact h
    · refine { h with flying := fun c v hv => ?_ }
      by_cases hc : c = m.cid
      · subst hc
        simp at hv
      · exact h.flying c v ((Function.update_of_ne hc ..).symm.trans hv)
  | proceed g =>
    obtain ⟨f, w, leads, hf, hjoining, rfl | rfl⟩ := proceed_cases hstep
    · exact rests_setPhase h hf fun v hv => by rw [hjoining]; exact hv
    · exact rests_setPhase h hf fun v hv => by cases hv
  | enterLane g =>
    obtain ⟨f, w, l, lanes, hf, hwarm, rfl, -⟩ := enterLane_cases hstep
    have hset : Rests (setPhase s g (.inLane w l)) := rests_setPhase h hf fun v hv => by
      rw [hwarm]; exact hv
    exact { hset with }
  | lane l =>
    obtain ⟨q, -, rfl⟩ := laneStep_cases hstep
    exact { h with }
  | endFlight g =>
    rcases endFlight_cases hstep with rfl | ⟨f, rfl⟩
    · exact h
    · refine { h with listed := fun key k hk => ?_ }
      by_cases hkey : key = f.key
      · subst hkey
        simp at hk
      · exact h.listed key k ((Function.update_of_ne hkey ..).symm.trans hk)

/-! ### Runs -/

/-- One warm-up of a root is in flight at a time. -/
def OneWarmUp (s : State) : Prop := ∀ (w v : ℕ) (m n : WarmUp), s.warmUps[w]? = some m →
  s.warmUps[v]? = some n → m.cid = n.cid → m.status = .running → n.status = .running → w = v

/-- One retrieval of a query is at work at a time. -/
def OneAtWork (s : State) : Prop := ∀ (l k : ℕ) (e f : Lanes.Entry QueryHash),
  s.lanes.entries[l]? = some e → s.lanes.entries[k]? = some f → e.key = f.key →
    e.phase = .working → f.phase = .working → l = k

/-- Whoever waits in a lane gets to work, when those in the lane go on. -/
def NoDeadlock (s : State) : Prop := ∀ (l : ℕ) (e : Lanes.Entry QueryHash),
  s.lanes.entries[l]? = some e → e.phase = .waiting → ∃ (ls : List ℕ) (s' : State), run s (ls.map .lane) = some s' ∧
    ∃ e', s'.lanes.entries[l]? = some e' ∧ e'.phase = .working

/-- No retrieval rests on a warm-up that was started before an invalidation it came after. -/
def Fresh (s : State) : Prop := ∀ r ∈ s.retrievals, ∀ f : Flight, s.flights[r.flight]? = some f →
  ∀ w, f.phase.warmUp = some w → ∃ m, s.warmUps[w]? = some m ∧ m.cid = r.cid ∧ r.since ≤ m.since

theorem lanes_laneStep {q : Lanes.Queue QueryHash} (h : s.lanes.advance l = some q) :
    ∃ s', laneStep s l = some s' ∧ s'.lanes.entries = q.entries := by
  refine ⟨_, by rw [laneStep, h, Option.map_some], ?_⟩
  show (if _ then _ else _ : Lanes.Queue QueryHash).entries = _
  split
  · exact Lanes.Queue.forget_entries
  · rfl

/-- By induction on the phases that are to come. -/
theorem noDeadlock (h : s.lanes.Ordered) : NoDeadlock s := by
  intro l e he hwaits
  induction hn : s.lanes.left using Nat.strongRecOn generalizing s e with
  | ind n ih =>
    subst hn
    obtain ⟨m, hm, f, hf, -, hnext⟩ := h.next_step he (by simp [hwaits])
    obtain ⟨phase, hphase⟩ := Option.isSome_iff_exists.mp hnext
    have hadvance : s.lanes.advance m = some (s.lanes.setPhase m phase) := by
      simp [Lanes.Queue.advance, hf, hphase]
    obtain ⟨s', hs', hentries⟩ := lanes_laneStep hadvance
    have hstep : step s (.lane m) = some s' := hs'
    have hless : s'.lanes.left < s.lanes.left := by
      rw [Lanes.Queue.left, hentries]
      exact Lanes.Queue.left_advance hadvance
    rcases hm.lt_or_eq with hlt | rfl
    · have hsame : s'.lanes.entries[l]? = some e := by
        rw [hentries, Lanes.Queue.getElem?_setPhase, if_neg (by omega), he]
      obtain ⟨ls, t, hrun, hwork⟩ := ih _ hless (step_ordered h hstep) e hsame hwaits rfl
      exact ⟨m :: ls, t, by rw [List.map_cons, run, hstep, Option.bind_some, hrun], hwork⟩
    · cases he.symm.trans hf
      have hworking : phase = .working := by
        simp only [Lanes.Queue.next, hwaits, Option.ite_none_right_eq_some] at hphase
        exact (Option.some.inj hphase.2).symm
      refine ⟨[m], s', by rw [List.map_singleton, run, hstep]; rfl, ?_⟩
      exact ⟨_, by rw [hentries, Lanes.Queue.getElem?_setPhase, if_pos rfl, he]; rfl, hworking⟩

theorem oneWarmUp (h : Single s) : OneWarmUp s := by
  intro w v m n hm hn hcid hmrunning hnrunning
  have hw := h.running w m hm hmrunning
  have hv := h.running v n hn hnrunning
  rw [hcid] at hw
  exact Option.some.inj (hw.symm.trans hv)

theorem fresh (h : Rests s) : Fresh s := by
  intro r hr f hf w hw
  obtain ⟨g, hg, hcid, hsince⟩ := h.asked r hr
  cases hf.symm.trans hg
  obtain ⟨m, hm, hmcid, hmsince⟩ := h.flights _ f hf w hw
  exact ⟨m, hm, hmcid.trans hcid, hsince.trans hmsince⟩

theorem run_single {evs : List Event} (h : Single s ∧ s.lanes.Ordered)
    (hrun : run s evs = some s') : Single s' ∧ s'.lanes.Ordered := by
  induction evs generalizing s with
  | nil =>
    cases hrun
    exact h
  | cons ev evs ih =>
    obtain ⟨t, hstep, hrest⟩ := Option.bind_eq_some_iff.mp hrun
    exact ih ⟨step_single h.1 hstep, step_ordered h.2 hstep⟩ hrest

theorem run_rests {evs : List Event} (h : Rests s) (hsingle : Single s) (hquiet : QuietRun s evs)
    (hrun : run s evs = some s') : Rests s' := by
  induction evs generalizing s with
  | nil =>
    cases hrun
    exact h
  | cons ev evs ih =>
    obtain ⟨t, hstep, hrest⟩ := Option.bind_eq_some_iff.mp hrun
    obtain ⟨hfirst, hlater⟩ := hquiet
    rw [hstep] at hlater
    exact ih (step_rests h hsingle hfirst hstep) (step_single hsingle hstep) hlater hrest

theorem single_initial : Single {} where
  running _ _ h := by cases h
  known _ _ h := by cases h

theorem rests_initial : Rests {} where
  marked _ _ h := by cases h
  flying _ _ h := by cases h
  flights _ _ h := by cases h
  listed _ _ h := by cases h
  asked _ h := by cases h

/-- CONSISTENT: in every run one warm-up of a root is in flight at a time, and the retrievals of one
    query take turns without getting stuck; if no root is invalidated while its warm-up is in flight,
    no retrieval rests on a warm-up older than an invalidation before it. -/
theorem singleflight_consistent {evs : List Event} {s : State} (h : run {} evs = some s) :
    OneWarmUp s ∧ OneAtWork s ∧ NoDeadlock s ∧ (QuietRun {} evs → Fresh s) := by
  obtain ⟨hsingle, hordered⟩ := run_single ⟨single_initial, Lanes.Queue.ordered_empty⟩ h
  exact ⟨oneWarmUp hsingle, fun l k e f => hordered.one_working, noDeadlock hordered,
    fun hquiet => fresh (run_rests rests_initial single_initial hquiet h)⟩

def sampleRoot : Cid := js "truyn:ctx:root"

def sampleHash : QueryHash := ⟨js "sha256:" ++ hexText 0, by decide⟩

/-- A root is warmed, invalidated and retrieved. -/
def quietEvents : List Event := [.warmContext sampleRoot, .settleWarmUp 0 true, .endWarmUp 0,
  .invalidateContext sampleRoot, .retrieve sampleRoot sampleHash 1]

theorem quiet_retrieval_fresh : ∃ s, run {} quietEvents = some s ∧ s.retrievals.length = 1 ∧ Fresh s :=
  ⟨_, rfl, rfl, (singleflight_consistent (show run {} quietEvents = _ from rfl)).2.2.2
    ⟨trivial, trivial, trivial, rfl, trivial, trivial⟩⟩

/-- The root is invalidated while its warm-up is in flight; the retrieval after it rests on that. -/
theorem stale_warm_up_trusted : ∃ s, run {} [.warmContext sampleRoot, .invalidateContext sampleRoot,
    .settleWarmUp 0 true, .endWarmUp 0, .retrieve sampleRoot sampleHash 1] = some s ∧ ¬Fresh s := by
  refine ⟨_, rfl, fun h => ?_⟩
  obtain ⟨m, hm, -, hsince⟩ := h ⟨sampleRoot, 1, 0⟩ (List.mem_singleton_self _) _ rfl 0 rfl
  cases hm
  exact absurd hsince (by decide)

end Truyn.SingleFlight
