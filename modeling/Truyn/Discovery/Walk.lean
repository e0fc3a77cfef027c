import Truyn.Discovery.Recorded

/-! discovery:walk | the iterative lookup: contacts nearer to a target, a few calls at a time

    A walk launches calls of `findNode` while its budget and its width allow it, and is pumped again
    when one settles or is found slow. What the peers answer is free, and so is the order in which
    things happen. `Inv` is the invariant; a walk that is not finished has a call in flight. -/

namespace Truyn.Discovery
open Dht (Platform plain)
open Trust (Value)

/-- What `walkOnce` is called with, and reads first. `none` is no integer. -/
structure Lookup where
  target : JsString
  alphaOption : Option ℤ
  maxRounds : Option ℤ
  stopOnFound : Bool
  background : Bool

def Lookup.alpha (S : Lookup) : ℕ := (max 1 (S.alphaOption.getD 3)).toNat

def Lookup.budget (S : Lookup) : ℕ := (max 0 (S.maxRounds.getD 16)).toNat * S.alpha

/-- A record that a peer answers with, and what the clock is each time it is read for it. -/
structure Heard where
  record : Value
  checked : ℤ
  rechecked : ℤ
  ingested : ℤ
  seenAt : JsString
  asked : ℤ

/-- `nothing` is an answer that is not there; `error` is also a timeout. -/
inductive Answer
  | error (busy : Bool)
  | nothing
  | response (raw : List Heard)

/-- A call that has not settled. -/
structure Flight where
  nodeId : JsString
  answered : Bool
  hedge : Bool

inductive Reason
  | found
  | converged
  | drained
  deriving DecidableEq

/-- What a walk resolves with, why, and which candidates it had not queried. -/
structure Result where
  found : Option Value
  queried : List JsString
  rounds : ℕ
  responses : ℕ
  novel : ℕ
  shed : Bool
  reason : Reason
  unqueried : List Dht.Peer

/-- `calls` are the calls in flight, `results` what the promise was resolved with. -/
structure Walk where
  peers : Peers
  queried : List JsString
  responded : List JsString
  order : List JsString
  hints : List (JsString × Dht.Peer)
  slow : List JsString
  responsesReceived : ℕ
  novel : ℕ
  shed : Bool
  inFlight : ℕ
  finished : Bool
  stableAnswers : ℕ
  lastTopKey : JsString
  calls : List Flight
  results : List Result

variable (P : Platform) (c : Config) (S : Lookup)

/-! ### The remote call -/

/-- `QuicDiscoveryRpc.findNode`: records that verify, and expired ones as hints. -/
def findNode : List JsString → List Heard → List JsString × List Heard × List Heard
  | verified, [] => (verified, [], [])
  | verified, h :: raw =>
    match verifyPeerRecord P verified h.record h.checked false with
    | .ok verified =>
      let (verified, records, hints) := findNode verified raw
      (verified, h :: records, hints)
    | .error _ =>
      match verifyPeerRecord P verified h.record h.rechecked true with
      | .ok verified =>
        let (verified, records, hints) := findNode verified raw
        (verified, records, h :: hints)
      | .error _ => findNode verified raw

/-! ### The walk -/

variable (w : Walk)

/-- Two counters and the records of the walk's node. -/
def Walk.new (peers : Peers) : Walk :=
  ⟨peers, [], [], [], [], [], 0, 0, false, 0, false, 0, [], [], []⟩

def Walk.candidates : List Dht.Peer :=
  let near := w.peers.routing.closest P.toHost S.target c.k
  let merged := near ++ (w.hints.map Prod.snd).filter fun peer =>
    peer.nodeId ∉ near.map Dht.Peer.nodeId
  (merged.filter fun peer => peer.nodeId ∉ w.queried).insertionSort (Dht.Closer P.toHost S.target)

/-- Whether the nearest peers stayed the same, and have answered. -/
def Walk.converged : Walk × Bool :=
  if S.stopOnFound then (w, false)
  else
    let top := (w.peers.routing.closest P.toHost S.target S.alpha).map Dht.Peer.nodeId
    let key := (js ",").intercalate top
    let w := { w with
      stableAnswers := if key = w.lastTopKey then w.stableAnswers + 1 else 0
      lastTopKey := key }
    (w, S.alpha ≤ w.stableAnswers && !top.isEmpty && top.all fun id => id ∈ w.responded)

def Walk.finish (reason : Reason) (later : ℤ) : Walk :=
  if w.finished then w
  else { w with
    finished := true
    results := w.results ++ [{
      found := w.peers.get P S.target later
      queried := w.order
      rounds := (w.order.length + S.alpha - 1) / S.alpha
      responses := w.responsesReceived
      novel := w.novel
      shed := w.shed
      reason := reason
      unqueried := w.candidates P c S }] }

def Walk.launch (peer : Dht.Peer) : Walk :=
  { w with
    queried := Dht.addMember w.queried peer.nodeId
    order := w.order ++ [peer.nodeId]
    inFlight := w.inFlight + 1
    calls := w.calls ++ [⟨peer.nodeId, false, !S.background⟩] }

/-- The loop over the candidates. -/
def Walk.launchAll : Walk → List Dht.Peer → Walk
  | w, [] => w
  | w, peer :: peers =>
    if S.budget ≤ w.order.length ∨ S.alpha + w.slow.length ≤ w.inFlight then w
    else launchAll (w.launch S peer) peers

/-- `later` is when `finish` reads the clock. -/
def Walk.pump (now later : ℤ) : Walk :=
  if w.finished then w
  else if S.stopOnFound ∧ w.order ≠ [] ∧ (w.peers.get P S.target now).isSome then
    w.finish P c S .found later
  else
    let w := if !w.shed ∧ w.order.length < S.budget ∧ w.inFlight < S.alpha + w.slow.length then
      w.launchAll S (w.candidates P c S) else w
    if w.inFlight = 0 then w.finish P c S .drained later else w

/-- The records of an answer. `true`: one is thrown on, and the rest is left. -/
def ingestAll : Peers → ℕ → List Heard → Peers × ℕ × Bool
  | peers, novel, [] => (peers, novel, false)
  | peers, novel, h :: records =>
    match peers.ingest P c h.record h.ingested false h.seenAt with
    | (peers, .threw) => (peers, novel, true)
    | (peers, .accepted _ _ true) => ingestAll peers (novel + 1) records
    | (peers, _) => ingestAll peers novel records

def Walk.addHints : Walk → List Heard → Walk
  | w, [] => w
  | w, h :: hints =>
    let nodeId := nodeIdOf h.record
    if nodeId ≠ [] ∧ nodeId ≠ c.localNodeId ∧ (w.peers.get P nodeId h.asked).isNone then
      addHints { w with hints := Maps.set nodeId (contact h.record []) w.hints } hints
    else addHints w hints

/-- What is done with an answer before the call settles. -/
def Walk.receive (nodeId : JsString) : Answer → Walk
  | .error busy => { w with shed := w.shed || (S.background && busy) }
  | .nothing => w
  | .response raw =>
    let (signatures, records, hints) := findNode P w.peers.signatures raw
    let (peers, novel, threw) :=
      ingestAll P c { w.peers with signatures := signatures } w.novel records
    let w := { w with
      peers := peers
      responsesReceived := w.responsesReceived + 1
      responded := Dht.addMember w.responded nodeId
      novel := novel }
    if threw then w else w.addHints P c hints

/-! ### Runs -/

/-- `elsewhere` is another use of the node's records. -/
inductive Walk.Event
  | answer (nodeId : JsString) (answer : Answer)
  | settle (nodeId : JsString) (now later : ℤ)
  | hedge (nodeId : JsString) (now later : ℤ)
  | elsewhere (call : Call)

def Walk.call (nodeId : JsString) : Option Flight := w.calls.find? fun f => f.nodeId = nodeId

/-- The call of a node is replaced. -/
def Walk.mark (nodeId : JsString) (f : Flight → Flight) : Walk :=
  { w with calls := w.calls.map fun flight => if flight.nodeId = nodeId then f flight else flight }

/-- The place of a call is free. -/
def Walk.drop (nodeId : JsString) : Walk :=
  { w with
    slow := w.slow.filter (· ≠ nodeId)
    inFlight := w.inFlight - 1
    calls := w.calls.filter fun flight => flight.nodeId ≠ nodeId }

def Walk.proceed (now later : ℤ) : Walk :=
  if w.finished then w.pump P c S now later
  else
    match w.converged P S with
    | (w, true) => w.finish P c S .converged later
    | (w, false) => w.pump P c S now later

/-- A slow call lets another one start. -/
def Walk.hedged (nodeId : JsString) (now later : ℤ) : Walk :=
  let w := w.mark nodeId fun flight => { flight with hedge := false }
  if w.finished ∨ S.alpha ≤ w.slow.length then w
  else ({ w with slow := Dht.addMember w.slow nodeId } : Walk).pump P c S now later

/-- What cannot happen changes nothing. -/
def Walk.step (w : Walk) : Walk.Event → Walk
  | .answer nodeId answer =>
    match w.call nodeId with
    | some ⟨_, false, _⟩ =>
      (w.receive P c S nodeId answer).mark nodeId fun flight => { flight with answered := true }
    | _ => w
  | .settle nodeId now later =>
    match w.call nodeId with
    | some ⟨_, true, _⟩ => (w.drop nodeId).proceed P c S now later
    | _ => w
  | .hedge nodeId now later =>
    match w.call nodeId with
    | some ⟨_, _, true⟩ => w.hedged P c S nodeId now later
    | _ => w
  | .elsewhere call => { w with peers := w.peers.apply P c call }

/-- A walk of a node, after these events. -/
def walkOnce (peers : Peers) (now later : ℤ) (events : List Walk.Event) : Walk :=
  events.foldl (Walk.step P c S) ((Walk.new peers).pump P c S now later)

/-! ### Invariant -/

/-- Why a walk that ended without a result could not go on. -/
def Result.Exhausted (S : Lookup) (r : Result) : Prop :=
  r.shed = true ∨ r.queried.length = S.budget ∨ r.unqueried = []

structure Walk.Inv (P : Platform) (c : Config) (S : Lookup) (w : Walk) : Prop where
  recorded : Recorded P c w.peers
  queried : w.queried = w.order
  budget : w.order.length ≤ S.budget
  nodup : w.order.Nodup
  self : c.localNodeId ∉ w.order
  hints : ∀ h ∈ w.hints, h.2.nodeId = h.1 ∧ h.1 ≠ c.localNodeId
  hintKeys : (w.hints.map Prod.fst).Nodup
  flights : w.inFlight = w.calls.length
  called : ∀ f ∈ w.calls, f.nodeId ∈ w.order
  callKeys : (w.calls.map Flight.nodeId).Nodup
  slowKeys : w.slow.Nodup
  slowFew : w.slow.length ≤ S.alpha
  width : w.inFlight ≤ S.alpha + w.slow.length
  once : w.results.length = if w.finished then 1 else 0
  drained : ∀ r ∈ w.results, r.reason = .drained → r.Exhausted S

/-- The walk is finished, or something is still to come. -/
def Walk.Alive (w : Walk) : Prop := w.finished = true ∨ w.calls ≠ []

variable {P c S w}

theorem alpha_pos : 0 < S.alpha := by
  unfold Lookup.alpha
  omega

theorem Walk.Inv.start {peers : Peers} (h : Recorded P c peers) : (Walk.new peers).Inv P c S where
  recorded := h
  queried := rfl
  budget := Nat.zero_le _
  nodup := .nil
  self := fun hmem => by cases hmem
  hints := fun _ hmem => by cases hmem
  hintKeys := .nil
  flights := rfl
  called := fun _ hmem => by cases hmem
  callKeys := .nil
  slowKeys := .nil
  slowFew := Nat.zero_le _
  width := Nat.zero_le _
  once := rfl
  drained := fun _ hmem => by cases hmem

/-! ### Candidates -/

/-- The nearest contacts: no node twice, and never this one. -/
theorem closest_ids (h : Recorded P c w.peers) (count : ℤ) :
    ((w.peers.routing.closest P.toHost S.target count).map Dht.Peer.nodeId).Nodup ∧
      ∀ peer ∈ w.peers.routing.closest P.toHost S.target count, peer.nodeId ≠ c.localNodeId := by
  obtain ⟨age, hplaced⟩ := h.placed
  have hperm := List.perm_insertionSort (Dht.Closer P.toHost S.target) w.peers.routing.stored
  rw [Dht.closest_eq]
  constructor
  · have hnodup := (hperm.map Dht.Peer.nodeId).nodup_iff.mpr hplaced.nodup_stored
    exact hnodup.sublist ((List.take_sublist _ _).map _)
  · intro peer hpeer hself
    obtain ⟨index, hindex⟩ := Dht.mem_stored.mp (hperm.subset (List.mem_of_mem_take hpeer))
    have hplace := hplaced.place index peer hindex
    rw [hself, Dht.bucketIndex_self] at hplace
    cases hplace

theorem Walk.Inv.candidates (h : w.Inv P c S) :
    ((w.candidates P c S).map Dht.Peer.nodeId).Nodup ∧
      ∀ peer ∈ w.candidates P c S, peer.nodeId ∉ w.order ∧ peer.nodeId ≠ c.localNodeId := by
  obtain ⟨hnear, hself⟩ := closest_ids (S := S) h.recorded c.k
  unfold Walk.candidates
  dsimp only
  generalize w.peers.routing.closest P.toHost S.target c.k = near at hnear hself
  have hperm := List.perm_insertionSort (Dht.Closer P.toHost S.target)
    ((near ++ (w.hints.map Prod.snd).filter fun peer => peer.nodeId ∉ near.map Dht.Peer.nodeId).filter
      fun peer => peer.nodeId ∉ w.queried)
  have hkeys : (w.hints.map Prod.snd).map Dht.Peer.nodeId = w.hints.map Prod.fst := by
    rw [List.map_map]
    exact List.map_congr_left fun hint hmem => (h.hints hint hmem).1
  constructor
  · rw [(hperm.map Dht.Peer.nodeId).nodup_iff]
    refine List.Nodup.sublist (List.filter_sublist.map _) ?_
    rw [List.map_append, List.nodup_append]
    refine ⟨hnear, ?_, ?_⟩
    · exact (hkeys ▸ h.hintKeys).sublist (List.filter_sublist.map _)
    · rintro id hid id' hid' rfl
      obtain ⟨peer, hpeer, rfl⟩ := List.mem_map.mp hid'
      exact absurd hid (by simpa using (List.mem_filter.mp hpeer).2)
  · intro peer hpeer
    obtain ⟨hmerged, hnew⟩ := List.mem_filter.mp (hperm.subset hpeer)
    refine ⟨by simpa [h.queried] using hnew, ?_⟩
    rcases List.mem_append.mp hmerged with hin | hin
    · exact hself peer hin
    · obtain ⟨hint, hmem, rfl⟩ := List.mem_map.mp (List.mem_of_mem_filter hin)
      obtain ⟨hid, hne⟩ := h.hints hint hmem
      rw [hid]
      exact hne

/-! ### Launches -/

theorem Walk.Inv.launch (h : w.Inv P c S) {peer : Dht.Peer} (hnew : peer.nodeId ∉ w.order)
    (hself : peer.nodeId ≠ c.localNodeId) (hbudget : w.order.length < S.budget)
    (hwidth : w.inFlight < S.alpha + w.slow.length) : (w.launch S peer).Inv P c S where
  __ := h
  queried := by
    show Dht.addMember w.queried peer.nodeId = w.order ++ [peer.nodeId]
    rw [h.queried, Dht.addMember, if_neg hnew]
  budget := by
    show (w.order ++ [peer.nodeId]).length ≤ S.budget
    rw [List.length_append, List.length_singleton]
    exact hbudget
  nodup := List.nodup_append.mpr ⟨h.nodup, List.nodup_singleton _, by
    rintro id hid _ hpeer rfl
    exact hnew (List.mem_singleton.mp hpeer ▸ hid)⟩
  self := by
    intro hmem
    rcases List.mem_append.mp hmem with hmem | hmem
    · exact h.self hmem
    · exact hself (List.mem_singleton.mp hmem).symm
  flights := by
    show w.inFlight + 1 = (w.calls ++ [_]).length
    rw [List.length_append, List.length_singleton, h.flights]
  called := by
    intro f hf
    rcases List.mem_append.mp hf with hf | hf
    · exact List.mem_append_left _ (h.called f hf)
    · obtain rfl := List.mem_singleton.mp hf
      exact List.mem_append_right _ (List.mem_singleton.mpr rfl)
  callKeys := by
    show ((w.calls ++ [_]).map Flight.nodeId).Nodup
    rw [List.map_append, List.nodup_append]
    refine ⟨h.callKeys, List.nodup_singleton _, ?_⟩
    rintro id hid _ hpeer rfl
    obtain ⟨f, hf, rfl⟩ := List.mem_map.mp hid
    have hsame : f.nodeId = peer.nodeId := List.mem_singleton.mp hpeer
    exact hnew (hsame ▸ h.called f hf)
  width := hwidth

/-- By induction on the candidates: the loop stops before the budget or the width is passed. -/
theorem Walk.Inv.launchAll (h : w.Inv P c S) {peers : List Dht.Peer}
    (hnodup : (peers.map Dht.Peer.nodeId).Nodup)
    (hnew : ∀ peer ∈ peers, peer.nodeId ∉ w.order ∧ peer.nodeId ≠ c.localNodeId) :
    (w.launchAll S peers).Inv P c S ∧ w.inFlight ≤ (w.launchAll S peers).inFlight := by
  induction peers generalizing w with
  | nil => exact ⟨h, Nat.le_refl _⟩
  | cons peer peers ih =>
    rw [Walk.launchAll]
    split
    · exact ⟨h, Nat.le_refl _⟩
    · next hroom =>
      rw [not_or, not_le, not_le] at hroom
      rw [List.map_cons, List.nodup_cons] at hnodup
      obtain ⟨hnot, hself⟩ := hnew peer List.mem_cons_self
      have hlaunched := h.launch hnot hself hroom.1 hroom.2
      obtain ⟨hinv, hle⟩ := ih hlaunched hnodup.2 fun other hother => by
        obtain ⟨hother', hself'⟩ := hnew other (List.mem_cons_of_mem _ hother)
        refine ⟨fun hmem => ?_, hself'⟩
        rcases List.mem_append.mp hmem with hmem | hmem
        · exact hother' hmem
        · exact hnodup.1 (List.mem_singleton.mp hmem ▸ List.mem_map_of_mem hother)
      exact ⟨hinv, (Nat.le_succ _).trans hle⟩

/-! ### The end -/

theorem Walk.Inv.finish (h : w.Inv P c S) (reason : Reason) (later : ℤ)
    (hreason : reason = .drained →
      w.shed = true ∨ w.order.length = S.budget ∨ w.candidates P c S = []) :
    (w.finish P c S reason later).Inv P c S ∧ (w.finish P c S reason later).finished = true := by
  unfold Walk.finish
  split
  · next hdone => exact ⟨h, hdone⟩
  · next hopen =>
    refine ⟨{ h with once := ?_, drained := ?_ }, rfl⟩
    · have honce := h.once
      rw [if_neg hopen] at honce
      simp [List.length_eq_zero_iff.mp honce]
    · intro r hr hdrained
      rcases List.mem_append.mp hr with hr | hr
      · exact h.drained r hr hdrained
      · obtain rfl := List.mem_singleton.mp hr
        exact hreason hdrained

/-- A pump ends the walk, or leaves a call in flight. -/
theorem Walk.Inv.pump (h : w.Inv P c S) (now later : ℤ) :
    (w.pump P c S now later).Inv P c S ∧ (w.pump P c S now later).Alive := by
  unfold Walk.pump
  split
  · next hdone => exact ⟨h, .inl hdone⟩
  split
  · obtain ⟨hinv, hdone⟩ := h.finish .found later fun heq => by cases heq
    exact ⟨hinv, .inl hdone⟩
  · dsimp only
    obtain ⟨hnodup, hnew⟩ := h.candidates
    have hend : ∀ v : Walk, v.Inv P c S → (v.inFlight = 0 →
        v.shed = true ∨ v.order.length = S.budget ∨ v.candidates P c S = []) →
        (if v.inFlight = 0 then v.finish P c S .drained later else v).Inv P c S ∧
          (if v.inFlight = 0 then v.finish P c S .drained later else v).Alive := by
      intro v hv hwhy
      by_cases hzero : v.inFlight = 0
      · rw [if_pos hzero]
        obtain ⟨hinv, hdone⟩ := hv.finish .drained later fun _ => hwhy hzero
        exact ⟨hinv, .inl hdone⟩
      · rw [if_neg hzero]
        refine ⟨hv, .inr fun hnil => hzero ?_⟩
        rw [hv.flights, hnil, List.length_nil]
    split
    · next hroom =>
      refine hend _ (h.launchAll hnodup hnew).1 fun hzero => ?_
      cases hcandidates : w.candidates P c S with
      | nil =>
        rw [Walk.launchAll]
        exact .inr (.inr hcandidates)
      | cons peer peers =>
        rw [hcandidates] at hzero hnodup hnew
        rw [List.map_cons, List.nodup_cons] at hnodup
        obtain ⟨hnot, hself⟩ := hnew peer List.mem_cons_self
        rw [Walk.launchAll, if_neg (by omega)] at hzero
        have hpos := ((h.launch hnot hself hroom.2.1 hroom.2.2).launchAll hnodup.2 fun other hother =>
          ⟨fun hmem => ?_, (hnew other (List.mem_cons_of_mem _ hother)).2⟩).2
        · rw [hzero] at hpos
          exact absurd hpos (Nat.not_succ_le_zero _)
        · rcases List.mem_append.mp hmem with hmem | hmem
          · exact (hnew other (List.mem_cons_of_mem _ hother)).1 hmem
          · exact hnodup.1 (List.mem_singleton.mp hmem ▸ List.mem_map_of_mem hother)
    · next hfull =>
      refine hend w h fun hzero => ?_
      have hbudget := h.budget
      have halpha := alpha_pos (S := S)
      by_cases hshed : w.shed = true
      · exact .inl hshed
      · refine .inr (.inl ?_)
        simp only [hshed, Bool.not_false, true_and, not_and, not_lt] at hfull
        by_contra hless
        have hwide := hfull (by omega)
        omega

/-! ### Answers -/

theorem ingestAll_recorded {peers : Peers} (h : Recorded P c peers) (novel : ℕ)
    (records : List Heard) : Recorded P c (ingestAll P c peers novel records).1 := by
  induction records generalizing peers novel with
  | nil => exact h
  | cons heard records ih =>
    have hone := h.ingest heard.record heard.ingested false heard.seenAt
    rw [ingestAll]
    generalize peers.ingest P c heard.record heard.ingested false heard.seenAt = result at hone ⊢
    obtain ⟨after, outcome⟩ := result
    cases outcome with
    | threw => exact hone
    | refused reason => exact ih hone novel
    | accepted updated unchanged fresh =>
      cases fresh with
      | true => exact ih hone (novel + 1)
      | false => exact ih hone novel

/-- What an answer changes: the records, the hints and what is counted. -/
structure Walk.Heeds (w v : Walk) : Prop where
  calls : v.calls = w.calls
  finished : v.finished = w.finished

theorem Walk.Inv.addHints (h : w.Inv P c S) (hints : List Heard) :
    (w.addHints P c hints).Inv P c S ∧ w.Heeds (w.addHints P c hints) := by
  induction hints generalizing w with
  | nil => exact ⟨h, rfl, rfl⟩
  | cons heard hints ih =>
    rw [Walk.addHints]
    split
    · next hwanted =>
      have hone : ({ w with
          hints := Maps.set (nodeIdOf heard.record) (contact heard.record []) w.hints } :
            Walk).Inv P c S :=
        { h with
          hintKeys := Maps.nodup_set h.hintKeys
          hints := by
            intro hint hmem
            rcases Maps.mem_set hmem with rfl | hmem
            · exact ⟨rfl, hwanted.2.1⟩
            · exact h.hints hint hmem }
      obtain ⟨hinv, hheeds⟩ := ih hone
      exact ⟨hinv, hheeds.calls, hheeds.finished⟩
    · exact ih h

theorem Walk.Inv.receive (h : w.Inv P c S) (nodeId : JsString) (answer : Answer) :
    (w.receive P c S nodeId answer).Inv P c S ∧ w.Heeds (w.receive P c S nodeId answer) := by
  cases answer with
  | error busy => exact ⟨{ h with }, rfl, rfl⟩
  | nothing => exact ⟨h, rfl, rfl⟩
  | response raw =>
    rw [Walk.receive]
    generalize findNode P w.peers.signatures raw = found
    obtain ⟨signatures, records, hints⟩ := found
    have hrecorded : Recorded P c { w.peers with signatures := signatures } :=
      h.recorded.congr rfl rfl
    have hall := ingestAll_recorded hrecorded w.novel records
    dsimp only
    generalize ingestAll P c { w.peers with signatures := signatures } w.novel records = result at hall ⊢
    obtain ⟨peers, novel, threw⟩ := result
    have hone : ({ w with
        peers := peers
        responsesReceived := w.responsesReceived + 1
        responded := Dht.addMember w.responded nodeId
        novel := novel } : Walk).Inv P c S := { h with recorded := hall }
    cases threw with
    | true => exact ⟨hone, rfl, rfl⟩
    | false =>
      obtain ⟨hinv, hheeds⟩ := hone.addHints hints
      exact ⟨hinv, hheeds.calls, hheeds.finished⟩

/-! ### Calls -/

theorem Walk.Inv.mark (h : w.Inv P c S) (nodeId : JsString) {f : Flight → Flight}
    (hf : ∀ flight, (f flight).nodeId = flight.nodeId) : (w.mark nodeId f).Inv P c S := by
  have hids : ∀ flight : Flight,
      (if flight.nodeId = nodeId then f flight else flight).nodeId = flight.nodeId := by
    intro flight
    split
    · exact hf flight
    · rfl
  refine { h with flights := ?_, called := ?_, callKeys := ?_ }
  · simp [Walk.mark, h.flights]
  · intro flight hmem
    obtain ⟨before, hbefore, rfl⟩ := List.mem_map.mp hmem
    rw [hids]
    exact h.called before hbefore
  · have hkeys : (w.mark nodeId f).calls.map Flight.nodeId = w.calls.map Flight.nodeId := by
      simp [Walk.mark, Function.comp_def, hids]
    rw [hkeys]
    exact h.callKeys

theorem mem_of_call {nodeId : JsString} {f : Flight} (h : w.call nodeId = some f) :
    f ∈ w.calls ∧ f.nodeId = nodeId :=
  ⟨List.mem_of_find?_eq_some h, by simpa using List.find?_some h⟩

/-- A list without one of its ids is shorter by at most one. -/
theorem length_filter_ne {α : Type} {key : α → JsString} {l : List α} (hnodup : (l.map key).Nodup)
    (id : JsString) : l.length ≤ (l.filter fun a => key a ≠ id).length + 1 := by
  induction l with
  | nil => simp
  | cons a l ih =>
    rw [List.map_cons, List.nodup_cons] at hnodup
    by_cases ha : key a = id
    · have hall : l.filter (fun a => key a ≠ id) = l := by
        refine List.filter_eq_self.mpr fun b hb => ?_
        have hne : key b ≠ id := fun heq => hnodup.1 (ha ▸ heq ▸ List.mem_map_of_mem hb)
        simpa using hne
      rw [List.filter_cons_of_neg (by simpa using ha), hall, List.length_cons]
    · rw [List.filter_cons_of_pos (by simpa using ha), List.length_cons, List.length_cons]
      have hrest := ih hnodup.2
      omega

theorem Walk.Inv.drop (h : w.Inv P c S) {nodeId : JsString} {f : Flight}
    (hcall : w.call nodeId = some f) : (w.drop nodeId).Inv P c S := by
  obtain ⟨hmem, hid⟩ := mem_of_call hcall
  have hless : (w.drop nodeId).calls.length < w.calls.length :=
    List.length_filter_lt_length_iff_exists.mpr ⟨f, hmem, by simp [hid]⟩
  have hone : w.calls.length ≤ (w.drop nodeId).calls.length + 1 := length_filter_ne h.callKeys nodeId
  have hslow : w.slow.length ≤ (w.drop nodeId).slow.length + 1 :=
    length_filter_ne (by simpa using h.slowKeys) nodeId
  have hinFlight : (w.drop nodeId).inFlight = w.inFlight - 1 := rfl
  have hflights := h.flights
  have hwidth := h.width
  refine { h with flights := ?_, called := ?_, callKeys := ?_, slowKeys := ?_, slowFew := ?_, width := ?_ }
  · omega
  · exact fun flight hflight => h.called flight (List.mem_of_mem_filter hflight)
  · exact h.callKeys.sublist (List.filter_sublist.map _)
  · exact h.slowKeys.filter _
  · exact (List.length_filter_le _ _).trans h.slowFew
  · omega

theorem Walk.Inv.proceed (h : w.Inv P c S) (now later : ℤ) :
    (w.proceed P c S now later).Inv P c S ∧ (w.proceed P c S now later).Alive := by
  unfold Walk.proceed
  split
  · exact h.pump now later
  · have hconverged : (w.converged P S).1.Inv P c S := by
      unfold Walk.converged
      split
      · exact h
      · exact { h with }
    generalize w.converged P S = result at hconverged ⊢
    obtain ⟨u, done⟩ := result
    cases done with
    | true =>
      obtain ⟨hinv, hdone⟩ := hconverged.finish .converged later fun heq => by cases heq
      exact ⟨hinv, .inl hdone⟩
    | false => exact hconverged.pump now later

theorem Walk.Inv.hedged (h : w.Inv P c S) (halive : w.Alive) (nodeId : JsString) (now later : ℤ) :
    (w.hedged P c S nodeId now later).Inv P c S ∧ (w.hedged P c S nodeId now later).Alive := by
  have hmarked : (w.mark nodeId fun flight => { flight with hedge := false }).Inv P c S :=
    h.mark nodeId fun _ => rfl
  have hcalls : (w.mark nodeId fun flight => { flight with hedge := false }).Alive := by
    refine halive.imp_right fun hne hnil => hne ?_
    exact List.map_eq_nil_iff.mp hnil
  unfold Walk.hedged
  dsimp only
  generalize (w.mark nodeId fun flight => { flight with hedge := false }) = v at hmarked hcalls ⊢
  split
  · exact ⟨hmarked, hcalls⟩
  · next hroom =>
    rw [not_or, not_le] at hroom
    have hadded : ({ v with slow := Dht.addMember v.slow nodeId } : Walk).Inv P c S := by
      have hlength : v.slow.length ≤ (Dht.addMember v.slow nodeId).length ∧
          (Dht.addMember v.slow nodeId).length ≤ v.slow.length + 1 := by
        unfold Dht.addMember
        split <;> simp
      have hwidth := hmarked.width
      refine { hmarked with slowKeys := nodup_addMember hmarked.slowKeys nodeId, slowFew := ?_, width := ?_ }
      · show (Dht.addMember v.slow nodeId).length ≤ S.alpha
        omega
      · show v.inFlight ≤ S.alpha + (Dht.addMember v.slow nodeId).length
        omega
    exact hadded.pump now later

theorem Walk.Inv.step (h : w.Inv P c S) (halive : w.Alive) (e : Walk.Event) :
    (w.step P c S e).Inv P c S ∧ (w.step P c S e).Alive := by
  cases e with
  | answer nodeId answer =>
    rw [Walk.step]
    split
    · obtain ⟨hinv, hheeds⟩ := h.receive nodeId answer
      refine ⟨hinv.mark nodeId fun _ => rfl, ?_⟩
      rcases halive with hdone | hne
      · exact .inl (hheeds.finished.trans hdone)
      · exact .inr fun hnil => hne (hheeds.calls ▸ List.map_eq_nil_iff.mp hnil)
    · exact ⟨h, halive⟩
  | settle nodeId now later =>
    rw [Walk.step]
    split
    · next hcall => exact (h.drop hcall).proceed now later
    · exact ⟨h, halive⟩
  | hedge nodeId now later =>
    rw [Walk.step]
    split
    · exact h.hedged halive nodeId now later
    · exact ⟨h, halive⟩
  | elsewhere call => exact ⟨{ h with recorded := h.recorded.apply call }, halive⟩

/-! ### Runs -/

theorem Walk.Inv.run (h : w.Inv P c S) (halive : w.Alive) (events : List Walk.Event) :
    (events.foldl (Walk.step P c S) w).Inv P c S ∧ (events.foldl (Walk.step P c S) w).Alive := by
  induction events generalizing w with
  | nil => exact ⟨h, halive⟩
  | cons e events ih =>
    obtain ⟨hinv, hnext⟩ := h.step halive e
    exact ih hinv hnext

/-- Few calls, of different nodes and not of this one, and not too many at a time. The walk resolves at
    most once, and when all its calls have settled. Where it ends with nothing found, nothing converged
    and no load shed, there is nothing left that it might do. -/
structure Walk.Bounded (c : Config) (S : Lookup) (w : Walk) : Prop where
  budget : w.order.length ≤ S.budget
  nodup : w.order.Nodup
  self : c.localNodeId ∉ w.order
  flights : w.inFlight = w.calls.length
  width : w.inFlight ≤ 2 * S.alpha
  once : w.results.length ≤ 1
  resolves : w.calls = [] → w.results.length = 1
  exhausted : ∀ r ∈ w.results, r.reason = .drained → r.Exhausted S

theorem walk_bounded (P : Platform) (c : Config) (S : Lookup) (calls : List Call) (now later : ℤ)
    (events : List Walk.Event) :
    (walkOnce P c S (calls.foldl (Peers.apply P c) .new) now later events).Bounded c S := by
  have hrecorded : Recorded P c (calls.foldl (Peers.apply P c) .new) := by
    rw [← run_turns]
    exact Recorded.new.turns _
  obtain ⟨hfirst, hfirstAlive⟩ := (Walk.Inv.start (S := S) hrecorded).pump now later
  obtain ⟨h, halive⟩ := hfirst.run hfirstAlive events
  change (walkOnce P c S _ now later events).Inv P c S at h
  change (walkOnce P c S _ now later events).Alive at halive
  generalize walkOnce P c S _ now later events = w at h halive ⊢
  have honce := h.once
  have hwidth := h.width
  have hslow := h.slowFew
  refine ⟨h.budget, h.nodup, h.self, h.flights, by omega, ?_, fun hnil => ?_, h.drained⟩
  · rw [honce]
    split <;> omega
  · rw [honce, if_pos (halive.resolve_right fun hne => hne hnil)]

/-- A's answer is not there, and nobody else is left to ask. -/
example : ((walkOnce plain nodeB ⟨js "Z", some 3, some 1, true, false⟩
    ((Peers.new).apply plain nodeB (.single (.ingest (signedByA 2 90) 10 false (js "t")))) 11 11
    [.answer (js "A") .nothing, .settle (js "A") 12 12]).results.map fun r =>
      (r.queried, r.reason, r.found.isSome)) = [([js "A"], .drained, false)] := by decide +kernel

end Truyn.Discovery
