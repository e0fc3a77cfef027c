import Truyn.Relay.Quiet

/-! relay:segments | what a segment can do

    Every segment of the relay is one of the kinds of `Segment`: bookkeeping that leaves at most one
    task suspended (`wait`), or one write that matters, with the tasks it leaves. Suspended tasks fit
    the heap: a handler that continues on a request object was given it under its id (`Fits`). All
    arguments about runs of the relay start from here. -/

namespace Truyn.Relay
open Async Cas
open Ledger (Fault NeedStatus Time Record History Answer Awaited Call hostFault versions
  sequenceMismatch)

/-! ### Places -/

/-- The NEED id that is admitted here. -/
def Cont.admits : Cont → Option Id
  | .fastNeedAdmitted _ frame _ _ => some frame.i
  | .legacyNeedAdmitted m _ => some m.id
  | _ => none

/-- The provider and request whose RESULT is committed here, and where its delivery continues. -/
def Cont.completes : Cont → Option (Id × Ref × Cont)
  | .resultCommitted p frame r => some (p, r, .resultCompleted p frame r)
  | .legacyResultCommitted m r => some (m.sender, r, .legacyResultCompleted m r)
  | _ => none

/-- The request whose RESULT is delivered here. -/
def Cont.delivers : Cont → Option Ref
  | .resultCompleted _ _ r => some r
  | .legacyResultCompleted _ r => some r
  | _ => none

/-- Places that only a ledger call, or its absence, leads to. -/
def Cont.asks : Cont → Bool
  | .expire _ _ _ | .fastNeedAdmitted _ _ _ _ | .legacyNeedAdmitted _ _ => true
  | .resultCommitted _ _ _ | .legacyResultCommitted _ _ | .revokeCommitted _ _ => true
  | .partialCommitted _ _ _ _ | .partialRetried _ _ _ => true
  | _ => false

def Cont.expires : Cont → Bool
  | .expire _ _ _ => true
  | _ => false

/-- Where a task continues. -/
def Task.cont : Task → Cont
  | .call _ k => k
  | .read _ k => k
  | .resume _ k => k

/-- Places after an expiry check. -/
def Cont.checks : Cont → Bool
  | .sweep _ k => k.checks
  | .done | .fastNeedSwept _ _ _ _ | .resultChecked _ _ _ | .revokeChecked _ _ => true
  | .statusAnswer _ _ | .partialChecked _ _ _ => true
  | _ => false

/-! ### Tasks that fit the heap -/

/-- The objects a place continues on are what it takes them for. -/
def Shape (o : Options) (w : World) : Cont → Prop
  | .expire r _ k => (∃ q ∈ w.view r, q.mode = .fast) ∧ Shape o w k ∧ k.checks
  | .sweep _ k => Shape o w k ∧ k.checks
  | .resultChecked p f r =>
    (∃ q ∈ w.view r, q.needId = f.i ∧ q.provider = p) ∧ o.nodeIdFromPublicKey f.key = p
  | .resultCommitted p f r => ∃ q ∈ w.view r, q.needId = f.i ∧ q.provider = p ∧ q.stage = none
  | .legacyResultCommitted m r =>
    ∃ q ∈ w.view r, q.needId = m.requestId ∧ q.provider = m.sender ∧ q.stage = none
  | .revokeLooked m (some r) => ∃ q ∈ w.view r, q.needId = m.targetId
  | .revokeChecked m r => ∃ q ∈ w.view r, q.needId = m.targetId
  | .revokeCommitted m r => ∃ q ∈ w.view r, q.needId = m.targetId ∧ q.stage = none
  | .statusRead _ i r => ∃ q ∈ w.view r, q.needId = i
  | .statusAnswer c _ => ∃ q i, c = .requestStatus q i
  | .partialChecked _ f r => ∃ q ∈ w.view r, q.needId = f.i
  | .partialRetried _ f r => ∃ q ∈ w.view r, q.needId = f.i
  | .partialCommitted _ f r n =>
    (∃ q ∈ w.view r, q.needId = f.i ∧ q.mode = .fast) ∧ f.sequence = some (n : ℤ)
  | .stageMatched _ chain _ => chain < w.chainObjs.length
  | _ => True

/-- The call whose answer a place waits for. -/
def Asked (w : World) (c : Call) : Cont → Prop
  | .expire r _ _ =>
    ∃ q ∈ w.view r, c = .transitionNeed ⟨q.needId, none, some q.provider, .failed, none⟩
  | .resultCommitted p f r => ∃ q ∈ w.view r, c = completion q p f.digest
  | .legacyResultCommitted m r => ∃ q ∈ w.view r, c = completion q m.sender m.id
  | .revokeCommitted m r => ∃ q ∈ w.view r, c = cancellation m q.provider
  | .partialCommitted p f r _ => ∃ q ∈ w.view r, c = partialCall f p (some q.requester)
  | .partialRetried p f _ => c = partialCall f p none
  | .sweep _ _ | .partialChecked _ _ _ => False
  | k => ∀ id ∈ k.admits, ∃ c', c = .reserveNeed c' ∧ c'.id = id

/-- A suspended task fits the heap. -/
def Fits (o : Options) (w : World) : Task → Prop
  | .call c k => w.ledger.isSome ∧ Shape o w k ∧ Asked w c k
  | .read id k => w.ledger.isSome ∧ Shape o w k ∧ k.asks = false ∧
    ∀ q i r, k = .statusRead q i r → id = i
  | .resume .nothing k => Shape o w k ∧ (k.asks → w.ledger = none) ∧ k.expires = false
  | .resume (.record _) k => w.ledger.isSome ∧ Shape o w k ∧ k.asks = false
  | .resume (.answer _) k => w.ledger.isSome ∧ Shape o w k
  | .resume (.fault _) k => w.ledger.isSome ∧ Shape o w k

/-- What a place knows when bookkeeping leads to it: the counter of the request is the one its frame
    was checked against. Places that a write leads to are not among them. -/
def Fresh (w : World) : Cont → Prop
  | .partialCommitted _ _ r n => ∃ q ∈ w.view r, q.nextPartialSequence = n
  | .partialRetried _ f r => ∃ q ∈ w.view r, f.sequence = some ((q.nextPartialSequence : ℤ) - 1)
  | .resultCompleted _ _ _ | .legacyResultCompleted _ _ => False
  | .stageMatched _ _ _ | .stageCompleted _ _ _ _ => False
  | _ => True

def Born (w : World) : Task → Prop
  | .call _ k => Fresh w k
  | .read _ k => Fresh w k
  | .resume a k => a = .nothing ∧ Fresh w k ∧ k.admits = none

/-- Bookkeeping that leaves at most one task. -/
structure Wait (o : Options) (w : World) (s : Step) : Prop where
  quiet : Quiet w s.1
  one : s.2.length ≤ 1
  born : ∀ x ∈ s.2, Fits o s.1 x ∧ Born s.1 x

/-! ### Kinds of segments -/

/-- A request object as the NEED handlers create it. -/
def Request.direct (q : Request) : Prop :=
  ∃ id requester provider capability now, ∃ mode ≠ Mode.chainStage,
    q = newRequest id requester provider capability now mode none

/-- The request object of a stage. -/
def stageRequest (chain : Ref) (ch : Chain) (stageIndex : ℕ) (provider : Id) (now : Time) :
    Request :=
  newRequest (compactStageRequestId ch.frame.i stageIndex) ch.requester provider
    ((ch.frame.stages[stageIndex]?).join.getD []) now .chainStage
    (some ⟨chain, ch.frame.i, stageIndex⟩)

/-- A chain remembers who got a stage. -/
def Chain.assign (stageIndex : ℕ) (provider : Id) (c : Chain) : Chain :=
  { c with
    providers := Function.update c.providers stageIndex (some provider)
    currentStage := some stageIndex }

/-- A chain keeps the result of a stage. -/
def Chain.store (stageIndex : ℕ) (result : StageResult) (c : Chain) : Chain :=
  { c with results := Function.update c.results stageIndex (some result) }

/-- The counters of a request once a frame is through. -/
def Request.progress (expected : ℕ) (frame : Frame) (q : Request) : Request :=
  { q with
    nextPartialSequence := expected + 1, partialCount := expected + 1
    lastPartialSequence := frame.sequence, lastPartialDigest := some frame.digest }

/-- A NEED id is remembered for good. -/
def World.remember (w : World) (id : Id) : World := { w with seenNeedIds := w.seenNeedIds ++ [id] }

/-- A chain is entered under its id. -/
def World.enter (w : World) (ch : Chain) : World :=
  { w with
    chains := insert w.chains ch.chainId w.chainObjs.length
    chainObjs := w.chainObjs ++ [ch] }

/-- What the relay hands a provider of a stage: the result of the stage before. -/
def Chain.prior (c : Chain) (stageIndex : ℕ) : Option StageResult :=
  if 0 < stageIndex then c.results (stageIndex - 1) else none

/-- The 200 that a provider gets for a frame. -/
def accepted (p : Id) (f : Frame) (r : Ref) : Output := .answered (.fastPartial p f) (some r) 200 none

/-- The 409 that a provider gets for a frame out of sequence. -/
def mismatched (p : Id) (f : Frame) (r : Ref) : Output :=
  .answered (.fastPartial p f) (some r) 409 (some sequenceMismatch)

/-- What one segment does, with the tasks it leaves. -/
inductive Segment (o : Options) (i : Input) (t : Option Task) (w : World) : Step → Prop
  | wait {s : Step} : Wait o w s → Segment o i t w s
  | expired {a r now k w'} : t = some (.resume a (.expire r now k)) → a.failed = false →
      Quiet (w.setStatus r .failed) w' → Segment o i t w (w', [.resume .nothing k])
  | adopted {d q id r s} : t = some (.resume (.record (some d)) (.statusRead q id r)) →
      d.status ≠ .matched → Wait o (w.setStatus r d.status) s → Segment o i t w s
  | remembered {w₁ w' k id} : k.admits = some id → w.ledger = none → Quiet w w₁ →
      id ∉ w₁.seenNeedIds → w₁.seenNeedIds.length < o.maxSeenNeedIds →
      Quiet (w₁.remember id) w' →
      Segment o i t w (w', [.resume .nothing k])
  | dispatched {a k q tr w'} : t = some (.resume a k) → a.failed = false →
      k.admits = some q.needId → w.hasRequest q.needId = false → q.direct →
      Quiet ((w.markMatchedRequest q).emit (.sent q.provider (.NEED q.needId q.requester) tr)) w' →
      Segment o i t w (w', [])
  | completedStage {q s p f r chain w'} : w.view r = some q → q.status = .matched →
      q.stage = some s → q.provider = p → o.nodeIdFromPublicKey f.key = p →
      lookup w.chains s.chainId = some chain → w.chainTerminal chain = false →
      Quiet ((w.setStatus r .completed).emit (.succeeded p r)) w' →
      Segment o i t w (w', [.resume .nothing (.stageCompleted p f r chain)])
  | completedLegacyStage {q s m r w'} : w.view r = some q → q.status = .matched →
      q.stage = some s → Quiet ((w.setStatus r .completed).emit (.succeeded m.sender r)) w' →
      Segment o i t w (w', [.resume .nothing (.legacyResultCompleted m r)])
  | completed {a k p r k' w'} : t = some (.resume a k) → a.failed = false →
      k.completes = some (p, r, k') →
      Quiet ((w.setStatus r .completed).emit (.succeeded p r)) w' →
      Segment o i t w (w', [.resume .nothing k'])
  | delivered {a k r n body tr w'} : t = some (.resume a k) → a.failed = false →
      k.delivers = some r → Quiet (w.emit (.sent n (.RESULT r body) tr)) w' →
      Segment o i t w (w', [])
  | entered {a requester f socket j c w₁ w' ts} :
      t = some (.resume a (.chainMatched requester f socket j)) → Quiet w w₁ →
      c.chainId = f.i → c.frame = f → c.requester = requester → c.currentStage = none →
      (∀ j, c.providers j = none) → (∀ j, c.results j = none) →
      Quiet (w₁.enter c) w' →
      (c.status = .running ∧ ts = [.resume .nothing
        (.stageMatched (.chain requester f socket) w.chainObjs.length 0)]) ∨
        (c.status ≠ .running ∧ ts = []) →
      Segment o i t w (w', ts)
  | closed {a c chain j status now w'} : t = some (.resume a (.stageMatched c chain j)) →
      Quiet (closeChain w chain status now) w' → Segment o i t w (w', [])
  | stageSent {a c chain j ch provider now tr w₁ w'} :
      t = some (.resume a (.stageMatched c chain j)) → w.chainObjs[chain]? = some ch →
      Quiet w w₁ → w₁.hasRequest (compactStageRequestId ch.frame.i j) = false →
      Quiet (((w₁.markMatchedRequest (stageRequest chain ch j provider now)).modifyChain chain
        (Chain.assign j provider)).emit (.sent provider (.CHAIN_STAGE chain j
          (compactStageRequestId ch.frame.i j) (ch.prior j)) tr)) w' →
      Segment o i t w (w', [])
  | stored {a p f r chain q s w₁ w' ts} : chain < w.chainObjs.length →
      t = some (.resume a (.stageCompleted p f r chain)) → w.view r = some q → q.stage = some s →
      w₁ = (w.modifyChain chain (Chain.store s.stageIndex ⟨f, p⟩)).emit
        (.stored chain s.stageIndex ⟨f, p⟩) →
      (∃ status now, Quiet (closeChain w₁ chain status now) w' ∧ ts = []) ∨ (Quiet w₁ w' ∧
        ts = [.resume .nothing (.stageMatched (.fastResult p f) chain (s.stageIndex + 1))]) →
      Segment o i t w (w', ts)
  | cancelled {a m r w'} : t = some (.resume a (.revokeCommitted m r)) → a.failed = false →
      Quiet (w.setStatus r .cancelled) w' → Segment o i t w (w', [])
  | streamed {a p f r n requester tr w'} :
      t = some (.resume a (.partialCommitted p f r n)) → a.failed = false →
      a ≠ .answer (.accepted true) → Quiet (((w.emit (.sent requester (.PARTIAL r f) tr)).modify r
        (Request.progress n f)).emit (accepted p f r)) w' → Segment o i t w (w', [])
  | spilled {a p f r n w'} : t = some (.resume a (.partialCommitted p f r n)) →
      a.failed = false → a ≠ .answer (.accepted true) →
      Quiet ((w.modify r (Request.progress n f)).emit (accepted p f r)) w' →
      Segment o i t w (w', [])
  | repeated {a k p f r w'} : t = some (.resume a k) →
      (k = .partialRetried p f r ∨ ∃ n, k = .partialCommitted p f r n ∧
        a = .answer (.accepted true)) → a.failed = false →
      Quiet (w.emit (accepted p f r)) w' → Segment o i t w (w', [])
  | refused {a p f r q w'} : t = some (.resume a (.partialChecked p f r)) →
      w.view r = some q ∧ q.status = .matched →
      f.sequence ≠ some (q.nextPartialSequence : ℤ) →
      (f.sequence = some ((q.nextPartialSequence : ℤ) - 1) ∧ q.lastPartialSequence = f.sequence →
        q.lastPartialDigest ≠ some f.digest) →
      Quiet (w.emit (mismatched p f r)) w' → Segment o i t w (w', [])
  | refusedByLedger {k p f r w'} : t = some (.resume (.fault ⟨409, sequenceMismatch⟩) k) →
      k.command = some (.fastPartial p f, some r) → Quiet (w.emit (mismatched p f r)) w' →
      Segment o i t w (w', [])
  | executed {c k a now} : t = some (.call c k) →
      (i = .exec ∧ a = (execCall w c [] now).2) ∨ (∃ f, a = .fault f ∧ hostFault f) →
      Segment o i t w ((execCall w c [] now).1, [.resume a k])
  | dropped {c k f ts} : t = some (.call c k) → hostFault f → ts = [] ∨ ts = [.call c .done] →
      Segment o i t w (w, .resume (.fault f) k :: ts)
  | read {id k a} : t = some (.read id k) →
      (∃ age, a = .record (History.record ((versions w.ledger id).drop age))) ∨
        (∃ f, a = .fault f ∧ hostFault f) → Segment o i t w (w, [.resume a k])
  | peer {c about now} : t = none → Segment o i t w ((execCall w c about now).1, [])
  | timeout {chain now} : t = none → i = .chainTimeout chain → w.chainTerminal chain = false →
      Segment o i t w (closeChain w chain 504 now, [])

/-- What the maps say of the objects. -/
structure Wf (w : World) : Prop where
  named : ∀ p ∈ w.requests, ∃ q ∈ w.view p.2, q.needId = p.1
  stage : ∀ r, ∀ q ∈ w.view r, q.mode = .chainStage ↔ q.stage.isSome

variable {id : Id} {w' : World} {k : Cont}

variable {r : Ref} {c : Command} {status : ℕ} {error : Option String}

theorem mem_of_lookup {m : List (Id × Ref)} (h : lookup m id = some r) :
    (id, r) ∈ m := by
  obtain ⟨p, hp, rfl⟩ := Option.map_eq_some_iff.mp h
  obtain rfl : p.1 = id := by simpa using List.find?_some hp
  exact List.mem_of_find?_eq_some hp

theorem Wf.request {w : World} (hw : Wf w) (h : w.request id = some r) :
    ∃ q ∈ w.view r, q.needId = id :=
  hw.named _ (mem_of_lookup h)

variable {o : Options} {e : Env o} {i : Input} {t : Option Task} {w : World}

/-! ### Bookkeeping -/

theorem Wait.after {s : Step} (h : Quiet w w') (h' : Wait o w' s) : Wait o w s :=
  ⟨h.trans h'.quiet, h'.one, h'.born⟩

theorem wait_nil (h : Quiet w w') : Wait o w (w', []) :=
  ⟨h, Nat.zero_le _, fun _ h => absurd h List.not_mem_nil⟩

theorem wait_answer {r : Option Ref} (h : (Output.answered c r status error).minor) :
    Wait o w (answer w c r status error) :=
  wait_nil (quiet_emit w h)

/-- An answer that names no object is minor. -/
@[simp] theorem minor_none (c : Command) (status : ℕ) (error : Option String) :
    (Output.answered c none status error).minor := by
  cases c <;> rfl

/-- An answer that is about no request. -/
theorem wait_refuse :
    Wait o w (answer w c none status error) := wait_answer (minor_none c status error)

theorem Segment.refuse :
    Segment o i t w (answer w c none status error) := .wait wait_refuse

theorem Segment.stay : Segment o i t w (w, []) := .wait (wait_nil (.refl w))

theorem wait_one {x : Task} (h : Fits o w x ∧ Born w x) : Wait o w (w, [x]) :=
  ⟨.refl w, le_refl 1, fun y hy => by rwa [List.mem_singleton.mp hy]⟩

theorem wait_turn (hs : Shape o w k) (hf : Fresh w k) (ha : k.admits = none)
    (hk : k.asks → w.ledger = none) (hx : k.expires = false) : Wait o w (turn w k) :=
  wait_one ⟨⟨hs, hk, hx⟩, rfl, hf, ha⟩

theorem wait_need (hs : Shape o w k) (hf : Fresh w k) (ha : k.admits = none) (hk : k.asks = false)
    (hx : k.expires = false) (hid : ∀ q i r, k = .statusRead q i r → id = i) :
    Wait o w (awaitNeed w id k) := by
  refine wait_one ?_
  split
  · next hl => exact ⟨⟨hl, hs, hk, hid⟩, hf⟩
  · exact ⟨⟨hs, by simp [hk], hx⟩, rfl, hf, ha⟩

theorem wait_call {c : Call} (hs : Shape o w k) (hc : Asked w c k) (hf : Fresh w k)
    (ha : k.admits = none) (hx : k.expires = false) : Wait o w (awaitCall w c k) := by
  refine wait_one ?_
  split
  · next hl => exact ⟨⟨hl, hs, hc⟩, hf⟩
  · next hl => exact ⟨⟨hs, fun _ => by simpa using hl, hx⟩, rfl, hf, ha⟩

theorem not_asks_of_checks (h : k.checks) : k.asks = false ∧ k.expires = false ∧
    k.admits = none := by
  cases k with
  | sweep | done | fastNeedSwept | resultChecked | revokeChecked | statusAnswer | partialChecked =>
    exact ⟨rfl, rfl, rfl⟩
  | _ => cases h

theorem fresh_of_checks (h : k.checks) : Fresh w k := by
  cases k with
  | sweep | done | fastNeedSwept | resultChecked | revokeChecked | statusAnswer | partialChecked =>
    exact trivial
  | _ => cases h

theorem wait_check (hs : Shape o w k) (hk : k.checks) : Wait o w (turn w k) := by
  obtain ⟨h₁, h₂, h₃⟩ := not_asks_of_checks hk
  exact wait_turn hs (fresh_of_checks hk) h₃ (by simp [h₁]) h₂

/-! ### Shapes are about what does not change -/

/-- The objects of `w` are in `w'`, under the same names and for the same parties. -/
structure Keeps (w w' : World) : Prop where
  object : ∀ r, ∀ q ∈ w.view r, ∃ q' ∈ w'.view r, q'.needId = q.needId ∧
    q'.requester = q.requester ∧ q'.provider = q.provider ∧ q'.mode = q.mode ∧ q'.stage = q.stage
  size : w.chainObjs.length ≤ w'.chainObjs.length
  ledger : w'.ledger.isSome = w.ledger.isSome

theorem Quiet.keeps (h : Quiet w w') : Keeps w w' where
  object r q hq := by
    rcases h.view r with hv | ⟨-, q', hv, -, -, hv'⟩
    · exact ⟨q, hv ▸ hq, rfl, rfl, rfl, rfl, rfl⟩
    · cases hv.symm.trans hq
      exact ⟨_, hv', rfl, rfl, rfl, rfl, rfl⟩
  size := by rw [h.chainObjs]
  ledger := by rw [h.ledger]

theorem Keeps.shape (h : Keeps w w') : ∀ {k : Cont}, Shape o w k → Shape o w' k
  | .expire r _ k, ⟨⟨q, hq, hm⟩, hs, hk⟩ => by
    obtain ⟨q', hq', -, -, -, hm', -⟩ := h.object r q hq
    exact ⟨⟨q', hq', hm'.trans hm⟩, h.shape hs, hk⟩
  | .sweep _ k, ⟨hs, hk⟩ => ⟨h.shape hs, hk⟩
  | .resultChecked p f r, ⟨⟨q, hq, hn, hp⟩, hkey⟩ => by
    obtain ⟨q', hq', hn', -, hp', -, -⟩ := h.object r q hq
    exact ⟨⟨q', hq', hn'.trans hn, hp'.trans hp⟩, hkey⟩
  | .resultCommitted p f r, ⟨q, hq, hn, hp, hs⟩ => by
    obtain ⟨q', hq', hn', -, hp', -, hs'⟩ := h.object r q hq
    exact ⟨q', hq', hn'.trans hn, hp'.trans hp, hs'.trans hs⟩
  | .legacyResultCommitted m r, ⟨q, hq, hn, hp, hs⟩ => by
    obtain ⟨q', hq', hn', -, hp', -, hs'⟩ := h.object r q hq
    exact ⟨q', hq', hn'.trans hn, hp'.trans hp, hs'.trans hs⟩
  | .revokeLooked m (some r), ⟨q, hq, hn⟩ | .revokeChecked m r, ⟨q, hq, hn⟩
  | .statusRead _ _ r, ⟨q, hq, hn⟩ | .partialChecked _ _ r, ⟨q, hq, hn⟩
  | .partialRetried _ _ r, ⟨q, hq, hn⟩ => by
    obtain ⟨q', hq', hn', -⟩ := h.object r q hq
    exact ⟨q', hq', hn'.trans hn⟩
  | .revokeCommitted m r, ⟨q, hq, hn, hs⟩ => by
    obtain ⟨q', hq', hn', -, -, -, hs'⟩ := h.object r q hq
    exact ⟨q', hq', hn'.trans hn, hs'.trans hs⟩
  | .partialCommitted _ f r n, ⟨⟨q, hq, hn, hm⟩, hseq⟩ => by
    obtain ⟨q', hq', hn', -, -, hm', -⟩ := h.object r q hq
    exact ⟨⟨q', hq', hn'.trans hn, hm'.trans hm⟩, hseq⟩
  | .statusAnswer c r, hs => hs
  | .stageMatched _ chain _, hs => lt_of_lt_of_le hs h.size
  | .fastNeedLooked _ _ _, _ | .fastNeedMatched _ _ _, _ | .fastNeedSwept _ _ _ _, _
  | .fastNeedAdmitted _ _ _ _, _ | .legacyNeedLooked _, _ | .legacyNeedMatched _, _
  | .legacyNeedAdmitted _ _, _ | .done, _ | .resultLooked _ _, _ | .resultRecovered _, _
  | .resultCompleted _ _ _, _ | .legacyResultLooked _, _ | .legacyResultCompleted _ _, _
  | .chainMatched _ _ _ _, _ | .stageCompleted _ _ _ _, _ | .revokeLooked _ none, _
  | .revokeRecovered _, _ | .revokeTransitioned _, _ | .partialLooked _ _, _
  | .partialRecovered _, _ => trivial

theorem Keeps.asked (h : Keeps w w') {c : Call} : ∀ {k : Cont}, Asked w c k →
    Asked w' c k := by
  intro k hc
  cases k
  case expire r _ _ =>
    obtain ⟨q, hq, rfl⟩ := hc
    obtain ⟨q', hq', hn, -, hp, -⟩ := h.object r q hq
    exact ⟨q', hq', by rw [hn, hp]⟩
  case resultCommitted p f r =>
    obtain ⟨q, hq, rfl⟩ := hc
    obtain ⟨q', hq', hn, hr, -⟩ := h.object r q hq
    exact ⟨q', hq', by simp only [completion, hn, hr]⟩
  case legacyResultCommitted m r =>
    obtain ⟨q, hq, rfl⟩ := hc
    obtain ⟨q', hq', hn, hr, -⟩ := h.object r q hq
    exact ⟨q', hq', by simp only [completion, hn, hr]⟩
  case revokeCommitted m r =>
    obtain ⟨q, hq, rfl⟩ := hc
    obtain ⟨q', hq', -, -, hp, -⟩ := h.object r q hq
    exact ⟨q', hq', by rw [hp]⟩
  case partialCommitted p f r n =>
    obtain ⟨q, hq, rfl⟩ := hc
    obtain ⟨q', hq', -, hr, -⟩ := h.object r q hq
    exact ⟨q', hq', by rw [hr]⟩
  all_goals exact hc

theorem Keeps.fits (h : Keeps w w') : ∀ {x : Task}, Fits o w x → Fits o w' x
  | .call _ _, ⟨hl, hs, hc⟩ => ⟨h.ledger ▸ hl, h.shape hs, h.asked hc⟩
  | .read _ _, ⟨hl, hs, hk⟩ => ⟨h.ledger ▸ hl, h.shape hs, hk⟩
  | .resume .nothing _, ⟨hs, hk, hx⟩ => by
    refine ⟨h.shape hs, fun ha => ?_, hx⟩
    have hl := h.ledger
    rw [hk ha] at hl
    simpa using hl
  | .resume (.record _) _, ⟨hl, hs, hk⟩ => ⟨h.ledger ▸ hl, h.shape hs, hk⟩
  | .resume (.answer _) _, ⟨hl, hs⟩ => ⟨h.ledger ▸ hl, h.shape hs⟩
  | .resume (.fault _) _, ⟨hl, hs⟩ => ⟨h.ledger ▸ hl, h.shape hs⟩

end Truyn.Relay
