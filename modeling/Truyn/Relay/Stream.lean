import Truyn.Relay.Heap

/-! relay:stream | the PARTIAL frames of a request, live and answered

    A request counts the frames it has passed on (`next`), the ledger those it has accepted
    (`counter`). What the relay says about frames are its words: a frame is sent live, answered 200,
    or refused as out of sequence. As long as the segments are `InStep` the two counters move
    together: the live frames of a request are 0, 1, 2 … and after a 200 for frame k the next frame
    is welcome.

        checked at n ─▶ ledger: n ↦ n+1 (a token for n) ─▶ live n, next: n ↦ n+1 -/

namespace Truyn.Relay
open Async
open Ledger (NeedStatus Time Record History Awaited Book Call versions sequenceMismatch)

variable {o : Options} {i : Input} {t : Option Task} {w w' : World}

/-! ### Words -/

/-- What the relay says about a frame with this sequence number. -/
inductive Word
  | live (sequence : Option ℤ)
  | accepted (sequence : Option ℤ)
  | mismatched (sequence : Option ℤ)
  deriving DecidableEq

/-- The request a word is about, and the word. -/
def Output.word : Output → Option (Ref × Word)
  | .sent _ (.PARTIAL r f) _ => some (r, .live f.sequence)
  | .answered (.fastPartial _ f) (some r) status error =>
    if status = 200 ∧ error = none then some (r, .accepted f.sequence)
    else if status = 409 ∧ error = some sequenceMismatch then some (r, .mismatched f.sequence)
    else none
  | _ => none

/-- All words, latest first. -/
def World.words (w : World) : List (Ref × Word) := w.log.filterMap Output.word

/-- The frame that a request expects next. -/
def World.next (w : World) (r : Ref) : ℕ := ((w.view r).map Request.nextPartialSequence).getD 0

/-- The frame that the ledger expects next for a request. -/
def World.counter (w : World) (r : Ref) : ℕ :=
  ((w.view r).map fun q => (versions w.ledger q.needId).counter).getD 0

theorem word_minor {out : Output} (h : out.minor) : out.word = none := by
  cases out with
  | sent n ev tr => cases ev <;> first | rfl | cases h
  | answered c r status error =>
    cases c <;> first | rfl | skip
    cases r with
    | none => rfl
    | some r =>
      simp only [Output.minor, decide_eq_true_eq] at h
      rw [Output.word, if_neg h.1, if_neg h.2]
  | _ => rfl

theorem words_emit (w : World) (out : Output) :
    (w.emit out).words = out.word.toList ++ w.words := by
  rw [World.words, World.emit, List.filterMap_cons]
  cases out.word <;> rfl

theorem Quiet.words (h : Quiet w w') : w'.words = w.words := by
  obtain ⟨l, hl, hm⟩ := h.log
  rw [World.words, hl, List.filterMap_append, List.filterMap_eq_nil_iff.mpr, World.words]
  · rfl
  · exact fun out hout => word_minor (hm out hout)

theorem words_of_log (h : w'.log = w.log) : w'.words = w.words := by
  rw [World.words, h, World.words]

/-! ### The counter of a request -/

theorem Quiet.next (h : Quiet w w') : w'.next = w.next := by
  funext r
  rcases h.view r with hv | ⟨-, q, hv, -, -, hv'⟩
  · rw [World.next, hv, World.next]
  · rw [World.next, hv', World.next, hv]
    rfl

theorem next_of_objs (h : w'.objs = w.objs) : w'.next = w.next := by
  funext r
  rw [World.next, World.view, h, World.next, World.view]

theorem next_setStatus (w : World) (r : Ref) (status : NeedStatus) :
    (w.setStatus r status).next = w.next := by
  funext s
  rw [World.next, view_setStatus, World.next]
  split
  · rw [Option.map_map]
    rfl
  · rfl

variable {r : Ref} {q : Request} {s : Step} {p : Id} {f : Frame}

theorem next_progress (w : World) (hr : ∃ q, q ∈ w.view r) (n : ℕ) (f : Frame) :
    (w.modify r (Request.progress n f)).next = Function.update w.next r (n + 1) := by
  obtain ⟨q, hq⟩ := hr
  funext s
  rw [World.next, view_progress]
  by_cases hrs : r = s
  · subst hrs
    rw [if_pos rfl, Function.update_self, Option.mem_def.mp hq]
    rfl
  · rw [if_neg hrs, Function.update_of_ne (Ne.symm hrs), World.next]

theorem next_markMatched (w : World) (hq : q.core.nextPartialSequence = 0) :
    (w.markMatchedRequest q).next = w.next := by
  funext r
  rw [World.next, view_markMatched]
  split
  · next hr =>
    have hnone : w.view r = none := by
      rw [World.view, hr, List.getElem?_eq_none (le_refl _)]
      rfl
    rw [World.next, hnone]
    exact hq
  · rfl

theorem next_closeChain (w : World) (chain : Ref) (status : ℕ) (now : Time) :
    (closeChain w chain status now).next = w.next := by
  rw [(quiet_closeChain w chain status now).next]
  unfold World.closing
  split
  · exact next_of_objs rfl
  · rw [next_setStatus]
    exact next_of_objs rfl

theorem made_next (h : q.made) : q.core.nextPartialSequence = 0 := by
  rcases h with ⟨_, _, _, _, _, _, -, rfl⟩ | ⟨_, _, _, _, _, rfl⟩ <;> rfl

/-! ### What a segment says -/

/-- What a segment says about frames, and which counter it moves. -/
inductive Says (t : Option Task) (w w' : World) : Prop
  | silent : w'.words = w.words → w'.next = w.next → Says t w w'
  | passed {a p f r n} : t = some (.resume a (.partialCommitted p f r n)) → a.failed = false →
      a.known = false → w'.next = Function.update w.next r (n + 1) →
      w'.words = (r, .accepted f.sequence) :: (r, .live f.sequence) :: w.words ∨
        w'.words = (r, .accepted f.sequence) :: w.words → Says t w w'
  | repeated {a k p f r} : t = some (.resume a k) →
      (k = .partialRetried p f r ∨ ∃ n, k = .partialCommitted p f r n ∧ a.known) →
      w'.next = w.next → w'.words = (r, .accepted f.sequence) :: w.words → Says t w w'
  | refused {a p f r q} : t = some (.resume a (.partialChecked p f r)) →
      w.view r = some q ∧ q.status = .matched → f.sequence ≠ some (q.nextPartialSequence : ℤ) →
      (f.sequence = some ((q.nextPartialSequence : ℤ) - 1) ∧ q.lastPartialSequence = f.sequence →
        q.lastPartialDigest ≠ some f.digest) → w'.next = w.next →
      w'.words = (r, .mismatched f.sequence) :: w.words → Says t w w'
  | refusedByLedger {k p f r} : t = some (.resume (.fault ⟨409, sequenceMismatch⟩) k) →
      k.command = some (.fastPartial p f, some r) → w'.next = w.next →
      w'.words = (r, .mismatched f.sequence) :: w.words → Says t w w'

variable {a : Awaited} {n : ℕ} {x : Input × Env o} {k : Cont} {e : Env o}

theorem known_eq (h : a ≠ .answer (.accepted true)) : a.known = false := by
  unfold Awaited.known
  split
  · next b => cases b <;> first | rfl | exact absurd rfl h
  · rfl

theorem says_quiet {u : World} (h : Quiet u w') (hw : u.words = w.words) (hn : u.next = w.next) :
    Says t w w' :=
  .silent (h.words.trans hw) (h.next.trans hn)

theorem Segment.speech (ht : ∀ x ∈ t, Fits o w x) (h : Segment o i t w s) :
    Says t w s.1 := by
  have hset := next_setStatus w
  cases h with
  | wait h => exact says_quiet h.quiet rfl rfl
  | adopted _ _ h => exact says_quiet h.quiet rfl (hset _ _)
  | expired _ _ h | cancelled _ _ h => exact says_quiet h rfl (hset _ _)
  | completedStage _ _ _ _ _ _ _ h | completedLegacyStage _ _ _ h | completed _ _ _ h =>
    exact says_quiet h (words_emit _ _) (hset _ _)
  | delivered _ _ _ h => exact says_quiet h (words_emit _ _) rfl
  | remembered _ _ h₁ _ _ h₂ | entered _ h₁ _ _ _ _ _ _ h₂ _ =>
    exact says_quiet h₂ h₁.words h₁.next
  | dispatched _ _ _ _ hd h =>
    exact says_quiet h (words_emit _ _) (next_markMatched w (made_next (.inl hd)))
  | closed _ h =>
    exact says_quiet h ((quiet_closeChain _ _ _ _).words.trans
      (words_of_log (closing_same _ _ _ _).1)) (next_closeChain _ _ _ _)
  | @stageSent a c chain j ch provider now tr w₁ w' _ _ h₁ _ h₂ =>
    refine says_quiet h₂ ((words_emit _ _).trans h₁.words) ?_
    refine (next_of_objs rfl).trans ((next_markMatched w₁ (made_next ?_)).trans h₁.next)
    exact .inr ⟨chain, ch, j, provider, now, rfl⟩
  | stored _ _ _ _ hw₁ h =>
    subst hw₁
    rcases h with ⟨_, _, h, -⟩ | ⟨h, -⟩
    · exact says_quiet h ((quiet_closeChain _ _ _ _).words.trans ((words_of_log
        (closing_same _ _ _ _).1).trans (words_emit _ _))) ((next_closeChain _ _ _ _).trans
          (next_of_objs rfl))
    · exact says_quiet h (words_emit _ _) (next_of_objs rfl)
  | @streamed a p f r n requester tr w' ht' ha hne h =>
    obtain ⟨⟨q, hq, -⟩, -⟩ := (ht _ ht').shape
    refine .passed ht' ha (known_eq hne) (h.next.trans ?_) (.inl (h.words.trans ?_))
    · exact next_progress (w.emit _) ⟨q, hq⟩ n f
    · exact (words_emit _ _).trans (congrArg _ (words_emit w _))
  | @spilled a p f r n w' ht' ha hne h =>
    obtain ⟨⟨q, hq, -⟩, -⟩ := (ht _ ht').shape
    exact .passed ht' ha (known_eq hne) (h.next.trans (next_progress w ⟨q, hq⟩ n f))
      (.inr (h.words.trans (words_emit _ _)))
  | @repeated a k p f r w' ht' hk _ h =>
    refine .repeated (p := p) ht' ?_ h.next (h.words.trans (words_emit _ _))
    rcases hk with hk | ⟨n, hk, rfl⟩
    · exact .inl hk
    · exact .inr ⟨n, hk, rfl⟩
  | @refused a p f r q w' ht' hq h₁ h₂ h =>
    exact .refused ht' hq h₁ h₂ h.next (h.words.trans (words_emit _ _))
  | @refusedByLedger k p f r w' ht' hk h =>
    exact .refusedByLedger ht' hk h.next (h.words.trans (words_emit _ _))
  | executed | dropped | read | peer => exact .silent rfl rfl
  | timeout =>
    exact .silent ((quiet_closeChain _ _ _ _).words.trans (words_of_log (closing_same _ _ _ _).1))
      (next_closeChain _ _ _ _)

/-! ### Segments in step -/

/-- The frame is not the next one but one before it. -/
def Frame.passed (f : Frame) (next : ℕ) : Prop := ∃ m ∈ f.sequence, 0 < m ∧ m < next

instance (f : Frame) (next : ℕ) : Decidable (f.passed next) := by
  unfold Frame.passed; infer_instance

/-- The input lets the ledger answer. -/
def Input.answers : Input → Bool
  | .exec => true
  | _ => false

/-- The counters of relay and ledger move together. A frame that the ledger has accepted before, or
    that was checked before another one was passed on, finds its request past it; and nobody sends
    a frame that is behind the counters, but for the last one once more. -/
def InStep (w : World) (t : Option Task) (x : Input × Env o) : Prop :=
  match t with
  | some (.resume a (.partialCommitted _ f r n)) =>
    if w.ledger.isSome then a.known → n < w.next r
    else w.next r = n ∨ ∀ q ∈ w.objs[r]?, (deliverPartial o x.2 w q r f).2 = .full
  | some (.resume _ (.partialChecked _ f r)) =>
    ∀ q ∈ w.view r, q.status = .matched → f.passed q.nextPartialSequence →
      f.sequence = some ((q.nextPartialSequence : ℤ) - 1) ∧ q.lastPartialSequence = f.sequence ∧
        q.lastPartialDigest = some f.digest
  | some (.call _ (.partialCommitted _ f _ _)) | some (.call _ (.partialRetried _ f _)) =>
    x.1.answers → ∀ d ∈ (versions w.ledger f.i).record, d.status = .matched →
      f.passed d.partialSequence →
        f.sequence = some ((d.partialSequence : ℤ) - 1) ∧ d.partialDigest = some f.digest
  | _ => True

instance (w : World) (t : Option Task) (x : Input × Env o) : Decidable (InStep w t x) := by
  unfold InStep; split <;> infer_instance

/-! ### Tokens -/

/-- The ledger has newly accepted frame `k.2` of request `k.1` for this handler. -/
def passing (k : Ref × ℕ) : Task → ℕ
  | .resume (.answer b) (.partialCommitted _ _ r n) =>
    if (Awaited.answer b).known = false ∧ (r, n) = k then 1 else 0
  | _ => 0

/-- The request is past the frame. -/
def past (k : Ref × ℕ) (w : World) : ℕ := if k.2 < w.next k.1 then 1 else 0

/-- The ledger is past the frame; without one the request decides. -/
def granted (k : Ref × ℕ) (w : World) : ℕ :=
  if w.ledger.isSome then if k.2 < w.counter k.1 then 1 else 0 else past k w

/-- What relays say of frames: those that were sent or answered are behind the counter, live ones
    follow each other, and the frame after an accepted one is not out of sequence. -/
structure Told (words : List (Ref × Word)) (next : Ref → ℕ) : Prop where
  said : ∀ x ∈ words, ∀ s, x.2 = .live s ∨ x.2 = .accepted s → ∃ m ∈ s, m < (next x.1 : ℤ)
  increasing : words.Pairwise fun new old => new.1 = old.1 → ∀ s s', new.2 = .live s →
    old.2 = .live s' → ∃ m ∈ s, ∃ m' ∈ s', m' < m
  welcome : words.Pairwise fun new old => new.1 = old.1 → ∀ s (k : ℕ), new.2 = .mismatched s →
    old.2 = .accepted (some (k : ℤ)) → s ≠ some ((k : ℤ) + 1)

/-- One more word: a live frame is not behind the counter, a refused one is ahead of it. -/
theorem Told.cons {words : List (Ref × Word)} {next next' : Ref → ℕ} (h : Told words next)
    (hmono : ∀ r, next r ≤ next' r) {r : Ref} {v : Word}
    (hsaid : ∀ s, v = .live s ∨ v = .accepted s → ∃ m ∈ s, m < (next' r : ℤ))
    (hlive : ∀ s, v = .live s → ∃ m ∈ s, (next r : ℤ) ≤ m)
    (hmis : ∀ s, v = .mismatched s → ∀ m ∈ s, 0 < m → (next r : ℤ) < m) :
    Told ((r, v) :: words) next' where
  said x hx s hs := by
    rcases List.mem_cons.mp hx with rfl | hx
    · exact hsaid s hs
    · obtain ⟨m, hm, hlt⟩ := h.said x hx s hs
      exact ⟨m, hm, lt_of_lt_of_le hlt (by exact_mod_cast hmono x.1)⟩
  increasing := by
    refine List.pairwise_cons.mpr ⟨fun x hx hr s s' hs hs' => ?_, h.increasing⟩
    obtain ⟨m, hm, hle⟩ := hlive s hs
    obtain ⟨m', hm', hlt⟩ := h.said x hx s' (.inl hs')
    rw [← hr] at hlt
    exact ⟨m, hm, m', hm', lt_of_lt_of_le hlt hle⟩
  welcome := by
    refine List.pairwise_cons.mpr ⟨fun x hx hr s k hs hk heq => ?_, h.welcome⟩
    obtain ⟨m, hm, hlt⟩ := h.said x hx _ (.inr hk)
    cases hm
    rw [← hr] at hlt
    have := hmis s hs ((k : ℤ) + 1) (Option.mem_def.mpr heq) (by omega)
    simp only at hlt
    omega

/-- The counter has come as far as a place needs it. -/
def Reached (w : World) : Cont → Prop
  | .partialCommitted _ _ r n => n ≤ w.next r
  | .partialRetried _ f r => ∃ m ∈ f.sequence, m < (w.next r : ℤ)
  | _ => True

/-- A frame that the ledger refuses is the first. -/
def Due (w : World) (x : Task) : Prop :=
  Reached w x.cont ∧ ∀ k p f r, x = .resume (.fault ⟨409, sequenceMismatch⟩) k →
    k.command = some (.fastPartial p f, some r) → ∀ m ∈ f.sequence, m ≤ 0

/-- Counters move on. -/
structure Advances (w w' : World) : Prop extends Onward w w' where
  next : ∀ r, w.next r ≤ w'.next r

theorem Advances.due (h : Advances w w') {x : Task} (hx : Due w x) : Due w' x := by
  refine ⟨?_, hx.2⟩
  have hr := hx.1
  revert hr
  cases x.cont <;> first | exact fun h => h | skip
  case partialCommitted _ _ r n => exact fun hr => le_trans hr (h.next r)
  case partialRetried _ f r =>
    rintro ⟨m, hm, hlt⟩
    exact ⟨m, hm, lt_of_lt_of_le hlt (by exact_mod_cast h.next r)⟩

/-- The ledger's counter never moves back. -/
theorem counter_le (h : Onward w w') (hl : ∀ id, Ledger.Abstract (versions w'.ledger id)) (r : Ref) :
    w.counter r ≤ w'.counter r := by
  unfold World.counter
  cases hv : w.view r with
  | none => exact Nat.zero_le _
  | some q =>
    obtain ⟨q', hq', hid, -⟩ := h.object r q hv
    rw [Option.mem_def.mp hq', Option.map_some, Option.map_some, Option.getD_some,
      Option.getD_some, hid]
    exact Ledger.counter_mono (h.history q.needId) (hl _)

/-! ### What an in-step segment says -/

/-- What a segment says when it is in step. -/
inductive Speech (t : Option Task) (w w' : World) : Prop
  | silent : w'.words = w.words → w'.next = w.next → Speech t w w'
  | passed {r : Ref} {n : ℕ} : w.next r = n → (w.ledger.isSome → 1 ≤ holds? (passing (r, n)) t) →
      w'.next = Function.update w.next r (n + 1) →
      w'.words = (r, .accepted (some n)) :: (r, .live (some n)) :: w.words ∨
        w'.words = (r, .accepted (some n)) :: w.words → Speech t w w'
  | repeated {r : Ref} {m : ℤ} : m < w.next r → w'.next = w.next →
      w'.words = (r, .accepted (some m)) :: w.words → Speech t w w'
  | refused {r : Ref} {s : Option ℤ} : (∀ m ∈ s, 0 < m → (w.next r : ℤ) < m) → w'.next = w.next →
      w'.words = (r, .mismatched s) :: w.words → Speech t w w'

/-- A frame that is passed on is the one its request expects. -/
def OnTime (w : World) (t : Option Task) : Prop :=
  w.ledger = none → ∀ a p f r n, t = some (.resume a (.partialCommitted p f r n)) → w.next r = n

theorem past_le_one (k : Ref × ℕ) (w : World) : past k w ≤ 1 := by
  unfold past
  split <;> omega

theorem granted_le_one (k : Ref × ℕ) (w : World) : granted k w ≤ 1 := by
  unfold granted
  split
  · split <;> omega
  · exact past_le_one k w

theorem passing_le_one (k : Ref × ℕ) (x : Task) : passing k x ≤ 1 := by
  unfold passing
  split
  · split <;> omega
  · omega

/-- A handler at the ledger's newly accepted answer holds the token of its frame. -/
theorem passing_token (hl : w.ledger.isSome) (ht : Fits o w (.resume a (.partialCommitted p f r n)))
    (ha : a.failed = false) (hk : a.known = false) :
    passing (r, n) (.resume a (.partialCommitted p f r n)) = 1 := by
  cases a with
  | nothing =>
    rw [ht.2.1 rfl] at hl
    cases hl
  | record d => exact absurd ht.2.2 (by simp [Cont.asks])
  | answer b => exact if_pos ⟨hk, rfl⟩
  | fault f => cases ha

theorem Says.speech (hs : Says t w w') (hO : OnTime w t) (hG : InStep w t x)
    (ht : ∀ x ∈ t, Fits o w x ∧ Due w x) (hB : ∀ k, past k w + holds? (passing k) t ≤ granted k w) :
    Speech t w w' := by
  cases hs with
  | silent h h' => exact .silent h h'
  | @passed a p f r n ht' ha hk hn hw =>
    obtain ⟨hfit, hdue⟩ := ht _ ht'
    have hseq := hfit.shape.2
    have htok : w.ledger.isSome → holds? (passing (r, n)) t = 1 := fun hl => by
      rw [ht', holds?_some]
      exact passing_token hl hfit ha hk
    refine .passed ?_ (fun hl => (htok hl).ge) hn (by rwa [← hseq])
    cases hl : w.ledger with
    | none => exact hO hl _ _ _ _ _ ht'
    | some b =>
      have hle : n ≤ w.next r := hdue.1
      have := hB (r, n)
      have := granted_le_one (r, n) w
      have := htok (by rw [hl]; rfl)
      have hpast : past (r, n) w = 0 := by omega
      rw [past] at hpast
      split at hpast
      · cases hpast
      · simp only at *
        omega
  | @repeated a k p f r ht' hk hn hw =>
    obtain ⟨hfit, hdue⟩ := ht _ ht'
    rcases hk with rfl | ⟨n, rfl, ha⟩
    · obtain ⟨m, hm, hlt⟩ := hdue.1
      rw [Option.mem_def.mp hm] at hw
      exact .repeated hlt hn hw
    · rw [hfit.shape.2] at hw
      have hl : w.ledger.isSome := by
        cases a with
        | answer b => exact hfit.1
        | _ => cases ha
      have hg : n < w.next r := by
        rw [ht', InStep, if_pos hl] at hG
        exact hG ha
      exact .repeated (by exact_mod_cast hg) hn hw
  | @refused a p f r q ht' hq h₁ h₂ hn hw =>
    refine .refused (fun m hm hpos => ?_) hn hw
    have hnext : w.next r = q.nextPartialSequence := by rw [World.next, hq.1]; rfl
    rw [hnext]
    by_contra hle
    rw [ht'] at hG
    rcases lt_or_eq_of_le (not_lt.mp hle) with hlt | heq
    · obtain ⟨h, h', hd⟩ := hG q hq.1 hq.2 ⟨m, hm, hpos, hlt⟩
      exact h₂ ⟨h, h'⟩ hd
    · exact h₁ (heq ▸ hm)
  | @refusedByLedger k p f r ht' hk hn hw =>
    refine .refused (fun m hm hpos => ?_) hn hw
    have := (ht _ ht').2.2 k p f r rfl hk m hm
    omega

theorem Speech.next_le (h : Speech t w w') (r : Ref) : w.next r ≤ w'.next r := by
  cases h with
  | silent _ h | repeated _ h _ | refused _ h _ => rw [h]
  | @passed r' n hn _ h _ =>
    rw [h, Function.update_apply]
    split
    · next hr => rw [hr, hn]; exact Nat.le_succ n
    · exact le_refl _

/-- TOLD: what an in-step segment says agrees with what was said before. -/
theorem Speech.told (h : Speech t w w') (hT : Told w.words w.next) : Told w'.words w'.next := by
  have hmono := h.next_le
  cases h with
  | silent hw hn => rwa [hw, hn]
  | @passed r n hn _ hnext hw =>
    have hlt : (n : ℤ) < w'.next r := by
      rw [hnext, Function.update_self]
      exact_mod_cast Nat.lt_succ_self n
    have hle : (w.next r : ℤ) ≤ n := by rw [hn]
    rcases hw with hw | hw
    · rw [hw]
      have hlive : Told ((r, .live (some n)) :: w.words) w'.next :=
        hT.cons hmono (by simpa using hlt) (by simpa using hle) (by simp)
      exact hlive.cons (fun _ => le_refl _) (by simpa using hlt) (by simp) (by simp)
    · rw [hw]
      exact hT.cons hmono (by simpa using hlt) (by simp) (by simp)
  | @repeated r m hlt hn hw =>
    rw [hw, hn]
    exact hT.cons (fun _ => le_refl _) (by simpa using hlt) (by simp) (by simp)
  | @refused r s hs hn hw =>
    rw [hw, hn]
    exact hT.cons (fun _ => le_refl _) (by simp) (by simp) (by simpa using hs)

/-! ### Tokens are covered -/

theorem granted_mono (h : Onward w w') (hl : ∀ id, Ledger.Abstract (versions w'.ledger id))
    (k : Ref × ℕ) (hn : past k w ≤ past k w') : granted k w ≤ granted k w' := by
  have hle := counter_le h hl k.1
  unfold granted
  rw [h.ledger]
  split
  · split
    · rw [if_pos (by omega)]
    · exact Nat.zero_le _
  · exact hn

/-- Only the ledger hands out tokens, one for the frame it newly accepts. -/
theorem Segment.passes (h : Segment o i t w s) (k : Ref × ℕ) :
    (∀ x ∈ s.2, passing k x = 0) ∨ ∃ c p f now b, t = some (.call c (.partialCommitted p f k.1 k.2)) ∧
      (execCall w c [] now).2 = .answer b ∧ b ≠ .accepted true ∧
      s = ((execCall w c [] now).1, [.resume (.answer b) (.partialCommitted p f k.1 k.2)]) := by
  by_cases hz : ∀ x ∈ s.2, passing k x = 0
  · exact .inl hz
  right
  push Not at hz
  obtain ⟨x, hx, hne⟩ := hz
  unfold passing at hne
  split at hne
  · next b p f r n =>
    split at hne
    · next hb =>
      obtain ⟨hb, rfl⟩ := hb
      rcases h.reply hx with ha | ⟨_, ha, -⟩ | ⟨c, now, ht, -, ha, hs⟩ | ⟨_, _, -, -, ha⟩
      · cases ha
      · cases ha
      · exact ⟨c, p, f, now, b, ht, ha.symm, fun he => by simp [he, Awaited.known] at hb, hs⟩
      · cases ha
    · exact absurd rfl hne
  · exact absurd rfl hne

/-- TOKENS: a request passes a frame on when the ledger has newly accepted it. -/
theorem Segment.passing (hw : Sane o w) (ht : ∀ x ∈ t, Fits o w x)
    (hB : ∀ k, past k w + holds? (passing k) t ≤ granted k w) (h : Segment o i t w s)
    (hsp : Speech t w s.1) (k : Ref × ℕ) :
    Covered (Relay.passing k) (past k) (granted k) w t s.1 s.2 := by
  have hl' := (h.sane hw).lineage
  have hmono : past k w ≤ past k s.1 := by
    have := hsp.next_le k.1
    unfold past
    split
    · rw [if_pos (by omega)]
    · exact Nat.zero_le _
  have hgr := granted_mono h.onward hl' k hmono
  rcases h.passes k with hz | ⟨c, p, f, now, b, rfl, ha, hb, rfl⟩
  · rw [Covered, held_zero hz]
    cases hsp with
    | silent _ hn | repeated _ hn _ | refused _ hn _ =>
      have : past k s.1 = past k w := by rw [past, hn, past]
      omega
    | @passed r n hn htok hnext _ =>
      by_cases hk : k = (r, n)
      · subst hk
        have h1 := past_le_one (r, n) s.1
        cases hl : w.ledger with
        | some b =>
          have := htok (by rw [hl]; rfl)
          omega
        | none =>
          have hl' : s.1.ledger = none := by simpa [hl] using h.onward.ledger
          have hg : granted (r, n) w = past (r, n) w := by rw [granted, hl]; rfl
          have hg' : granted (r, n) s.1 = past (r, n) s.1 := by rw [granted, hl']; rfl
          omega
      · have : past k s.1 = past k w := by
          rw [past, hnext, past, Function.update_apply]
          split
          · next hr =>
            have hne : k.2 ≠ n := fun h => hk (Prod.ext hr h)
            rw [hr, hn]
            congr 1
            simp only [eq_iff_iff]
            omega
          · rfl
        omega
  · -- the ledger's counter moves from `k.2` to the next
    obtain ⟨hl, ⟨⟨q, hq, hid, -⟩, hseq⟩, q₂, hq₂, rfl⟩ := ht _ rfl
    obtain ⟨-, hc, hc'⟩ := Ledger.execute_accepted ha hb
    have hn : past k (execCall w (partialCall f p (some q₂.requester)) [] now).1 = past k w := rfl
    have hle := passing_le_one k (.resume (.answer b) (.partialCommitted p f k.1 k.2))
    have hcount : ∀ v : World, v.view k.1 = some q →
        v.counter k.1 = (versions v.ledger f.i).counter := fun v hv => by
      rw [World.counter, hv, ← hid]; rfl
    have hkc : (versions w.ledger f.i).counter = k.2 := by
      simp only [hseq, Option.getD_some] at hc
      exact_mod_cast hc.symm
    have h0 : granted k w = 0 := by
      rw [granted, if_pos hl, if_neg]
      rw [hcount w hq, hkc]
      exact lt_irrefl _
    have h1 : granted k (execCall w (partialCall f p (some q₂.requester)) [] now).1 = 1 := by
      rw [granted, if_pos (h.onward.ledger.trans hl), if_pos]
      rw [hcount (execCall w _ [] now).1 hq]
      have : (versions (execCall w (partialCall f p (some q₂.requester)) [] now).1.ledger
        f.i).counter = _ := hc'
      rw [this]
      have : (versions w.ledger f.i).counter = k.2 := hkc
      exact Nat.lt_succ_of_le this.ge
    simp only [Covered, held_cons, held_nil, hn]
    omega

/-! ### Places are reached in step -/

/-- The places where a frame waits for the ledger. -/
def Cont.streams : Cont → Bool
  | .partialCommitted _ _ _ _ | .partialRetried _ _ _ => true
  | _ => false

/-- Bookkeeping leads to the places of a frame, and the ledger back to them. -/
theorem Segment.streams (ht : ∀ x ∈ t, Fits o w x) (h : Segment o i t w s) :
    ∀ x ∈ s.2, x.cont.streams → Fresh s.1 x.cont ∨ ∃ y ∈ t, y.cont = x.cont := by
  have hborn : ∀ {w : World} {x}, Born w x → Fresh w x.cont := by
    intro w x hx
    cases x with
    | call | read => exact hx
    | resume => exact hx.2.1
  have hone : ∀ {w' : World} {k}, k.streams = false → ∀ x ∈ [Task.resume .nothing k],
      x.cont.streams → Fresh w' x.cont ∨ ∃ y ∈ t, y.cont = x.cont := by
    intro w' k hk x hx hst
    obtain rfl := List.mem_singleton.mp hx
    rw [Task.cont, hk] at hst
    cases hst
  cases h with
  | wait h | adopted _ _ h => exact fun x hx _ => .inl (hborn (h.born x hx).2)
  | @expired a r now k w' ht' _ _ =>
    obtain ⟨-, -, hc⟩ := (ht _ ht').shape
    exact hone (by cases k <;> first | rfl | cases hc)
  | @remembered w₁ w' k id hk => exact hone (by cases k <;> cases hk <;> rfl)
  | completedStage | completedLegacyStage => exact hone rfl
  | @completed a k p r k' w' _ _ hk => exact hone (by cases k <;> cases hk <;> rfl)
  | entered _ _ _ _ _ _ _ _ _ hts =>
    rcases hts with ⟨-, rfl⟩ | ⟨-, rfl⟩
    · exact hone rfl
    · exact fun x hx => absurd hx List.not_mem_nil
  | stored _ _ _ _ _ hts =>
    rcases hts with ⟨_, _, -, rfl⟩ | ⟨-, rfl⟩
    · exact fun x hx => absurd hx List.not_mem_nil
    · exact hone rfl
  | executed ht' _ | read ht' _ =>
    intro x hx _
    obtain rfl := List.mem_singleton.mp hx
    exact .inr ⟨_, ht', rfl⟩
  | dropped ht' _ hts =>
    intro x hx hst
    rcases List.mem_cons.mp hx with rfl | hx
    · exact .inr ⟨_, ht', rfl⟩
    · rcases hts with rfl | rfl
      · exact absurd hx List.not_mem_nil
      · obtain rfl := List.mem_singleton.mp hx
        cases hst
  | _ => exact fun x hx => absurd hx List.not_mem_nil

theorem reached_fresh (h : Fresh w k) : Reached w k := by
  cases k <;> first | trivial | skip
  case partialCommitted _ _ r n =>
    obtain ⟨q, hq, hn⟩ := h
    rw [Reached, World.next, Option.mem_def.mp hq]
    exact hn.ge
  case partialRetried _ f r =>
    obtain ⟨q, hq, hm⟩ := h
    refine ⟨_, hm, ?_⟩
    rw [World.next, Option.mem_def.mp hq]
    exact sub_one_lt _

/-- The counter of the ledger is not behind the counter of the request. -/
theorem next_le_counter (hl : w.ledger.isSome)
    (hB : ∀ k, past k w + holds? (passing k) t ≤ granted k w) (r : Ref) :
    w.next r ≤ w.counter r := by
  by_contra hlt
  have := hB (r, w.counter r)
  have h1 : past (r, w.counter r) w = 1 := if_pos (not_le.mp hlt)
  have h0 : granted (r, w.counter r) w = 0 := by
    rw [granted, if_pos hl, if_neg (lt_irrefl _)]
  omega

/-- The ledger refuses a frame that is asked in step only if it is the first. -/
theorem mismatch_due {c : Call} {now : Time} (hi : x.1 = .exec) (hF : Fits o w (.call c k))
    (hD : Due w (.call c k))
    (hB : ∀ k', past k' w + holds? (passing k') (some (.call c k)) ≤ granted k' w)
    (hG : InStep w (some (.call c k)) x)
    (ha : (execCall w c [] now).2 = .fault ⟨409, sequenceMismatch⟩)
    (hk : k.command = some (.fastPartial p f, some r)) : ∀ m ∈ f.sequence, m ≤ 0 := by
  obtain ⟨hl, hs, hask⟩ := hF
  obtain ⟨c', rfl, d, hd, hdm, hne, hnot⟩ := Ledger.execute_mismatch ha
  have hle := next_le_counter hl hB r
  intro m hm
  by_contra hpos
  have hseq : f.sequence.getD (-1) = m := by rw [Option.mem_def.mp hm]; rfl
  have hanswers : x.1.answers := by rw [hi]; rfl
  -- the ledger is past the frame, which is neither its next nor its last one
  have hbehind : ∀ {q}, q ∈ w.view r → q.needId = f.i → c' = ⟨f.i, p, f.sequence.getD (-1),
      some f.digest, c'.delivery⟩ → m ≤ w.next r → (∀ d ∈ (versions w.ledger f.i).record,
        d.status = .matched → f.passed d.partialSequence →
          f.sequence = some ((d.partialSequence : ℤ) - 1) ∧ d.partialDigest = some f.digest) →
      False := by
    intro q hq hid hc' hmn hg
    rw [hc'] at hd hne hnot
    simp only [hseq] at hd hne hnot
    have hcount : w.counter r = d.partialSequence := by
      rw [World.counter, Option.mem_def.mp hq, Option.map_some, Option.getD_some, hid,
        Ledger.History.counter, Option.mem_def.mp hd]
      rfl
    have hlt : m < d.partialSequence := by omega
    obtain ⟨h₁, h₂⟩ := hg d hd hdm ⟨m, hm, by omega, hlt⟩
    rw [Option.mem_def.mp hm] at h₁
    exact hnot ⟨Option.some.inj h₁, h₂.symm⟩
  cases k <;> first | cases hk | skip
  case partialCommitted n =>
    obtain ⟨⟨q, hq, hid, -⟩, hn⟩ := hs
    obtain ⟨q₂, -, he⟩ := hask
    obtain rfl := Ledger.Call.acceptPartial.inj he
    have hn' : m = n := Option.some.inj ((Option.mem_def.mp hm).symm.trans hn)
    have hreach : n ≤ w.next r := hD.1
    exact hbehind hq hid rfl (by omega) (hG hanswers)
  case partialRetried =>
    obtain ⟨q, hq, hid⟩ := hs
    obtain rfl := Ledger.Call.acceptPartial.inj hask
    obtain ⟨m', hm', hlt⟩ := hD.1
    cases (Option.mem_def.mp hm).symm.trans hm'
    exact hbehind hq hid rfl (by omega) (hG hanswers)
  case expire =>
    obtain ⟨q, -, he⟩ := hask
    cases he
  case statusAnswer =>
    obtain ⟨q, id, hc⟩ := hs
    cases hc
  all_goals exact hask.elim

theorem Segment.advances (h : Segment o i t w s) (hsp : Speech t w s.1) :
    Advances w s.1 :=
  ⟨h.onward, hsp.next_le⟩

/-- What an in-step segment suspends is due. -/
theorem Segment.due (ht : ∀ x ∈ t, Fits o w x ∧ Due w x)
    (hB : ∀ k, past k w + holds? (Relay.passing k) t ≤ granted k w) (hG : InStep w t (i, e))
    (h : Segment o i t w s) (hsp : Speech t w s.1) :
    ∀ x ∈ s.2, Due s.1 x := by
  intro x hx
  refine ⟨?_, fun k p f r hxk hk => ?_⟩
  · cases hst : x.cont.streams with
    | false => cases hc : x.cont <;> first | trivial | (rw [hc] at hst; cases hst)
    | true =>
      rcases h.streams (fun x hx => (ht x hx).1) x hx hst with hf | ⟨y, hy, hyx⟩
      · exact reached_fresh hf
      · exact hyx ▸ ((h.advances hsp).due (ht y hy).2).1
  · subst hxk
    rcases h.reply hx with ha | ⟨f', ha, hhost⟩ | ⟨c, now, rfl, hi, ha, -⟩ | ⟨_, _, -, -, ha⟩
    · cases ha
    · cases ha
      cases hhost
    · exact mismatch_due (x := (i, e)) hi (ht _ rfl).1 (ht _ rfl).2 hB hG ha.symm hk
    · cases ha

/-! ### Runs in step -/

/-- Without a ledger a full queue refuses the frame and leaves its request alone. -/
theorem commitPartial_full (hl : w.ledger = none) (hq : w.objs[r]? = some q)
    (hf : (deliverPartial o e w q r f).2 = .full) :
    commitPartial o e w p f r n =
      answer w (.fastPartial p f) (some r) 429 (some "partial_backpressure") := by
  have hstay : (deliverPartial o e w q r f).1 = w := by
    have hf' : (w.queueFast o e q.requester (.PARTIAL r f) true).2 = .full := by
      simpa [deliverPartial, hl] using hf
    rcases queueFast_cases o e w q.requester (.PARTIAL r f) true with ⟨-, -, h⟩ | ⟨h, -⟩
    · exact h
    · exact absurd hf' h
  rw [commitPartial, hq]
  simp only [hf, if_true, hstay]

/-- A segment that is in step says what an in-step segment says. -/
theorem speech_of_machine {ts : List Task} (hw : Sane o w) (ht : ∀ x ∈ t, Fits o w x ∧ Due w x)
    (hB : ∀ k, past k w + holds? (passing k) t ≤ granted k w) (hG : InStep w t x)
    (hM : machine o w t x = some (w', ts)) : Speech t w w' := by
  have hfit := fun y hy => (ht y hy).1
  have hs := (segment_of_machine hw.wf hfit hM).speech hfit
  by_cases hO : OnTime w t
  · exact hs.speech hO hG ht hB
  -- a frame that comes too late, without a ledger, finds the queue full
  simp only [OnTime, not_forall] at hO
  obtain ⟨hl, a, p, f, r, n, rfl, hne⟩ := hO
  rw [InStep, hl] at hG
  have hfull := hG.resolve_left hne
  obtain ⟨⟨q, hq, -⟩, -⟩ := (hfit _ rfl).shape
  obtain ⟨q₀, hq₀, -⟩ := Option.map_eq_some_iff.mp hq
  have ha : a = .nothing := by
    have := hfit _ rfl
    cases a with
    | nothing => rfl
    | record d => exact absurd this.2.2 (by simp [Cont.asks])
    | answer b | fault b =>
      have := this.1
      rw [hl] at this
      cases this
  subst ha
  obtain ⟨i, e⟩ := x
  cases i with
  | go =>
    simp only [machine, resume, proceed, Option.some.injEq] at hM
    rw [commitPartial_full hl hq₀ (hfull q₀ hq₀)] at hM
    cases hM
    exact .silent (words_emit _ _) rfl
  | _ => cases hM

/-- Runs in step keep the counters together, and what was told true. -/
theorem stream_metered (o : Options) : Metered (machine o) InStep
    (fun w => Sane o w ∧ Told w.words w.next) (fun w x => Fits o w x ∧ Due w x) Advances
    passing past granted where
  react w t x w' ts hI hT hB hG hM := by
    have hfit := fun y hy => (hT y hy).1
    have h := segment_of_machine hI.1.wf hfit hM
    have hsp := speech_of_machine hI.1 hT hB hG hM
    refine ⟨⟨⟨h.sane hI.1, hsp.told hI.2⟩, h.advances hsp, fun y hy => ?_⟩,
      fun k => h.passing hI.1 hfit hB hsp k⟩
    exact ⟨h.fits hfit y hy, h.due (e := x.2) hT hB hG hsp y hy⟩
  stable _ _ _ _ hR hx := ⟨hR.fits hx.1, hR.due hx.2⟩

/-- STREAM: in a run whose segments are in step, the live frames of a request have increasing
    sequence numbers, each at most once, and after a 200 for frame `k` a frame `k + 1` is never
    answered as out of sequence. -/
theorem stream_in_step (o : Options) (ledger : Option Book) (hl : ∀ b ∈ ledger, ∀ id, b id = [])
    {s : Sys World Task} (h : Runs (machine o) InStep (init ledger) s) :
    (∀ x ∈ s.shared.words, ∀ m, x.2 = .live m → m.isSome) ∧
    (s.shared.words.Pairwise fun new old => new.1 = old.1 → ∀ m m', new.2 = .live m →
      old.2 = .live m' → ∃ n ∈ m, ∃ n' ∈ m', n' < n) ∧
    s.shared.words.Pairwise fun new old => new.1 = old.1 → ∀ m (k : ℕ), new.2 = .mismatched m →
      old.2 = .accepted (some (k : ℤ)) → m ≠ some ((k : ℤ) + 1) := by
  have h0 : Holds (fun w => Sane o w ∧ Told w.words w.next) (fun w x => Fits o w x ∧ Due w x)
      (init ledger) :=
    ⟨⟨(holds_init o hl).1, ⟨by simp [init, World.start, World.words], .nil, .nil⟩⟩,
      fun _ h => absurd h List.not_mem_nil⟩
  have hcap : Within passing past granted (init ledger) := fun k => Nat.zero_le _
  obtain ⟨⟨⟨-, hT⟩, -⟩, -⟩ := h.metered (stream_metered o) h0 hcap
  refine ⟨fun x hx m hm => ?_, hT.increasing, hT.welcome⟩
  obtain ⟨n, hn, -⟩ := hT.said x hx m (.inl hm)
  exact Option.isSome_of_mem hn

/-- Frame `n` of NEED 9, with its digest. -/
def frameNine (n : ℤ) (digest : JsString) : Frame :=
  { signed .PARTIAL [9] [2] with sequence := some n, digest := digest }

/-- Provider 2 sends frame `n` of NEED 9. -/
def sendFrame (n : ℤ) (digest : JsString) : Label (Input × Env small) :=
  arrive (.fastPartial [2] (frameNine n digest))

/-- The `n`-th suspended call is executed and answered, or its reply is lost. -/
def ledgerDoes (n : ℕ) (i : Input) : Label (Input × Env small) := (some n, i, sunny [2])

/-- Two frames that follow each other are sent live, 0 and then 1. -/
theorem frames_in_step : ∃ s, Runs (machine small) InStep (init none) s ∧
    s.shared.words = [(0, .accepted (some 1)), (0, .live (some 1)), (0, .accepted (some 0)),
      (0, .live (some 0))] ∧
    s.shared.words.Pairwise fun new old => new.1 = old.1 → ∀ m m', new.2 = .live m →
      old.2 = .live m' → ∃ n ∈ m, ∃ n' ∈ m', n' < n := by
  obtain ⟨s, h, hs⟩ := exists_run (M := machine small) (s := init none)
    (fun w t x => decide (InStep w t x)) (fun _ _ _ => of_decide_eq_true)
    (askNeed ++ [sendFrame 0 [], goOn 0, goOn 0, sendFrame 1 [], goOn 0, goOn 0])
    (fun s => s.shared.words = [(0, .accepted (some 1)), (0, .live (some 1)),
      (0, .accepted (some 0)), (0, .live (some 0))]) (by decide)
  exact ⟨s, h, of_decide_eq_true hs, (stream_in_step small none (by simp) h).2.1⟩

/-- Without a ledger two frames 0 that are both checked before either is passed on are both sent
    live. With one, a frame whose reply was lost is answered 200 when it is sent again, but the
    request does not count it: frame 1 is then out of sequence. -/
theorem frames_out_of_step :
    (∃ s, Runs (machine small) free (init none) s ∧ s.shared.words =
      [(0, .accepted (some 0)), (0, .live (some 0)), (0, .accepted (some 0)),
        (0, .live (some 0))]) ∧
    ∃ s, Runs (machine small) free (init (some fun _ => [])) s ∧
      s.shared.words = [(0, .mismatched (some 1)), (0, .accepted (some 0))] ∧
      (s.shared.objs[0]?).any fun q => q.status = .matched := by
  constructor
  · obtain ⟨s, h, hs⟩ := exists_run (M := machine small) (s := init none) (fun _ _ _ => true)
      (fun _ _ _ _ => trivial)
      (askNeed ++ [sendFrame 0 [], sendFrame 0 [], goOn 0, goOn 0, goOn 0, goOn 0])
      (fun s => s.shared.words = [(0, .accepted (some 0)), (0, .live (some 0)),
        (0, .accepted (some 0)), (0, .live (some 0))]) (by decide)
    exact ⟨s, h, of_decide_eq_true hs⟩
  · obtain ⟨s, h, hs⟩ := exists_run (M := machine small) (s := init (some fun _ => []))
      (fun _ _ _ => true) (fun _ _ _ _ => trivial)
      ([arrive (.fastNeed [1] (signed .NEED [9] [1]) 0), ledgerDoes 0 (.read 0), goOn 0, goOn 0,
        goOn 0, ledgerDoes 0 .exec, goOn 0,
        sendFrame 0 [], goOn 0, ledgerDoes 0 (.lose ⟨503, "lifecycle_ledger_unavailable"⟩), goOn 0,
        sendFrame 0 [], goOn 0, ledgerDoes 0 .exec, goOn 0,
        sendFrame 1 [], goOn 0])
      (fun s => s.shared.words = [(0, .mismatched (some 1)), (0, .accepted (some 0))] ∧
        (s.shared.objs[0]?).any fun q => q.status = .matched) (by decide)
    obtain ⟨hw, hq⟩ := of_decide_eq_true hs
    exact ⟨s, h, hw, hq⟩

end Truyn.Relay
