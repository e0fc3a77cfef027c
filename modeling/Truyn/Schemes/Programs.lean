import Mathlib

/-! scheme:programs | calls as programs against a shared document service

    A call reads documents, writes them under the tag of the version it has read, asks the world
    outside, and acts on that world. Any number of calls run at once and stop anywhere; the service
    executes each write at one instant, and a caller that is told nothing about its write cannot
    know whether it was, or will be, executed.

    A program is verified on its own, against a theory: an invariant of the store and a preorder of
    what steps may do to it (`Safe`). Between its requests anything else may happen, except that
    nobody writes or acts in its name. If the program of every call is safe then the invariant holds
    in every run, and every call that comes to its end satisfies its postcondition (`Sound`,
    `sound_of_run`). -/

namespace Truyn.Programs
open Relation

universe u
variable {κ α ω ο β γ χ : Type u}

/-- A program: `get` is told nothing (`none`), that there is no document, or a version with its tag;
    `put` is told nothing, that the tag was current and the document is written, or that it was not.
    Tag 0 is that of a document that does not exist. -/
inductive Prog (κ α ω ο β : Type u) : Type u
  | done (b : β)
  | get (k : κ) (next : Option (Option (ℕ × α)) → Prog κ α ω ο β)
  | put (k : κ) (tag : ℕ) (d : α) (next : Option Bool → Prog κ α ω ο β)
  | ask (next : ω → Prog κ α ω ο β)
  | emit (o : ο) (next : Prog κ α ω ο β)

/-- One program after the other. -/
def Prog.bind : Prog κ α ω ο β → (β → Prog κ α ω ο γ) → Prog κ α ω ο γ
  | .done b, f => f b
  | .get k next, f => .get k fun r => (next r).bind f
  | .put k tag d next, f => .put k tag d fun r => (next r).bind f
  | .ask next, f => .ask fun x => (next x).bind f
  | .emit o next, f => .emit o (next.bind f)

theorem Prog.bind_done (p : Prog κ α ω ο β) : p.bind .done = p := by
  induction p <;> simp_all [Prog.bind]

theorem Prog.bind_assoc {δ : Type u} (p : Prog κ α ω ο β) (f : β → Prog κ α ω ο γ)
    (g : γ → Prog κ α ω ο δ) : (p.bind f).bind g = p.bind fun b => (f b).bind g := by
  induction p with
  | done b => rfl
  | get k next ih => exact congrArg (Prog.get k) (funext ih)
  | put k tag d next ih => exact congrArg (Prog.put k tag d) (funext ih)
  | ask next ih => exact congrArg Prog.ask (funext ih)
  | emit o next ih => exact congrArg (Prog.emit o) ih

/-- A version of a document and the call that wrote it; `none` was there before all calls. -/
structure Version (α : Type u) where
  writer : Option ℕ
  doc : α

/-- One more version that keeps to the newest one keeps to all. -/
theorem history_cons (keeps : α → α → Prop)
    (htrans : ∀ {a b c : α}, keeps a b → keeps b c → keeps a c) {l : List (Version α)}
    {v : Version α} (h : l.Pairwise fun newer older => keeps newer.doc older.doc)
    (hv : ∀ u ∈ l.head?, keeps v.doc u.doc) :
    (v :: l).Pairwise fun newer older => keeps newer.doc older.doc := by
  refine List.pairwise_cons.mpr ⟨fun u hu => ?_, h⟩
  cases l with
  | nil => cases hu
  | cons x l =>
    have hx := hv x rfl
    rcases List.mem_cons.mp hu with rfl | hu
    · exact hx
    · exact htrans hx ((List.pairwise_cons.mp h).1 u hu)

/-- Every version of every document, newest first, and what calls have done outside. -/
structure Store (κ α ο : Type u) where
  docs : κ → List (Version α)
  log : List (ℕ × ο)

/-- The version of `age` versions ago, with its tag. -/
def Store.read (s : Store κ α ο) (k : κ) (age : ℕ) : Option (ℕ × α) :=
  match (s.docs k).drop age with
  | [] => none
  | v :: older => some (older.length + 1, v.doc)

def Store.act (s : Store κ α ο) (n : ℕ) (o : ο) : Store κ α ο := { s with log := (n, o) :: s.log }

/-- The versions of a document that a call wrote. -/
def Store.written (s : Store κ α ο) (n : ℕ) (k : κ) : List (Version α) :=
  (s.docs k).filter fun v => v.writer = some n

/-- What a call has done outside. -/
def Store.acts (s : Store κ α ο) (n : ℕ) : List (ℕ × ο) := s.log.filter fun e => e.1 = n

/-- A write whose caller was told nothing. -/
structure Late (κ α : Type u) where
  number : ℕ
  key : κ
  tag : ℕ
  doc : α

/-- The store, the calls made (a call's number is its place), what they still have to do, the writes
    that nobody waits for, and what calls have come to. -/
structure World (κ α ω ο β χ : Type u) where
  store : Store κ α ο
  calls : List χ
  running : ℕ → Option (Prog κ α ω ο β)
  late : List (Late κ α)
  answers : List (ℕ × β)

def World.resume (w : World κ α ω ο β χ) (n : ℕ) (p : Option (Prog κ α ω ο β)) :
    World κ α ω ο β χ := { w with running := Function.update w.running n p }

@[simp] theorem World.resume_running (w : World κ α ω ο β χ) (n : ℕ) (p : Option (Prog κ α ω ο β)) :
    (w.resume n p).running n = p := by simp [resume]

theorem World.resume_running_ne {m n : ℕ} (h : m ≠ n) (w : World κ α ω ο β χ)
    (p : Option (Prog κ α ω ο β)) : (w.resume n p).running m = w.running m := by
  simp [resume, h]

/-- Before the first call. -/
def World.start (s : Store κ α ο) : World κ α ω ο β χ := ⟨s, [], fun _ => none, [], []⟩

/-! ### What a program may rely on -/

/-- An invariant of the store, and a preorder that every step keeps to, under which documents gain
    versions only. -/
structure Theory (κ α ο : Type u) where
  inv : Store κ α ο → Prop
  may : Store κ α ο → Store κ α ο → Prop
  refl : ∀ s, may s s
  trans : ∀ {s t u}, may s t → may t u → may s u
  grows : ∀ {s t}, may s t → ∀ k, s.docs k <:+ t.docs k

/-- What happens to the store while call `n` does nothing: nobody acts in its name, nor writes, as
    long as it waits for all its writes (`waits`). -/
structure Env (T : Theory κ α ο) (n : ℕ) (waits : Bool) (s t : Store κ α ο) : Prop where
  may : T.may s t
  acts : t.acts n = s.acts n
  written : waits = true → ∀ k, t.written n k = s.written n k

variable {T : Theory κ α ο} {stale b : Bool} {n m : ℕ} {k : κ} {d : α} {K K' : List κ}
  {s t u : Store κ α ο} {p : Prog κ α ω ο β}

theorem Env.refl (s : Store κ α ο) : Env T n b s s :=
  ⟨T.refl s, rfl, fun _ _ => rfl⟩

theorem Env.trans (h : Env T n b s t) (h' : Env T n b t u) : Env T n b s u :=
  ⟨T.trans h.may h'.may, h'.acts.trans h.acts, fun hb k => (h'.written hb k).trans (h.written hb k)⟩

/-- What happens to the store while call `n`, which waits for all its writes, writes only under the
    keys `K`. -/
structure Since (T : Theory κ α ο) (n : ℕ) (K : List κ) (s t : Store κ α ο) : Prop where
  may : T.may s t
  written : ∀ k, k ∉ K → t.written n k = s.written n k

theorem Env.since (h : Env T n true s t) (K : List κ) : Since T n K s t :=
  ⟨h.may, fun k _ => h.written rfl k⟩

theorem Since.trans (h : Since T n K s t) (h' : Since T n K' t u) : Since T n (K ++ K') s u := by
  refine ⟨T.trans h.may h'.may, fun k hk => ?_⟩
  rw [List.mem_append, not_or] at hk
  exact (h'.written k hk.2).trans (h.written k hk.1)

theorem Since.mono (h : Since T n K s t) (hK : K ⊆ K') : Since T n K' s t :=
  ⟨h.may, fun k hk => h.written k fun hk' => hk (hK hk')⟩

/-! ### Steps -/

variable [DecidableEq κ]

/-- The service writes a document. -/
def Store.write (s : Store κ α ο) (n : ℕ) (k : κ) (d : α) : Store κ α ο :=
  { s with docs := Function.update s.docs k (⟨some n, d⟩ :: s.docs k) }

@[simp] theorem Store.write_docs (s : Store κ α ο) (n : ℕ) (k : κ) (d : α) :
    (s.write n k d).docs k = ⟨some n, d⟩ :: s.docs k := by simp [write]

theorem Store.write_docs_ne {k' : κ} (h : k' ≠ k) (s : Store κ α ο) (n : ℕ) (d : α) :
    (s.write n k d).docs k' = s.docs k' := by simp [write, h]

/-- One step of a world whose calls run the programs `prog`; reads may be `stale`. -/
inductive Step (prog : χ → Prog κ α ω ο β) (stale : Bool) :
    World κ α ω ο β χ → World κ α ω ο β χ → Prop
  | call (w) (c : χ) : Step prog stale w
      ({ w with calls := w.calls ++ [c] }.resume w.calls.length (some (prog c)))
  | read {w n k next} (age : ℕ) : w.running n = some (.get k next) → (stale = false → age = 0) →
      Step prog stale w (w.resume n (some (next (some (w.store.read k age)))))
  | unread {w n k next} : w.running n = some (.get k next) →
      Step prog stale w (w.resume n (some (next none)))
  | write {w n k tag d next} : w.running n = some (.put k tag d next) →
      (w.store.docs k).length = tag →
      Step prog stale w ({ w with store := w.store.write n k d }.resume n (some (next (some true))))
  | refuse {w n k tag d next} : w.running n = some (.put k tag d next) →
      (w.store.docs k).length ≠ tag → Step prog stale w (w.resume n (some (next (some false))))
  | lose {w n k tag d next} : w.running n = some (.put k tag d next) →
      Step prog stale w ({ w with late := ⟨n, k, tag, d⟩ :: w.late }.resume n (some (next none)))
  | late {w} (l : Late κ α) : l ∈ w.late → (w.store.docs l.key).length = l.tag →
      Step prog stale w { w with store := w.store.write l.number l.key l.doc }
  | answer {w n next} (x : ω) : w.running n = some (.ask next) →
      Step prog stale w (w.resume n (some (next x)))
  | act {w n o next} : w.running n = some (.emit o next) →
      Step prog stale w ({ w with store := w.store.act n o }.resume n (some next))
  | finish {w n b} : w.running n = some (.done b) →
      Step prog stale w ({ w with answers := (n, b) :: w.answers }.resume n none)
  | crash {w n p} : w.running n = some p → Step prog stale w (w.resume n none)

/-- Any number of steps. -/
abbrev Run (prog : χ → Prog κ α ω ο β) (stale : Bool) := ReflTransGen (Step prog stale)

variable {prog : χ → Prog κ α ω ο β} {w w' : World κ α ω ο β χ}

/-! ### Safe programs -/

theorem since_write (hmay : T.may s (s.write n k d)) : Since T n [k] s (s.write n k d) := by
  refine ⟨hmay, fun k' hk => ?_⟩
  rw [Store.written, Store.write_docs_ne fun h => hk (List.mem_singleton.mpr h), Store.written]

/-- A write under a tag is right, whenever it is executed. -/
def Writes (T : Theory κ α ο) (n : ℕ) (k : κ) (tag : ℕ) (d : α) (s : Store κ α ο) : Prop :=
  ∀ t, T.may s t → T.inv t → (t.docs k).length = tag → T.inv (t.write n k d) ∧ T.may t (t.write n k d)

theorem Writes.later {tag : ℕ} (h : Writes T n k tag d s) (hst : T.may s t) :
    Writes T n k tag d t :=
  fun u htu => h u (T.trans hst htu)

/-- The program of call `n` keeps to the theory and ends in the postcondition `Q`, which may depend
    on whether the call waited for all its writes. -/
def Safe (T : Theory κ α ο) (stale : Bool) (n : ℕ) {β : Type u}
    (Q : Bool → β → Store κ α ο → Prop) :
    Prog κ α ω ο β → Bool → Store κ α ο → Prop
  | .done b, waits, s => ∀ t, Env T n waits s t → T.inv t → Q waits b t
  | .get k next, waits, s => ∀ t, Env T n waits s t → T.inv t →
      (∀ age, (stale = false → age = 0) →
        Safe T stale n Q (next (some (t.read k age))) waits t) ∧
      Safe T stale n Q (next none) waits t
  | .put k tag d next, waits, s => ∀ t, Env T n waits s t → T.inv t →
      Writes T n k tag d t ∧
      ((t.docs k).length = tag → Safe T stale n Q (next (some true)) waits (t.write n k d)) ∧
      ((t.docs k).length ≠ tag → Safe T stale n Q (next (some false)) waits t) ∧
      Safe T stale n Q (next none) false t
  | .ask next, waits, s => ∀ t, Env T n waits s t → T.inv t →
      ∀ x, Safe T stale n Q (next x) waits t
  | .emit o next, waits, s => ∀ t, Env T n waits s t → T.inv t →
      T.inv (t.act n o) ∧ T.may t (t.act n o) ∧ Safe T stale n Q next waits (t.act n o)

section Rules

variable {Q Q' : Bool → β → Store κ α ο → Prop} {waits : Bool}

/-- A safe program is safe to go on with after anything that happens meanwhile. -/
theorem Safe.env (h : Safe T stale n Q p waits s) (hst : Env T n waits s t) :
    Safe T stale n Q p waits t := by
  cases p <;> exact fun u htu hu => h u (hst.trans htu) hu

/-- It is enough that a program is safe wherever it may go on. -/
theorem Safe.of_env (h : ∀ t, Env T n waits s t → T.inv t → Safe T stale n Q p waits t) :
    Safe T stale n Q p waits s := by
  cases p <;> exact fun u hsu hu => h u hsu hu u (.refl u) hu

/-- SEQUENCE: the second program is safe wherever the first one, and the others after it, may end. -/
theorem Safe.follow {Q' : Bool → γ → Store κ α ο → Prop} {f : β → Prog κ α ω ο γ}
    (h : Safe T stale n Q p waits s) (hf : ∀ b x t,
      (∀ u, Env T n b t u → T.inv u → Q b x u) → Safe T stale n Q' (f x) b t) :
    Safe T stale n Q' (p.bind f) waits s := by
  induction p generalizing waits s with
  | done b => exact hf _ _ _ h
  | get k next ih =>
    intro t hst ht
    obtain ⟨hread, hnone⟩ := h t hst ht
    exact ⟨fun age ha => ih _ (hread age ha), ih _ hnone⟩
  | put k tag d next ih =>
    intro t hst ht
    obtain ⟨hw, htrue, hfalse, hnone⟩ := h t hst ht
    exact ⟨hw, fun hl => ih _ (htrue hl), fun hl => ih _ (hfalse hl), ih _ hnone⟩
  | ask next ih => exact fun t hst ht x => ih _ (h t hst ht x)
  | emit o next ih =>
    intro t hst ht
    obtain ⟨hi, hm, hn⟩ := h t hst ht
    exact ⟨hi, hm, ih hn⟩

theorem Safe.bind {Q : Bool → γ → Store κ α ο → Prop} {f : β → Prog κ α ω ο γ}
    (h : Safe T stale n (fun b x t => Safe T stale n Q (f x) b t) p waits s) :
    Safe T stale n Q (p.bind f) waits s :=
  h.follow fun _ _ _ hx => .of_env hx

theorem Safe.mono (h : Safe T stale n Q p waits s) (hQ : ∀ b x u, T.inv u → Q b x u → Q' b x u) :
    Safe T stale n Q' p waits s := by
  rw [← p.bind_done]
  exact h.follow fun b x _ hx u htu hu => hQ b x u hu (hx u htu hu)

/-- A postcondition goes on to hold while the others go on. -/
theorem Safe.always (h : Safe T stale n Q p waits s) :
    Safe T stale n (fun b x t => ∀ u, Env T n b t u → T.inv u → Q b x u) p waits s := by
  rw [← p.bind_done]
  exact h.follow fun _ _ _ hx _ htu _ v huv hv => hx v (htu.trans huv) hv

/-- A read, whatever version it gets. -/
theorem Safe.get {next : Option (Option (ℕ × α)) → Prog κ α ω ο β}
    (hnone : ∀ t, Env T n waits s t → T.inv t → Safe T stale n Q (next none) waits t)
    (habsent : ∀ t, Env T n waits s t → T.inv t → (stale = false → t.docs k = []) →
      Safe T stale n Q (next (some none)) waits t)
    (hfound : ∀ t v older, Env T n waits s t → T.inv t → v :: older <:+ t.docs k →
      (stale = false → t.docs k = v :: older) →
      Safe T stale n Q (next (some (some (older.length + 1, v.doc)))) waits t) :
    Safe T stale n Q (.get k next) waits s := by
  intro t hst ht
  refine ⟨fun age ha => ?_, hnone t hst ht⟩
  rw [Store.read]
  cases hd : (t.docs k).drop age with
  | nil =>
    refine habsent t hst ht fun hs => ?_
    rw [ha hs, List.drop_zero] at hd
    exact hd
  | cons v older =>
    refine hfound t v older hst ht (hd ▸ List.drop_suffix _ _) fun hs => ?_
    rw [ha hs, List.drop_zero] at hd
    exact hd

/-- A write of the version after `v`. -/
theorem Safe.put {v : Version α} {older : List (Version α)} {next : Option Bool → Prog κ α ω ο β}
    (hread : v :: older <:+ s.docs k) (hwrite : ∀ t, T.may s t → T.inv t → t.docs k = v :: older →
      T.inv (t.write n k d) ∧ T.may t (t.write n k d))
    (htrue : ∀ t, Env T n waits s t → T.inv t → t.docs k = v :: older →
      Safe T stale n Q (next (some true)) waits (t.write n k d))
    (hfalse : ∀ t, Env T n waits s t → T.inv t → Safe T stale n Q (next (some false)) waits t)
    (hnone : ∀ t, Env T n waits s t → T.inv t → Safe T stale n Q (next none) false t) :
    Safe T stale n Q (.put k (older.length + 1) d next) waits s := by
  have hnow : ∀ t, T.may s t → (t.docs k).length = older.length + 1 → t.docs k = v :: older :=
    fun t hst hl => ((hread.trans (T.grows hst k)).eq_of_length (by simp [hl])).symm
  intro t hst ht
  refine ⟨fun u htu hu hl => ?_, fun hl => htrue t hst ht (hnow t hst.may hl),
    fun _ => hfalse t hst ht, hnone t hst ht⟩
  have hsu := T.trans hst.may htu
  exact hwrite u hsu hu (hnow u hsu hl)

/-- The creation of a document. -/
theorem Safe.create {next : Option Bool → Prog κ α ω ο β}
    (hwrite : ∀ t, T.may s t → T.inv t → t.docs k = [] →
      T.inv (t.write n k d) ∧ T.may t (t.write n k d))
    (htrue : ∀ t, Env T n waits s t → T.inv t → t.docs k = [] →
      Safe T stale n Q (next (some true)) waits (t.write n k d))
    (hfalse : ∀ t, Env T n waits s t → T.inv t → t.docs k ≠ [] →
      Safe T stale n Q (next (some false)) waits t)
    (hnone : ∀ t, Env T n waits s t → T.inv t → Safe T stale n Q (next none) false t) :
    Safe T stale n Q (.put k 0 d next) waits s := by
  intro t hst ht
  refine ⟨fun u htu hu hl => hwrite u (T.trans hst.may htu) hu (List.length_eq_zero_iff.mp hl),
    fun hl => htrue t hst ht (List.length_eq_zero_iff.mp hl), fun hl => hfalse t hst ht ?_,
    hnone t hst ht⟩
  exact fun h => hl (by rw [h]; rfl)

end Rules

/-! ### Runs -/

/-- Nobody has acted or written as call `n`. -/
structure Fresh (n : ℕ) (s : Store κ α ο) : Prop where
  acts : s.acts n = []
  written : ∀ k, s.written n k = []

/-- The program of every call is safe. -/
def Verified (T : Theory κ α ο) (stale : Bool) (prog : χ → Prog κ α ω ο β)
    (Q : ℕ → χ → Bool → β → Store κ α ο → Prop) : Prop :=
  ∀ n c s, T.inv s → Fresh n s → Safe T stale n (Q n c) (prog c) true s

/-- Call `n` has waited for all its writes. -/
def World.waits (w : World κ α ω ο β χ) (n : ℕ) : Bool := !w.late.any fun l => l.number = n

omit [DecidableEq κ] in
/-- Of two versions one is the newer. -/
theorem agree_of_lineage {R : Version α → Version α → Prop} {l : List (Version α)}
    (h : l.Pairwise R) {u v : Version α} (hu : u ∈ l) (hv : v ∈ l) : u = v ∨ R u v ∨ R v u :=
  List.Pairwise.forall_of_forall_of_flip (R := fun x y => x = y ∨ R x y ∨ R y x)
    (fun _ _ => .inl rfl) (h.imp fun hk => .inr (.inl hk)) (h.imp fun hk => .inr (.inr hk)) hu hv

/-- What holds in every run. -/
structure Sound (T : Theory κ α ο) (stale : Bool) (Q : ℕ → χ → Bool → β → Store κ α ο → Prop)
    (w : World κ α ω ο β χ) : Prop where
  inv : T.inv w.store
  running : ∀ n p, w.running n = some p →
    ∃ c, w.calls[n]? = some c ∧ Safe T stale n (Q n c) p (w.waits n) w.store
  late : ∀ l ∈ w.late, l.number < w.calls.length ∧ Writes T l.number l.key l.tag l.doc w.store
  fresh : ∀ n, w.calls.length ≤ n → Fresh n w.store

section Soundness

variable {Q : ℕ → χ → Bool → β → Store κ α ο → Prop}

theorem written_write_ne (h : m ≠ n) (k : κ) (d : α) (k' : κ) :
    (s.write n k d).written m k' = s.written m k' := by
  unfold Store.written
  by_cases hk : k' = k
  · subst hk
    rw [Store.write_docs, List.filter_cons_of_neg (by simpa using Ne.symm h)]
  · rw [Store.write_docs_ne hk]

omit [DecidableEq κ] in
theorem acts_act_ne (h : m ≠ n) (o : ο) : (s.act n o).acts m = s.acts m := by
  unfold Store.acts Store.act
  rw [List.filter_cons_of_neg (by simpa using Ne.symm h)]

/-- Another call's write, or one that this call does not wait for. -/
theorem env_write (hmay : T.may s (s.write n k d)) (h : b = true → m ≠ n) :
    Env T m b s (s.write n k d) :=
  ⟨hmay, rfl, fun hb k' => written_write_ne (h hb) k d k'⟩

omit [DecidableEq κ] in
theorem env_act {o : ο} (hmay : T.may s (s.act n o)) (h : m ≠ n) :
    Env T m b s (s.act n o) := ⟨hmay, acts_act_ne h o, fun _ _ => rfl⟩

omit [DecidableEq κ] in
theorem getElem?_lt {l : List χ} {c : χ} (h : l[n]? = some c) : n < l.length :=
  (List.getElem_of_getElem? h).1

/-- A step of call `n`: what it leaves of its program is safe, and the others see nothing but a step
    that may be made. -/
theorem Sound.resume {u : World κ α ω ο β χ} {p : Option (Prog κ α ω ο β)} (h : Sound T stale Q w)
    (hcalls : u.calls = w.calls) (hrunning : u.running = w.running)
    (hinv : T.inv u.store) (hmay : T.may w.store u.store)
    (henv : ∀ m, m ≠ n → Env T m (w.waits m) w.store u.store ∧ u.waits m = w.waits m)
    (hlate : ∀ l ∈ u.late, l ∈ w.late ∨
      l.number = n ∧ Writes T l.number l.key l.tag l.doc u.store)
    (hn : n < w.calls.length)
    (hp : ∀ p', p = some p' →
      ∃ c, w.calls[n]? = some c ∧ Safe T stale n (Q n c) p' (u.waits n) u.store) :
    Sound T stale Q (u.resume n p) where
  inv := hinv
  running := by
    intro m p' hm
    by_cases hmn : m = n
    · subst hmn
      rw [World.resume_running] at hm
      obtain ⟨c, hc, hs⟩ := hp p' hm
      exact ⟨c, (congrArg (·[m]?) hcalls).trans hc, hs⟩
    · rw [World.resume_running_ne hmn, hrunning] at hm
      obtain ⟨c, hc, hs⟩ := h.running m p' hm
      obtain ⟨he, hw⟩ := henv m hmn
      refine ⟨c, (congrArg (·[m]?) hcalls).trans hc, ?_⟩
      show Safe T stale m (Q m c) p' (u.waits m) u.store
      rw [hw]
      exact hs.env he
  late := by
    intro l hl
    have hl' : l ∈ u.late := hl
    show l.number < u.calls.length ∧ Writes T l.number l.key l.tag l.doc u.store
    rw [hcalls]
    rcases hlate l hl' with hl | ⟨rfl, hwr⟩
    · exact ⟨(h.late l hl).1, (h.late l hl).2.later hmay⟩
    · exact ⟨hn, hwr⟩
  fresh := by
    intro m hm
    have hm' : w.calls.length ≤ m := by
      rw [← hcalls]
      exact hm
    have hmn : m ≠ n := by omega
    obtain ⟨he, -⟩ := henv m hmn
    have hwaits : w.waits m = true := by
      rw [World.waits, Bool.not_eq_true', List.any_eq_false]
      intro l hl
      have := (h.late l hl).1
      simp only [decide_eq_true_eq]
      omega
    have hf := h.fresh m hm'
    exact ⟨he.acts.trans hf.acts, fun k => (he.written hwaits k).trans (hf.written k)⟩

/-- A step of call `n` that leaves the store alone. -/
theorem Sound.quiet {p : Option (Prog κ α ω ο β)} {p₀ : Prog κ α ω ο β} (h : Sound T stale Q w)
    (hn : w.running n = some p₀)
    (hp : ∀ c p', p = some p' → Safe T stale n (Q n c) p₀ (w.waits n) w.store →
      Safe T stale n (Q n c) p' (w.waits n) w.store) :
    Sound T stale Q (w.resume n p) := by
  obtain ⟨c, hc, hs⟩ := h.running n p₀ hn
  exact h.resume rfl rfl h.inv (T.refl _) (fun m _ => ⟨.refl _, rfl⟩) (fun l hl => .inl hl)
    (getElem?_lt hc) fun p' he => ⟨c, hc, hp c p' he hs⟩

omit [DecidableEq κ] in
theorem waits_lose {l : Late κ α} (h : m ≠ l.number) :
    ({ w with late := l :: w.late } : World κ α ω ο β χ).waits m = w.waits m := by
  unfold World.waits
  rw [List.any_cons]
  simp [Ne.symm h]

/-- STEP: every step keeps what holds in every run. -/
theorem Sound.step (hv : Verified T stale prog Q) (h : Sound T stale Q w)
    (hstep : Step prog stale w w') : Sound T stale Q w' ∧ T.may w.store w'.store := by
  cases hstep with
  | call c =>
    refine ⟨⟨h.inv, ?_, ?_, ?_⟩, T.refl _⟩
    · intro m p hm
      by_cases hmn : m = w.calls.length
      · subst hmn
        rw [World.resume_running] at hm
        cases hm
        refine ⟨c, List.getElem?_concat_length, ?_⟩
        have hwaits : w.waits w.calls.length = true := by
          rw [World.waits, Bool.not_eq_true', List.any_eq_false]
          intro l hl
          have := (h.late l hl).1
          simp only [decide_eq_true_eq]
          omega
        show Safe T stale w.calls.length (Q _ c) (prog c) (w.waits w.calls.length) w.store
        rw [hwaits]
        exact hv _ c _ h.inv (h.fresh _ (Nat.le_refl _))
      · rw [World.resume_running_ne hmn] at hm
        obtain ⟨c', hc', hs⟩ := h.running m p hm
        exact ⟨c', (List.getElem?_append_left (getElem?_lt hc')).trans hc', hs⟩
    · intro l hl
      obtain ⟨hlt, hw⟩ := h.late l hl
      refine ⟨?_, hw⟩
      show l.number < (w.calls ++ [c]).length
      rw [List.length_append]
      exact Nat.lt_add_right _ hlt
    · intro m hm
      refine h.fresh m (Nat.le_trans ?_ hm)
      show w.calls.length ≤ (w.calls ++ [c]).length
      rw [List.length_append]
      exact Nat.le_add_right _ _
  | read age hr ha =>
    refine ⟨h.quiet hr fun c p' hp hs => ?_, T.refl _⟩
    cases hp
    exact (hs _ (.refl _) h.inv).1 age ha
  | unread hr =>
    refine ⟨h.quiet hr fun c p' hp hs => ?_, T.refl _⟩
    cases hp
    exact (hs _ (.refl _) h.inv).2
  | write hr hl =>
    obtain ⟨c, hc, hs⟩ := h.running _ _ hr
    obtain ⟨hw, htrue, -⟩ := hs _ (.refl _) h.inv
    obtain ⟨hinv, hmay⟩ := hw _ (T.refl _) h.inv hl
    refine ⟨h.resume rfl rfl hinv hmay (fun m hm => ⟨env_write hmay fun _ => hm, rfl⟩)
      (fun l hl => .inl hl) (getElem?_lt hc) fun p' hp => ⟨c, hc, ?_⟩, hmay⟩
    cases hp
    exact htrue hl
  | refuse hr hl =>
    refine ⟨h.quiet hr fun c p' hp hs => ?_, T.refl _⟩
    cases hp
    exact (hs _ (.refl _) h.inv).2.2.1 hl
  | @lose n k tag d next hr =>
    obtain ⟨c, hc, hs⟩ := h.running _ _ hr
    obtain ⟨hw, -, -, hnone⟩ := hs _ (.refl _) h.inv
    refine ⟨h.resume rfl rfl h.inv (T.refl _) (fun m hm => ⟨.refl _, waits_lose hm⟩) ?_
      (getElem?_lt hc) fun p' hp => ⟨c, hc, ?_⟩, T.refl _⟩
    · intro l hl
      rcases List.mem_cons.mp hl with rfl | hl
      · exact .inr ⟨rfl, hw⟩
      · exact .inl hl
    · cases hp
      have hwaits : ({ w with late := ⟨n, k, tag, d⟩ :: w.late } : World κ α ω ο β χ).waits n =
          false := by
        simp [World.waits]
      rw [hwaits]
      exact hnone
  | late l hl htag =>
    obtain ⟨hlt, hw⟩ := h.late l hl
    obtain ⟨hinv, hmay⟩ := hw _ (T.refl _) h.inv htag
    have henv : ∀ m, Env T m (w.waits m) w.store (w.store.write l.number l.key l.doc) := by
      intro m
      refine env_write hmay ?_
      rintro hwaits rfl
      rw [World.waits, Bool.not_eq_true', List.any_eq_false] at hwaits
      exact hwaits l hl (by simp)
    refine ⟨⟨hinv, fun m p hm => ?_, fun l' hl' => ?_, fun m hm => ?_⟩, hmay⟩
    · obtain ⟨c, hc, hs⟩ := h.running m p hm
      exact ⟨c, hc, hs.env (henv m)⟩
    · exact ⟨(h.late l' hl').1, (h.late l' hl').2.later hmay⟩
    · have hm' : w.calls.length ≤ m := hm
      have hne : m ≠ l.number := by omega
      have hf := h.fresh m hm'
      exact ⟨hf.acts, fun k => (written_write_ne hne _ _ k).trans (hf.written k)⟩
  | answer x hr =>
    refine ⟨h.quiet hr fun c p' hp hs => ?_, T.refl _⟩
    cases hp
    exact hs _ (.refl _) h.inv x
  | act hr =>
    obtain ⟨c, hc, hs⟩ := h.running _ _ hr
    obtain ⟨hinv, hmay, hnext⟩ := hs _ (.refl _) h.inv
    refine ⟨h.resume rfl rfl hinv hmay (fun m hm => ⟨env_act hmay hm, rfl⟩)
      (fun l hl => .inl hl) (getElem?_lt hc) fun p' hp => ⟨c, hc, ?_⟩, hmay⟩
    cases hp
    exact hnext
  | finish hr =>
    obtain ⟨c, hc, -⟩ := h.running _ _ hr
    refine ⟨h.resume rfl rfl h.inv (T.refl _) (fun m _ => ⟨.refl _, rfl⟩) (fun l hl => .inl hl)
      (getElem?_lt hc) fun p' hp => ?_, T.refl _⟩
    cases hp
  | crash hr =>
    refine ⟨h.quiet hr fun c p' hp => ?_, T.refl _⟩
    cases hp

/-- A store from before all calls. -/
def Old (s : Store κ α ο) : Prop := s.log = [] ∧ ∀ k, ∀ v ∈ s.docs k, v.writer = none

omit [DecidableEq κ] in
theorem fresh_of_old (h : Old s) (n : ℕ) : Fresh n s := by
  constructor
  · rw [Store.acts, h.1, List.filter_nil]
  · intro k
    rw [Store.written, List.filter_eq_nil_iff]
    intro v hv
    simp [h.2 k v hv]

theorem sound_start (hs : T.inv s) (hold : Old s) :
    Sound T stale Q (World.start s : World κ α ω ο β χ) where
  inv := hs
  running := by
    intro n p hn
    cases hn
  late := by
    intro l hl
    cases hl
  fresh := fun n _ => fresh_of_old hold n

/-- SOUND: in every run of safe programs the invariant holds, and what is left of each call is safe. -/
theorem sound_of_run (hv : Verified T stale prog Q) (hs : T.inv s) (hold : Old s)
    (h : Run prog stale (World.start s) w) : Sound T stale Q w := by
  induction h with
  | refl => exact sound_start hs hold
  | tail _ hstep ih => exact (ih.step hv hstep).1

/-- Along a run the store moves only as the theory says. -/
theorem Sound.may_of_run (hv : Verified T stale prog Q) (h : Sound T stale Q w)
    (hrun : Run prog stale w w') : T.may w.store w'.store ∧ Sound T stale Q w' := by
  induction hrun with
  | refl => exact ⟨T.refl _, h⟩
  | tail _ hstep ih =>
    obtain ⟨hs, hm⟩ := ih.2.step hv hstep
    exact ⟨T.trans ih.1 hm, hs⟩

/-- A call that comes to its end satisfies its postcondition. -/
theorem Sound.post (h : Sound T stale Q w) {b : β} (hn : w.running n = some (.done b)) :
    ∃ c, w.calls[n]? = some c ∧ Q n c (w.waits n) b w.store := by
  obtain ⟨c, hc, hs⟩ := h.running n _ hn
  exact ⟨c, hc, hs _ (.refl _) h.inv⟩

/-- A step leaves a call alone that is not running: it is not called again, and nobody acts or writes
    in its name but the writes it did not wait for. -/
theorem Sound.others (hv : Verified T stale prog Q) (h : Sound T stale Q w)
    (hstep : Step prog stale w w') (hlt : n < w.calls.length) (hn : w.running n = none) :
    w'.calls[n]? = w.calls[n]? ∧ w'.running n = none ∧ w'.waits n = w.waits n ∧
      Env T n (w.waits n) w.store w'.store := by
  have hmay := (h.step hv hstep).2
  have hne : ∀ {m p}, w.running m = some p → n ≠ m := by
    rintro m p hm rfl
    rw [hn] at hm
    cases hm
  have hstill : ∀ {m p} q, w.running m = some p → (w.resume m q).running n = none :=
    fun q hm => (World.resume_running_ne (hne hm) w q).trans hn
  cases hstep with
  | call c =>
    refine ⟨List.getElem?_append_left hlt, ?_, rfl, .refl _⟩
    exact (World.resume_running_ne (Nat.ne_of_lt hlt) _ _).trans hn
  | read age hr ha => exact ⟨rfl, hstill _ hr, rfl, .refl _⟩
  | unread hr => exact ⟨rfl, hstill _ hr, rfl, .refl _⟩
  | write hr hl =>
    exact ⟨rfl, hstill _ hr, rfl,
      env_write hmay fun _ => hne hr⟩
  | refuse hr hl => exact ⟨rfl, hstill _ hr, rfl, .refl _⟩
  | lose hr =>
    exact ⟨rfl, hstill _ hr, waits_lose (hne hr), .refl _⟩
  | late l hl htag =>
    refine ⟨rfl, hn, rfl, env_write hmay ?_⟩
    rintro hwaits rfl
    rw [World.waits, Bool.not_eq_true', List.any_eq_false] at hwaits
    exact hwaits l hl (by simp)
  | answer x hr => exact ⟨rfl, hstill _ hr, rfl, .refl _⟩
  | act hr =>
    exact ⟨rfl, hstill _ hr, rfl, env_act hmay (hne hr)⟩
  | finish hr => exact ⟨rfl, hstill _ hr, rfl, .refl _⟩
  | crash hr => exact ⟨rfl, hstill _ hr, rfl, .refl _⟩

/-- What calls have come to satisfies their postconditions. -/
def Answered (Q : ℕ → χ → Bool → β → Store κ α ο → Prop) (w : World κ α ω ο β χ) : Prop :=
  ∀ n b, (n, b) ∈ w.answers → w.running n = none ∧
    ∃ c, w.calls[n]? = some c ∧ Q n c (w.waits n) b w.store

/-- What calls have come to goes on to satisfy their postconditions, if nothing that the others do
    makes them false. -/
theorem Answered.of_run (hv : Verified T stale prog Q) (h : Sound T stale Q w) (ha : Answered Q w)
    (hstable : ∀ n c q b t u, T.inv u → Env T n q t u → Q n c q b t → Q n c q b u)
    (hrun : Run prog stale w w') : Answered Q w' := by
  induction hrun with
  | refl => exact ha
  | @tail u v hrun hstep ih =>
    have hu := (h.may_of_run hv hrun).2
    have hinv := (hu.step hv hstep).1.inv
    have hkeep : ∀ n b, (n, b) ∈ u.answers → v.running n = none ∧
        ∃ c, v.calls[n]? = some c ∧ Q n c (v.waits n) b v.store := by
      intro n b hb
      obtain ⟨hnone, c, hc, hq⟩ := ih n b hb
      obtain ⟨hcalls, hrunning, hwaits, henv⟩ := hu.others hv hstep (getElem?_lt hc) hnone
      refine ⟨hrunning, c, hcalls.trans hc, ?_⟩
      rw [hwaits]
      exact hstable n c _ b _ _ hinv henv hq
    cases hstep with
    | @finish n b hr =>
      intro m b' hb
      rcases List.mem_cons.mp hb with heq | hb
      · cases heq
        obtain ⟨c, hc, hq⟩ := hu.post hr
        exact ⟨World.resume_running _ _ _, c, hc, hq⟩
      · exact hkeep m b' hb
    | _ => exact hkeep

/-- ANSWERED: in every run, each call that has come to its end satisfies its postcondition, if
    nothing that the others do makes it false. -/
theorem answered_of_run (hv : Verified T stale prog Q) (hs : T.inv s) (hold : Old s)
    (hstable : ∀ n c q b t u, T.inv u → Env T n q t u → Q n c q b t → Q n c q b u)
    (h : Run prog stale (World.start s) w) : Answered Q w := by
  refine Answered.of_run hv (sound_start hs hold) (fun n b hb => ?_) hstable h
  cases hb

end Soundness

/-! ### Facts that stay -/

/-- The theory, once a fact holds that every step keeps. -/
def Theory.given (T : Theory κ α ο) (F : Store κ α ο → Prop) : Theory κ α ο :=
  { T with inv := fun s => T.inv s ∧ F s }

section Given

variable {F : Store κ α ο → Prop} {Q : Bool → β → Store κ α ο → Prop} {waits : Bool}

omit [DecidableEq κ] in
theorem Env.ungiven (h : Env (T.given F) n waits s t) : Env T n waits s t :=
  ⟨h.may, h.acts, h.written⟩

/-- A write keeps the fact. -/
theorem Writes.given {tag : ℕ} (hF : ∀ s t, T.may s t → F s → F t) (h : Writes T n k tag d s) :
    Writes (T.given F) n k tag d s := by
  intro t hst ht hl
  obtain ⟨hinv, hmay⟩ := h t hst ht.1 hl
  exact ⟨⟨hinv, hF _ _ hmay ht.2⟩, hmay⟩

/-- Once the fact holds, what was safe is safe. -/
theorem Safe.given (hF : ∀ s t, T.may s t → F s → F t) (h : Safe T stale n Q p waits s) :
    Safe (T.given F) stale n Q p waits s := by
  induction p generalizing waits s with
  | done b => exact fun t hst ht => h t hst.ungiven ht.1
  | get k next ih =>
    intro t hst ht
    obtain ⟨hread, hnone⟩ := h t hst.ungiven ht.1
    exact ⟨fun age ha => ih _ (hread age ha), ih _ hnone⟩
  | put k tag d next ih =>
    intro t hst ht
    obtain ⟨hw, htrue, hfalse, hnone⟩ := h t hst.ungiven ht.1
    exact ⟨hw.given hF, fun hl => ih _ (htrue hl), fun hl => ih _ (hfalse hl), ih _ hnone⟩
  | ask next ih => exact fun t hst ht x => ih _ (h t hst.ungiven ht.1 x)
  | emit o next ih =>
    intro t hst ht
    obtain ⟨hi, hm, hn⟩ := h t hst.ungiven ht.1
    exact ⟨⟨hi, hF _ _ hm ht.2⟩, hm, ih hn⟩

/-- GIVEN: from a world in which the fact holds, the calls made later may be verified with it. -/
theorem Sound.given {Q Q' : ℕ → χ → Bool → β → Store κ α ο → Prop}
    (hF : ∀ s t, T.may s t → F s → F t) (h : Sound T stale Q w) (hw : F w.store) (ha : Answered Q w)
    (hv : Verified (T.given F) stale prog Q')
    (hstable : ∀ n c q b t u, T.inv u → Env T n q t u → Q' n c q b t → Q' n c q b u)
    (hrun : Run prog stale w w') (hbefore : ∀ n c b r t, n < w.calls.length → Q' n c b r t) :
    Answered Q' w' := by
  refine Answered.of_run hv ⟨⟨h.inv, hw⟩, fun n p hn => ?_, fun l hl => ?_, h.fresh⟩
    (fun n b hb => ?_) (fun n c q b t u hu henv => hstable n c q b t u hu.1 henv.ungiven) hrun
  · obtain ⟨c, hc, hs⟩ := h.running n p hn
    exact ⟨c, hc, (hs.given hF).mono fun b x t _ _ => hbefore n c b x t (getElem?_lt hc)⟩
  · obtain ⟨hlt, hl⟩ := h.late l hl
    exact ⟨hlt, hl.given hF⟩
  · obtain ⟨hnone, c, hc, -⟩ := ha n b hb
    exact ⟨hnone, c, hc, hbefore n c _ b _ (getElem?_lt hc)⟩

end Given

/-! ### What calls write -/

/-- Whatever it is told, a program writes only what `W` allows. -/
def Prog.Only (W : κ → α → Prop) : Prog κ α ω ο β → Prop
  | .done _ => True
  | .get _ next => ∀ r, (next r).Only W
  | .put k _ d next => W k d ∧ ∀ r, (next r).Only W
  | .ask next => ∀ x, (next x).Only W
  | .emit _ next => next.Only W

omit [DecidableEq κ] in
theorem Prog.Only.bind {W : κ → α → Prop} {f : β → Prog κ α ω ο γ} (h : p.Only W)
    (hf : ∀ b, (f b).Only W) : (p.bind f).Only W := by
  induction p with
  | done b => exact hf b
  | get k next ih => exact fun r => ih r (h r)
  | put k tag d next ih => exact ⟨h.1, fun r => ih r (h.2 r)⟩
  | ask next ih => exact fun x => ih x (h x)
  | emit o next ih => exact ih h

omit [DecidableEq κ] in
theorem Prog.only_true (p : Prog κ α ω ο β) : p.Only fun _ _ => True := by
  induction p with
  | done b => trivial
  | get k next ih => exact ih
  | put k tag d next ih => exact ⟨trivial, ih⟩
  | ask next ih => exact ih
  | emit o next ih => exact ih

/-- Programs, writes that nobody waits for and versions are all of calls that may write so. -/
structure Signed (W : χ → κ → α → Prop) (w : World κ α ω ο β χ) : Prop where
  running : ∀ n p, w.running n = some p → ∃ c, w.calls[n]? = some c ∧ p.Only (W c)
  late : ∀ l ∈ w.late, ∃ c, w.calls[l.number]? = some c ∧ W c l.key l.doc
  docs : ∀ k, ∀ v ∈ w.store.docs k, ∀ n, v.writer = some n →
    ∃ c, w.calls[n]? = some c ∧ W c k v.doc

section Signed

variable {W : χ → κ → α → Prop}

omit [DecidableEq κ] in
/-- A step of call `n` writes what the call may write. -/
theorem Signed.resume {u : World κ α ω ο β χ} {p₀ : Prog κ α ω ο β}
    {p : Option (Prog κ α ω ο β)} (h : Signed W w) (hn : w.running n = some p₀)
    (hcalls : u.calls = w.calls) (hrunning : u.running = w.running)
    (hp : ∀ c p', p = some p' → p₀.Only (W c) → p'.Only (W c))
    (hlate : ∀ l ∈ u.late, l ∈ w.late ∨ l.number = n ∧ ∀ c, p₀.Only (W c) → W c l.key l.doc)
    (hdocs : ∀ k, ∀ v ∈ u.store.docs k, v ∈ w.store.docs k ∨
      v.writer = some n ∧ ∀ c, p₀.Only (W c) → W c k v.doc) :
    Signed W (u.resume n p) := by
  obtain ⟨c, hc, honly⟩ := h.running n p₀ hn
  refine ⟨fun m p' hm => ?_, fun l hl => ?_, fun k v hv m hm => ?_⟩
  · by_cases hmn : m = n
    · subst hmn
      rw [World.resume_running] at hm
      exact ⟨c, (congrArg (·[m]?) hcalls).trans hc, hp c p' hm honly⟩
    · rw [World.resume_running_ne hmn, hrunning] at hm
      obtain ⟨c', hc', hw⟩ := h.running m p' hm
      exact ⟨c', (congrArg (·[m]?) hcalls).trans hc', hw⟩
  · rcases hlate l hl with hl | ⟨hnumber, hw⟩
    · obtain ⟨c', hc', hw⟩ := h.late l hl
      exact ⟨c', (congrArg (·[l.number]?) hcalls).trans hc', hw⟩
    · refine ⟨c, ?_, hw c honly⟩
      rw [hnumber]
      exact (congrArg (·[n]?) hcalls).trans hc
  · rcases hdocs k v hv with hv | ⟨hwriter, hw⟩
    · obtain ⟨c', hc', hw⟩ := h.docs k v hv m hm
      exact ⟨c', (congrArg (·[m]?) hcalls).trans hc', hw⟩
    · cases hwriter.symm.trans hm
      exact ⟨c, (congrArg (·[n]?) hcalls).trans hc, hw c honly⟩

omit [DecidableEq κ] in
/-- A step of call `n` that writes nothing. -/
theorem Signed.quiet {p₀ : Prog κ α ω ο β} {p : Option (Prog κ α ω ο β)} (h : Signed W w)
    (hn : w.running n = some p₀) (hp : ∀ c p', p = some p' → p₀.Only (W c) → p'.Only (W c)) :
    Signed W (w.resume n p) :=
  h.resume hn rfl rfl hp (fun _ hl => .inl hl) fun _ _ hv => .inl hv

/-- Whose version it is after a write. -/
theorem mem_write {k' : κ} {v : Version α} (h : v ∈ (s.write n k d).docs k') :
    v ∈ s.docs k' ∨ k' = k ∧ v = ⟨some n, d⟩ := by
  by_cases hk : k' = k
  · subst hk
    rw [Store.write_docs] at h
    rcases List.mem_cons.mp h with rfl | h
    · exact .inr ⟨rfl, rfl⟩
    · exact .inl h
  · rw [Store.write_docs_ne hk] at h
    exact .inl h

theorem Signed.step (hprog : ∀ c, (prog c).Only (W c)) (h : Signed W w)
    (hstep : Step prog stale w w') : Signed W w' := by
  cases hstep with
  | call c =>
    have hcalls : ∀ {m : ℕ} {c'}, w.calls[m]? = some c' → (w.calls ++ [c])[m]? = some c' :=
      fun hm => (List.getElem?_append_left (getElem?_lt hm)).trans hm
    refine ⟨fun m p hm => ?_, fun l hl => ?_, fun k v hv m hm => ?_⟩
    · by_cases hmn : m = w.calls.length
      · subst hmn
        rw [World.resume_running] at hm
        cases hm
        exact ⟨c, List.getElem?_concat_length, hprog c⟩
      · rw [World.resume_running_ne hmn] at hm
        obtain ⟨c', hc', hw⟩ := h.running m p hm
        exact ⟨c', hcalls hc', hw⟩
    · obtain ⟨c', hc', hw⟩ := h.late l hl
      exact ⟨c', hcalls hc', hw⟩
    · obtain ⟨c', hc', hw⟩ := h.docs k v hv m hm
      exact ⟨c', hcalls hc', hw⟩
  | read age hr ha => exact h.quiet hr fun c p' hp hw => Option.some.inj hp ▸ hw _
  | unread hr => exact h.quiet hr fun c p' hp hw => Option.some.inj hp ▸ hw _
  | refuse hr hl => exact h.quiet hr fun c p' hp hw => Option.some.inj hp ▸ hw.2 _
  | answer x hr => exact h.quiet hr fun c p' hp hw => Option.some.inj hp ▸ hw x
  | crash hr => exact h.quiet hr fun c p' hp => by cases hp
  | write hr hl =>
    refine h.resume hr rfl rfl (fun c p' hp hw => Option.some.inj hp ▸ hw.2 _)
      (fun _ hl => .inl hl) fun k' v hv => ?_
    rcases mem_write hv with hv | ⟨rfl, rfl⟩
    · exact .inl hv
    · exact .inr ⟨rfl, fun c hw => hw.1⟩
  | lose hr =>
    refine h.resume hr rfl rfl (fun c p' hp hw => Option.some.inj hp ▸ hw.2 _) (fun l hl => ?_)
      fun _ _ hv => .inl hv
    rcases List.mem_cons.mp hl with rfl | hl
    · exact .inr ⟨rfl, fun c hw => hw.1⟩
    · exact .inl hl
  | late l hl htag =>
    refine ⟨h.running, h.late, fun k v hv m hm => ?_⟩
    rcases mem_write hv with hv | ⟨rfl, rfl⟩
    · exact h.docs k v hv m hm
    · cases hm
      exact h.late l hl
  | act hr =>
    exact h.resume hr rfl rfl (fun c p' hp hw => Option.some.inj hp ▸ hw) (fun _ hl => .inl hl)
      fun _ _ hv => .inl hv
  | finish hr =>
    exact h.resume hr rfl rfl (fun c p' hp => by cases hp) (fun _ hl => .inl hl)
      fun _ _ hv => .inl hv

/-- SIGNED: in every run, each version was there before, or is one that its writer may write. -/
theorem signed_of_run (hprog : ∀ c, (prog c).Only (W c)) (hold : Old s)
    (h : Run prog stale (World.start s) w) : Signed W w := by
  induction h with
  | refl =>
    refine ⟨fun n p hn => ?_, fun l hl => ?_, fun k v hv n hn => ?_⟩
    · cases hn
    · cases hl
    · rw [hold.2 k v hv] at hn
      cases hn
  | tail _ hstep ih => exact ih.step hprog hstep

end Signed

/-! ### Schedules -/

/-- What a scheduler picks: a new call, the next request of a running one, which is answered `x` where
    it asks, a request whose reply is lost, the oldest lost write but `i`, or a crash. -/
inductive Move (ω χ : Type u)
  | call (c : χ)
  | go (n : ℕ) (x : ω)
  | lose (n : ℕ)
  | late (i : ℕ)
  | crash (n : ℕ)

/-- The world after a move; a move that cannot be made does nothing. -/
def World.move (prog : χ → Prog κ α ω ο β) (w : World κ α ω ο β χ) :
    Move ω χ → World κ α ω ο β χ
  | .call c => { w with calls := w.calls ++ [c] }.resume w.calls.length (some (prog c))
  | .go n x =>
    match w.running n with
    | none => w
    | some (.done b) => { w with answers := (n, b) :: w.answers }.resume n none
    | some (.get k next) => w.resume n (some (next (some (w.store.read k 0))))
    | some (.put k tag d next) =>
      if (w.store.docs k).length = tag then
        { w with store := w.store.write n k d }.resume n (some (next (some true)))
      else w.resume n (some (next (some false)))
    | some (.ask next) => w.resume n (some (next x))
    | some (.emit o next) => { w with store := w.store.act n o }.resume n (some next)
  | .lose n =>
    match w.running n with
    | some (.get _ next) => w.resume n (some (next none))
    | some (.put k tag d next) =>
      { w with late := ⟨n, k, tag, d⟩ :: w.late }.resume n (some (next none))
    | _ => w
  | .late i =>
    match w.late[i]? with
    | none => w
    | some l =>
      if (w.store.docs l.key).length = l.tag then
        { w with store := w.store.write l.number l.key l.doc }
      else w
  | .crash n =>
    match w.running n with
    | none => w
    | some _ => w.resume n none

/-- A schedule, from the first move on. -/
def World.play (prog : χ → Prog κ α ω ο β) (w : World κ α ω ο β χ) (ms : List (Move ω χ)) :
    World κ α ω ο β χ := ms.foldl (World.move prog) w

theorem move_get {next : Option (Option (ℕ × α)) → Prog κ α ω ο β}
    (h : w.running n = some (.get k next)) (x : ω) :
    w.move prog (.go n x) = w.resume n (some (next (some (w.store.read k 0)))) := by
  simp only [World.move, h]

theorem move_ask {next : ω → Prog κ α ω ο β} (h : w.running n = some (.ask next)) (x : ω) :
    w.move prog (.go n x) = w.resume n (some (next x)) := by
  simp only [World.move, h]

theorem move_done {b : β} (h : w.running n = some (.done b)) (x : ω) :
    (n, b) ∈ (w.move prog (.go n x)).answers := by
  simp only [World.move, h]
  exact List.mem_cons_self

theorem run_move (prog : χ → Prog κ α ω ο β) (stale : Bool) (w : World κ α ω ο β χ)
    (m : Move ω χ) : Run prog stale w (w.move prog m) := by
  cases m with
  | call c => exact .single (.call w c)
  | go n x =>
    simp only [World.move]
    split
    · exact .refl
    · next h => exact .single (.finish h)
    · next h => exact .single (.read 0 h fun _ => rfl)
    · next h =>
      split
      · next hl => exact .single (.write h hl)
      · next hl => exact .single (.refuse h hl)
    · next h => exact .single (.answer x h)
    · next h => exact .single (.act h)
  | lose n =>
    simp only [World.move]
    split
    · next h => exact .single (.unread h)
    · next h => exact .single (.lose h)
    · exact .refl
  | late i =>
    simp only [World.move]
    split
    · exact .refl
    · next l hl =>
      split
      · next htag => exact .single (.late l (List.mem_of_getElem? hl) htag)
      · exact .refl
  | crash n =>
    simp only [World.move]
    split
    · exact .refl
    · next h => exact .single (.crash h)

/-- The call that a move makes. -/
def Move.made : Move ω χ → Option χ
  | .call c => some c
  | _ => none

theorem calls_move (prog : χ → Prog κ α ω ο β) (w : World κ α ω ο β χ) (m : Move ω χ) :
    (w.move prog m).calls = w.calls ++ m.made.toList := by
  cases m with
  | call c => rfl
  | go n x =>
    simp only [World.move, Move.made, Option.toList_none, List.append_nil]
    split
    case h_4 => split <;> rfl
    all_goals rfl
  | lose n =>
    simp only [World.move, Move.made, Option.toList_none, List.append_nil]
    split <;> rfl
  | late i =>
    simp only [World.move, Move.made, Option.toList_none, List.append_nil]
    split
    · rfl
    · split <;> rfl
  | crash n =>
    simp only [World.move, Move.made, Option.toList_none, List.append_nil]
    split <;> rfl

/-- The calls of a schedule. -/
theorem calls_play (prog : χ → Prog κ α ω ο β) (ms : List (Move ω χ)) (w : World κ α ω ο β χ) :
    (w.play prog ms).calls = w.calls ++ ms.filterMap Move.made := by
  induction ms generalizing w with
  | nil => exact (List.append_nil _).symm
  | cons m ms ih =>
    refine (ih (w.move prog m)).trans ?_
    rw [calls_move, List.append_assoc]
    cases hm : m.made with
    | none => rw [List.filterMap_cons_none hm, Option.toList_none, List.nil_append]
    | some c => rw [List.filterMap_cons_some hm, Option.toList_some, List.singleton_append]

theorem calls_call (prog : χ → Prog κ α ω ο β) (c : χ) (n : ℕ) (x : ω) (moves : ℕ)
    (w : World κ α ω ο β χ) :
    (w.play prog (.call c :: List.replicate moves (.go n x))).calls = w.calls ++ [c] := by
  have hnone : (List.replicate moves (Move.go n x : Move ω χ)).filterMap Move.made = [] :=
    List.filterMap_eq_nil_iff.mpr fun m hm => by rw [List.eq_of_mem_replicate hm]; rfl
  have hcall : (Move.call c : Move ω χ).made = some c := rfl
  rw [calls_play, List.filterMap_cons_some hcall, hnone]

/-- What is played is a run. -/
theorem run_play (prog : χ → Prog κ α ω ο β) (stale : Bool) (ms : List (Move ω χ))
    (w : World κ α ω ο β χ) : Run prog stale w (w.play prog ms) := by
  induction ms generalizing w with
  | nil => exact .refl
  | cons m ms ih => exact (run_move prog stale w m).trans (ih (w.move prog m))

end Truyn.Programs
