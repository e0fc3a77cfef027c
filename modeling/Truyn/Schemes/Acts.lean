import Truyn.Schemes.Programs

/-! scheme:acts | programs that may fail, and the loop that writes until its tag is current

    Programs that end in a result or a fault form a monad. A request that is told nothing ends in
    the fault `lost`. `mutate` reads a document, computes the next version and writes it, again and
    again until the version it has read is still the newest, or its attempts are used up. Each action
    has one rule. -/

namespace Truyn.Programs

variable {κ α ω ο β γ φ : Type}

/-- A program that ends in a result or a fault. -/
def Act (κ α ω ο φ β : Type) : Type := Prog κ α ω ο (Except φ β)

namespace Act

def throw (e : φ) : Act κ α ω ο φ β := Prog.done (.error e)

/-- Go on with a result; a fault ends the program. -/
def andThen (f : β → Act κ α ω ο φ γ) : Except φ β → Act κ α ω ο φ γ
  | .ok x => f x
  | .error e => throw e

instance : Monad (Act κ α ω ο φ) where
  pure b := Prog.done (.ok b)
  bind p f := Prog.bind p (andThen f)

/-- Go on with a fault. -/
def orElse (h : φ → Act κ α ω ο φ β) : Except φ β → Act κ α ω ο φ β
  | .ok x => pure x
  | .error e => h e

def catching (p : Act κ α ω ο φ β) (h : φ → Act κ α ω ο φ β) : Act κ α ω ο φ β :=
  Prog.bind p (orElse h)

/-- A check: its result, or its fault. -/
def check (r : Except φ β) : Act κ α ω ο φ β := Prog.done r

/-- Read a document. -/
def get (lost : φ) (k : κ) : Act κ α ω ο φ (Option (ℕ × α)) :=
  Prog.get k fun
    | none => .done (.error lost)
    | some r => .done (.ok r)

/-- Write a document under a tag; tells whether the tag was current. -/
def put (lost : φ) (k : κ) (tag : ℕ) (d : α) : Act κ α ω ο φ Bool :=
  Prog.put k tag d fun
    | none => .done (.error lost)
    | some b => .done (.ok b)

/-- What the world outside says. -/
def ask : Act κ α ω ο φ ω := Prog.ask fun x => .done (.ok x)

def emit (o : ο) : Act κ α ω ο φ Unit := Prog.emit o (.done (.ok ()))

theorem bind_assoc {δ : Type} (p : Act κ α ω ο φ β) (f : β → Act κ α ω ο φ γ)
    (g : γ → Act κ α ω ο φ δ) : (p >>= f) >>= g = p >>= fun x => f x >>= g := by
  refine (Prog.bind_assoc p (andThen f) (andThen g)).trans ?_
  refine congrArg (Prog.bind p) (funext fun r => ?_)
  cases r <;> rfl

/-- The faults of a loop of writes. -/
structure LoopFaults (φ : Type) where
  unread : φ
  lost : φ
  absent : φ
  contention : φ

/-- Read, compute with `f`, write, and start over if somebody else was faster. -/
def mutate (F : LoopFaults φ) (k : κ) (f : ω → α → Except φ (Option α)) :
    ℕ → Act κ α ω ο φ (Bool × α)
  | 0 => throw F.contention
  | left + 1 => do
    match ← get F.unread k with
    | none => throw F.absent
    | some (tag, d) =>
      let now ← ask
      match f now d with
      | .error e => throw e
      | .ok none => pure (false, d)
      | .ok (some d') =>
        if ← put F.lost k tag d' then pure (true, d') else mutate F k f left

end Act

/-- `Safe`, of a program that may fail. -/
def Ensures [DecidableEq κ] (T : Theory κ α ο) (stale : Bool) (n : ℕ)
    (Q : Bool → Except φ β → Store κ α ο → Prop) (p : Act κ α ω ο φ β) (waits : Bool)
    (s : Store κ α ο) : Prop := Safe T stale n Q p waits s

variable {lost : φ} {k : κ} {d : α} {F : Act.LoopFaults φ} {f : ω → α → Except φ (Option α)}

section Rules

variable [DecidableEq κ] {T : Theory κ α ο} {stale : Bool} {n : ℕ} {waits : Bool}
  {s : Store κ α ο} {Q : Bool → Except φ β → Store κ α ο → Prop}

theorem Act.safe_throw {e : φ} (h : ∀ t, Env T n waits s t → T.inv t → Q waits (.error e) t) :
    Ensures T stale n Q (Act.throw e : Act κ α ω ο φ β) waits s := h

theorem Act.safe_pure {b : β} (h : ∀ t, Env T n waits s t → T.inv t → Q waits (.ok b) t) :
    Ensures T stale n Q (pure b : Act κ α ω ο φ β) waits s := h

theorem Act.safe_check {r : Except φ β} (h : ∀ t, Env T n waits s t → T.inv t → Q waits r t) :
    Ensures T stale n Q (Act.check r : Act κ α ω ο φ β) waits s := h

theorem Act.safe_bind {p : Act κ α ω ο φ γ} {f : γ → Act κ α ω ο φ β}
    (h : Ensures T stale n (fun b r t => Ensures T stale n Q (Act.andThen f r) b t) p waits s) :
    Ensures T stale n Q (p >>= f) waits s := Safe.bind h

theorem Act.safe_catching {p : Act κ α ω ο φ β} {f : φ → Act κ α ω ο φ β}
    (h : Ensures T stale n (fun b r t => Ensures T stale n Q (Act.orElse f r) b t) p waits s) :
    Ensures T stale n Q (Act.catching p f) waits s := Safe.bind h

theorem Act.safe_get {Q : Bool → Except φ (Option (ℕ × α)) → Store κ α ο → Prop}
    (hlost : ∀ t, Env T n waits s t → T.inv t → Q waits (.error lost) t)
    (habsent : ∀ t u, Env T n waits s t → T.inv t → (stale = false → t.docs k = []) →
      Env T n waits t u → T.inv u → Q waits (.ok none) u)
    (hfound : ∀ t v older u, Env T n waits s t → T.inv t → v :: older <:+ t.docs k →
      (stale = false → t.docs k = v :: older) → Env T n waits t u → T.inv u →
      Q waits (.ok (some (older.length + 1, v.doc))) u) :
    Ensures T stale n Q (Act.get lost k : Act κ α ω ο φ (Option (ℕ × α))) waits s :=
  Safe.get (fun _ hst _ u htu hu => hlost u (hst.trans htu) hu)
    (fun t hst ht hd u htu hu => habsent t u hst ht hd htu hu)
    (fun t v older hst ht hv hd u htu hu => hfound t v older u hst ht hv hd htu hu)

theorem Act.safe_ask {Q : Bool → Except φ ω → Store κ α ο → Prop}
    (h : ∀ x t, Env T n waits s t → T.inv t → Q waits (.ok x) t) :
    Ensures T stale n Q (Act.ask : Act κ α ω ο φ ω) waits s :=
  fun _ hst _ x u htu hu => h x u (hst.trans htu) hu

theorem Act.safe_emit {Q : Bool → Except φ Unit → Store κ α ο → Prop} {o : ο}
    (hact : ∀ t, Env T n waits s t → T.inv t → T.inv (t.act n o) ∧ T.may t (t.act n o))
    (h : ∀ t u, Env T n waits s t → T.inv t → Env T n waits (t.act n o) u → T.inv u →
      Q waits (.ok ()) u) :
    Ensures T stale n Q (Act.emit o : Act κ α ω ο φ Unit) waits s := by
  intro t hst ht
  obtain ⟨hi, hm⟩ := hact t hst ht
  exact ⟨hi, hm, fun u htu hu => h t u hst ht htu hu⟩

/-- The creation of a document. -/
theorem Act.safe_create {Q : Bool → Except φ Bool → Store κ α ο → Prop}
    (hwrite : ∀ t, T.may s t → T.inv t → t.docs k = [] →
      T.inv (t.write n k d) ∧ T.may t (t.write n k d))
    (htrue : ∀ t u, Env T n waits s t → T.inv t → t.docs k = [] → Env T n waits (t.write n k d) u →
      T.inv u → Q waits (.ok true) u)
    (hfalse : ∀ t u, Env T n waits s t → T.inv t → t.docs k ≠ [] → Env T n waits t u → T.inv u →
      Q waits (.ok false) u)
    (hlost : ∀ t, T.inv t → Q false (.error lost) t) :
    Ensures T stale n Q (Act.put lost k 0 d : Act κ α ω ο φ Bool) waits s :=
  Safe.create hwrite (fun t hst ht hd u htu hu => htrue t u hst ht hd htu hu)
    (fun t hst ht hd u htu hu => hfalse t u hst ht hd htu hu) (fun _ _ _ u _ hu => hlost u hu)

/-- THE LOOP: `P` holds until the loop writes. The callback sees some version `v` (`hseen`), and
    when its next version is written, `v` is the newest (`hwrite`, `htrue`). -/
theorem Act.safe_mutate {Q : Bool → Except φ (Bool × α) → Store κ α ο → Prop}
    {P : Store κ α ο → Prop}
    (hP : ∀ t u, Env T n waits t u → T.inv u → P t → P u)
    (hunread : ∀ t, T.inv t → Q waits (.error F.unread) t)
    (hlost : ∀ t, T.inv t → Q false (.error F.lost) t)
    (hcontention : ∀ t, T.inv t → Q waits (.error F.contention) t)
    (habsent : ∀ t u, P t → T.inv t → (stale = false → t.docs k = []) → Env T n waits t u →
      T.inv u → Q waits (.error F.absent) u)
    (hseen : ∀ t v older now u, P t → T.inv t → v :: older <:+ t.docs k →
      (stale = false → t.docs k = v :: older) → Env T n waits t u → T.inv u →
      (∀ e, f now v.doc = .error e → Q waits (.error e) u) ∧
      (f now v.doc = .ok none → Q waits (.ok (false, v.doc)) u))
    (hwrite : ∀ t v older now d, T.may s t → T.inv t → t.docs k = v :: older →
      f now v.doc = .ok (some d) → T.inv (t.write n k d) ∧ T.may t (t.write n k d))
    (htrue : ∀ t v older now d u, P t → T.inv t → t.docs k = v :: older →
      f now v.doc = .ok (some d) → Env T n waits (t.write n k d) u → T.inv u →
      Q waits (.ok (true, d)) u) (hs : P s) (left : ℕ) :
    Ensures T stale n Q (Act.mutate F k f left : Act κ α ω ο φ (Bool × α)) waits s := by
  -- `may s` goes on with the loop, `P` with every read
  have hloop : ∀ left t, T.may s t → P t → Ensures T stale n Q (Act.mutate F k f left :
      Act κ α ω ο φ (Bool × α)) waits t := by
    intro left
    induction left with
    | zero => exact fun t _ _ => Act.safe_throw fun u _ hu => hcontention u hu
    | succ left ih =>
      intro t hst ht
      refine Act.safe_bind (Act.safe_get ?_ ?_ ?_)
      · exact fun u _ _ => Act.safe_throw fun x _ hx => hunread x hx
      · intro r u htr hr hd hru hu
        have hr' := hP t r htr hr ht
        exact Act.safe_throw fun x hux hx => habsent r x hr' hr hd (hru.trans hux) hx
      · intro r v older u htr hr hv hd hru hu
        have hPr := hP t r htr hr ht
        refine Act.safe_bind (Act.safe_ask fun now x hux hx => ?_)
        have hrx := hru.trans hux
        have hPx := hP r x hrx hx hPr
        show Ensures T stale n Q (match f now v.doc with
          | .error e => Act.throw e
          | .ok none => pure (false, v.doc)
          | .ok (some d') => do
            if ← Act.put F.lost k (older.length + 1) d' then pure (true, d')
            else Act.mutate F k f left) waits x
        cases hf : f now v.doc with
        | error e =>
          exact Act.safe_throw fun y hxy hy =>
            (hseen r v older now y hPr hr hv hd (hrx.trans hxy) hy).1 e hf
        | ok o =>
          cases o with
          | none =>
            exact Act.safe_pure fun y hxy hy =>
              (hseen r v older now y hPr hr hv hd (hrx.trans hxy) hy).2 hf
          | some d' =>
            have hmay : T.may s x := T.trans hst (T.trans htr.may hrx.may)
            refine Act.safe_bind (Safe.put (hv.trans (T.grows hrx.may k)) ?_ ?_ ?_ ?_)
            · exact fun y hxy hy hdy => hwrite y v older now d' (T.trans hmay hxy) hy hdy hf
            · intro y hxy hy hdy z hyz hz
              exact Act.safe_pure fun a hza ha =>
                htrue y v older now d' a (hP x y hxy hy hPx) hy hdy hf (hyz.trans hza) ha
            · intro y hxy hy z hyz hz
              exact ih z (T.trans hmay (hxy.trans hyz).may) (hP x z (hxy.trans hyz) hz hPx)
            · intro y _ _ z _ hz
              exact Act.safe_throw fun a _ ha => hlost a ha
  exact hloop left s (T.refl s) hs

/-- A loop whose callback finds nothing to write in the newest version ends with its first read. -/
theorem Act.safe_mutate_seen {Q : Bool → Except φ (Bool × α) → Store κ α ο → Prop}
    (hunread : ∀ t, T.inv t → Q waits (.error F.unread) t)
    (hpresent : ∀ t, T.inv t → t.docs k ≠ [])
    (hseen : ∀ t v older now u, T.inv t → t.docs k = v :: older → T.inv u →
      (∃ e, f now v.doc = .error e ∧ Q waits (.error e) u) ∨
      f now v.doc = .ok none ∧ Q waits (.ok (false, v.doc)) u) (left : ℕ) :
    Ensures T false n Q (Act.mutate F k f (left + 1) : Act κ α ω ο φ (Bool × α)) waits s := by
  refine Act.safe_bind (Act.safe_get ?_ ?_ ?_)
  · exact fun t _ _ => Act.safe_throw fun u _ hu => hunread u hu
  · exact fun t u _ ht hdocs _ _ => absurd (hdocs rfl) (hpresent t ht)
  · intro t v older u _ ht _ hdocs _ _
    refine Act.safe_bind (Act.safe_ask fun now x _ _ => ?_)
    show Ensures T false n Q (match f now v.doc with
      | .error e => Act.throw e
      | .ok none => pure (false, v.doc)
      | .ok (some d') => do
        if ← Act.put F.lost k (older.length + 1) d' then pure (true, d')
        else Act.mutate F k f left) waits x
    cases hf : f now v.doc with
    | error e =>
      refine Act.safe_throw fun y _ hy => ?_
      rcases hseen t v older now y ht (hdocs rfl) hy with ⟨e', he, hq⟩ | ⟨hnone, -⟩
      · cases he.symm.trans hf
        exact hq
      · rw [hf] at hnone
        cases hnone
    | ok o =>
      cases o with
      | none =>
        refine Act.safe_pure fun y _ hy => ?_
        rcases hseen t v older now y ht (hdocs rfl) hy with ⟨e', he, -⟩ | ⟨-, hq⟩
        · rw [hf] at he
          cases he
        · exact hq
      | some d' =>
        rcases hseen t v older now t ht (hdocs rfl) ht with ⟨e', he, -⟩ | ⟨hnone, -⟩
        · rw [hf] at he
          cases he
        · rw [hf] at hnone
          cases hnone

end Rules

/-! ### What is written -/

/-- `Prog.Only`, of a program that may fail. -/
def Act.Only (W : κ → α → Prop) (p : Act κ α ω ο φ β) : Prop := Prog.Only W p

section Only

variable {W : κ → α → Prop}

theorem Act.only_bind {p : Act κ α ω ο φ γ} {f : γ → Act κ α ω ο φ β} (h : Act.Only W p)
    (hf : ∀ x, Act.Only W (f x)) : Act.Only W (p >>= f) := by
  refine Prog.Only.bind h fun r => ?_
  cases r with
  | error e => trivial
  | ok x => exact hf x

theorem Act.only_put {tag : ℕ} (h : W k d) :
    Act.Only W (Act.put lost k tag d : Act κ α ω ο φ Bool) := by
  refine ⟨h, fun r => ?_⟩
  cases r <;> trivial

/-- The loop writes what its callback makes of some version. -/
theorem Act.only_mutate (h : ∀ now d d', f now d = .ok (some d') → W k d') (left : ℕ) :
    Act.Only W (Act.mutate F k f left : Act κ α ω ο φ (Bool × α)) := by
  induction left with
  | zero => trivial
  | succ left ih =>
    refine Act.only_bind (fun r => by cases r <;> trivial) fun r => ?_
    cases r with
    | none => trivial
    | some v =>
      refine Act.only_bind (fun _ => trivial) fun now => ?_
      show Act.Only W (match f now v.2 with
        | .error e => Act.throw e
        | .ok none => pure (false, v.2)
        | .ok (some d') => do
          if ← Act.put F.lost k v.1 d' then pure (true, d') else Act.mutate F k f left)
      cases hf : f now v.2 with
      | error e => trivial
      | ok o =>
        cases o with
        | none => trivial
        | some d' =>
          refine Act.only_bind (Act.only_put (h now v.2 d' hf)) fun b => ?_
          cases b with
          | true => trivial
          | false => exact ih

end Only

/-! ### Results only -/

/-- `Ensures`, where nothing is promised of a fault. -/
def Returns [DecidableEq κ] (T : Theory κ α ο) (stale : Bool) (n : ℕ)
    (P : Bool → β → Store κ α ο → Prop) (p : Act κ α ω ο φ β) (waits : Bool)
    (s : Store κ α ο) : Prop :=
  Ensures T stale n (fun b r t => ∀ x, r = .ok x → P b x t) p waits s

section Returns

variable [DecidableEq κ] {T : Theory κ α ο} {stale : Bool} {n : ℕ} {waits : Bool}
  {s : Store κ α ο} {P P' : Bool → β → Store κ α ο → Prop} {p : Act κ α ω ο φ β}

theorem Returns.mono (h : Returns T stale n P p waits s)
    (hP : ∀ b x t, T.inv t → P b x t → P' b x t) : Returns T stale n P' p waits s :=
  Safe.mono h fun b _ t ht hx x hr => hP b x t ht (hx x hr)

theorem Returns.throw {e : φ} : Returns T stale n P (Act.throw e : Act κ α ω ο φ β) waits s :=
  Act.safe_throw fun _ _ _ _ h => nomatch h

theorem Returns.pure {x : β} (h : ∀ t, Env T n waits s t → T.inv t → P waits x t) :
    Returns T stale n P (pure x : Act κ α ω ο φ β) waits s :=
  Act.safe_pure fun t hst ht _ hx => Except.ok.inj hx ▸ h t hst ht

theorem Returns.bind {p : Act κ α ω ο φ γ} {f : γ → Act κ α ω ο φ β}
    (h : Returns T stale n (fun b x t => Returns T stale n P (f x) b t) p waits s) :
    Returns T stale n P (p >>= f) waits s := by
  refine Act.safe_bind (Safe.mono h fun b r t _ hr => ?_)
  cases r with
  | error e => exact Returns.throw
  | ok x => exact hr x rfl

theorem Returns.catching {p : Act κ α ω ο φ β} {f : φ → Act κ α ω ο φ β}
    (h : Returns T stale n P p waits s) (hf : ∀ e b t, Returns T stale n P (f e) b t) :
    Returns T stale n P (Act.catching p f) waits s := by
  refine Act.safe_catching (Safe.mono (Safe.always h) fun b r t _ hr => ?_)
  cases r with
  | error e => exact hf e b t
  | ok x => exact Returns.pure fun u htu hu => hr u htu hu x rfl

theorem Returns.check {r : Except φ β} (h : ∀ x, r = .ok x → ∀ t, Env T n waits s t → T.inv t →
    P waits x t) : Returns T stale n P (Act.check r : Act κ α ω ο φ β) waits s :=
  Act.safe_check fun t hst ht x hx => h x hx t hst ht

theorem Returns.ask {P : Bool → ω → Store κ α ο → Prop}
    (h : ∀ x t, Env T n waits s t → T.inv t → P waits x t) :
    Returns T stale n P (Act.ask : Act κ α ω ο φ ω) waits s :=
  Act.safe_ask fun x t hst ht _ hx => Except.ok.inj hx ▸ h x t hst ht

theorem Returns.emit {P : Bool → Unit → Store κ α ο → Prop} {o : ο}
    (hact : ∀ t, Env T n waits s t → T.inv t → T.inv (t.act n o) ∧ T.may t (t.act n o))
    (h : ∀ t u, Env T n waits s t → T.inv t → Env T n waits (t.act n o) u → T.inv u →
      P waits () u) :
    Returns T stale n P (Act.emit o : Act κ α ω ο φ Unit) waits s :=
  Act.safe_emit hact fun t u hst ht htu hu _ _ => h t u hst ht htu hu

/-- A read tells something about a version of the document. -/
theorem Returns.get {P : Bool → Option (ℕ × α) → Store κ α ο → Prop}
    (habsent : ∀ t, Env T n waits s t → T.inv t → P waits none t)
    (hfound : ∀ t v older, Env T n waits s t → T.inv t → v :: older <:+ t.docs k →
      P waits (some (older.length + 1, v.doc)) t) :
    Returns T stale n P (Act.get lost k : Act κ α ω ο φ (Option (ℕ × α))) waits s :=
  Act.safe_get (fun _ _ _ _ h => nomatch h)
    (fun _ u hst _ _ htu hu _ hx => Except.ok.inj hx ▸ habsent u (hst.trans htu) hu)
    (fun _ v older u hst _ hv _ htu hu _ hx => Except.ok.inj hx ▸
      hfound u v older (hst.trans htu) hu (hv.trans (T.grows htu.may k)))

theorem Returns.create {P : Bool → Bool → Store κ α ο → Prop}
    (hwrite : ∀ t, T.may s t → T.inv t → t.docs k = [] →
      T.inv (t.write n k d) ∧ T.may t (t.write n k d))
    (htrue : ∀ t u, Env T n waits s t → T.inv t → t.docs k = [] → Env T n waits (t.write n k d) u →
      T.inv u → P waits true u)
    (hfalse : ∀ t, Env T n waits s t → T.inv t → P waits false t) :
    Returns T stale n P (Act.put lost k 0 d : Act κ α ω ο φ Bool) waits s :=
  Act.safe_create hwrite
    (fun t u hst ht hd htu hu _ hx => Except.ok.inj hx ▸ htrue t u hst ht hd htu hu)
    (fun _ u hst _ _ htu hu _ hx => Except.ok.inj hx ▸ hfalse u (hst.trans htu) hu)
    (fun _ _ _ h => nomatch h)

theorem Returns.mutate {P : Bool → Bool × α → Store κ α ο → Prop}
    (hseen : ∀ t v older now, Env T n waits s t → T.inv t → v :: older <:+ t.docs k →
      f now v.doc = .ok none → P waits (false, v.doc) t)
    (hwrite : ∀ t v older now d, T.may s t → T.inv t → t.docs k = v :: older →
      f now v.doc = .ok (some d) → T.inv (t.write n k d) ∧ T.may t (t.write n k d))
    (htrue : ∀ t v older now d u, Env T n waits s t → T.inv t → t.docs k = v :: older →
      f now v.doc = .ok (some d) → Env T n waits (t.write n k d) u → T.inv u → P waits (true, d) u)
    (left : ℕ) :
    Returns T stale n P (Act.mutate F k f left : Act κ α ω ο φ (Bool × α)) waits s := by
  refine Act.safe_mutate (P := fun t => Env T n waits s t) (fun t u htu _ hst => hst.trans htu)
    (fun _ _ _ h => nomatch h) (fun _ _ _ h => nomatch h) (fun _ _ _ h => nomatch h)
    (fun _ _ _ _ _ _ _ _ h => nomatch h) ?_ hwrite ?_ (.refl s) left
  · intro t v older now u hst ht hv _ htu hu
    refine ⟨fun e _ _ h => (nomatch h), fun hf x hx => ?_⟩
    exact Except.ok.inj hx ▸
      hseen u v older now (hst.trans htu) hu (hv.trans (T.grows htu.may k)) hf
  · exact fun t v older now d u hst ht hd hf htu hu x hx =>
      Except.ok.inj hx ▸ htrue t v older now d u hst ht hd hf htu hu

end Returns

/-! ### Definite results -/

/-- `Ensures`, where nothing is promised of a fault that leaves open what was done (`vague`). Whoever
    ends otherwise has waited for all its writes. -/
def Definite [DecidableEq κ] (T : Theory κ α ο) (stale : Bool) (n : ℕ) (vague : φ → Prop)
    (P : Except φ β → Store κ α ο → Prop) (p : Act κ α ω ο φ β) (s : Store κ α ο) : Prop :=
  Ensures T stale n (fun b r t => (∀ e, r = .error e → ¬vague e) → b = true ∧ P r t) p true s

section Definite

variable [DecidableEq κ] {T : Theory κ α ο} {stale : Bool} {n : ℕ} {vague : φ → Prop}
  {s : Store κ α ο} {P P' : Except φ β → Store κ α ο → Prop} {p : Act κ α ω ο φ β}

theorem Definite.mono (h : Definite T stale n vague P p s)
    (hP : ∀ r t, T.inv t → P r t → P' r t) : Definite T stale n vague P' p s :=
  Safe.mono h fun _ r t ht hr hd => ⟨(hr hd).1, hP r t ht (hr hd).2⟩

theorem Definite.throw {e : φ}
    (h : vague e ∨ ∀ t, Env T n true s t → T.inv t → P (.error e) t) :
    Definite T stale n vague P (Act.throw e : Act κ α ω ο φ β) s := by
  refine Act.safe_throw fun t hst ht hd => ⟨rfl, ?_⟩
  rcases h with hv | h
  · exact absurd hv (hd e rfl)
  · exact h t hst ht

theorem Definite.pure {x : β} (h : ∀ t, Env T n true s t → T.inv t → P (.ok x) t) :
    Definite T stale n vague P (pure x : Act κ α ω ο φ β) s :=
  Act.safe_pure fun t hst ht _ => ⟨rfl, h t hst ht⟩

theorem Definite.check {r : Except φ β}
    (h : ∀ t, Env T n true s t → T.inv t → (∀ e, r = .error e → ¬vague e) → P r t) :
    Definite T stale n vague P (Act.check r : Act κ α ω ο φ β) s :=
  Act.safe_check fun t hst ht hd => ⟨rfl, h t hst ht hd⟩

theorem Definite.ask {P : Except φ ω → Store κ α ο → Prop}
    (h : ∀ x t, Env T n true s t → T.inv t → P (.ok x) t) :
    Definite T stale n vague P (Act.ask : Act κ α ω ο φ ω) s :=
  Act.safe_ask fun x t hst ht _ => ⟨rfl, h x t hst ht⟩

/-- What comes after a result, and a fault, of the first program. -/
def Then (T : Theory κ α ο) (stale : Bool) (n : ℕ) (vague : φ → Prop)
    (P : Except φ γ → Store κ α ο → Prop) (f : β → Act κ α ω ο φ γ) :
    Except φ β → Store κ α ο → Prop
  | .ok x, t => Definite T stale n vague P (f x) t
  | .error e, t => P (.error e) t

theorem Definite.bind {P : Except φ γ → Store κ α ο → Prop} {f : β → Act κ α ω ο φ γ}
    (h : Definite T stale n vague (Then T stale n vague P f) p s) :
    Definite T stale n vague P (p >>= f) s := by
  refine Act.safe_bind (Safe.mono (Safe.always h) fun b r t ht hr => ?_)
  cases r with
  | error e =>
    refine Act.safe_throw fun u htu hu hd => hr u htu hu fun e' he' => ?_
    cases he'
    exact hd e rfl
  | ok x =>
    obtain ⟨rfl, hx⟩ := hr t (.refl t) ht fun e he => by cases he
    exact hx

/-- What comes after a fault that is handled. -/
def Caught (T : Theory κ α ο) (stale : Bool) (n : ℕ) (vague : φ → Prop)
    (P : Except φ β → Store κ α ο → Prop) (f : φ → Act κ α ω ο φ β) :
    Except φ β → Store κ α ο → Prop
  | .ok x, t => P (.ok x) t
  | .error e, t => Definite T stale n vague P (f e) t

/-- The handler leaves open what was left open. -/
theorem Definite.catching {f : φ → Act κ α ω ο φ β}
    (hf : ∀ e, vague e → ∃ e', vague e' ∧ f e = Act.throw e')
    (h : Definite T stale n vague (Caught T stale n vague P f) p s) :
    Definite T stale n vague P (Act.catching p f) s := by
  refine Act.safe_catching (Safe.mono (Safe.always h) fun b r t ht hr => ?_)
  cases r with
  | ok x =>
    exact Act.safe_pure fun u htu hu _ => hr u htu hu fun e he => by cases he
  | error e =>
    by_cases hv : vague e
    · obtain ⟨e', hv', he'⟩ := hf e hv
      show Ensures T stale n _ (f e) b t
      rw [he']
      exact Act.safe_throw fun u _ _ hd => absurd hv' (hd e' rfl)
    · obtain ⟨rfl, hx⟩ := hr t (.refl t) ht fun e' he' => by cases he'; exact hv
      exact hx

theorem Definite.get {P : Except φ (Option (ℕ × α)) → Store κ α ο → Prop} (hlost : vague lost)
    (habsent : ∀ t u, Env T n true s t → T.inv t → (stale = false → t.docs k = []) →
      Env T n true t u → T.inv u → P (.ok none) u)
    (hfound : ∀ t v older u, Env T n true s t → T.inv t → v :: older <:+ t.docs k →
      (stale = false → t.docs k = v :: older) → Env T n true t u → T.inv u →
      P (.ok (some (older.length + 1, v.doc))) u) :
    Definite T stale n vague P (Act.get lost k : Act κ α ω ο φ (Option (ℕ × α))) s :=
  Act.safe_get (fun _ _ _ hd => absurd hlost (hd lost rfl))
    (fun t u hst ht hk htu hu _ => ⟨rfl, habsent t u hst ht hk htu hu⟩)
    (fun t v older u hst ht hv hk htu hu _ => ⟨rfl, hfound t v older u hst ht hv hk htu hu⟩)

theorem Definite.create {P : Except φ Bool → Store κ α ο → Prop} (hlost : vague lost)
    (hwrite : ∀ t, T.may s t → T.inv t → t.docs k = [] →
      T.inv (t.write n k d) ∧ T.may t (t.write n k d))
    (htrue : ∀ t u, Env T n true s t → T.inv t → t.docs k = [] → Env T n true (t.write n k d) u →
      T.inv u → P (.ok true) u)
    (hfalse : ∀ t u, Env T n true s t → T.inv t → t.docs k ≠ [] → Env T n true t u → T.inv u →
      P (.ok false) u) :
    Definite T stale n vague P (Act.put lost k 0 d : Act κ α ω ο φ Bool) s :=
  Act.safe_create hwrite (fun t u hst ht hk htu hu _ => ⟨rfl, htrue t u hst ht hk htu hu⟩)
    (fun t u hst ht hk htu hu _ => ⟨rfl, hfalse t u hst ht hk htu hu⟩)
    (fun _ _ hd => absurd hlost (hd lost rfl))

/-- THE LOOP, for a callback that sees version `v` (`hseen`) and whose next version follows `v`
    (`hwrite`, `htrue`). -/
theorem Definite.mutate {P : Except φ (Bool × α) → Store κ α ο → Prop}
    (hunread : vague F.unread) (hlost : vague F.lost) (hcontention : vague F.contention)
    (habsent : ∀ t u, Env T n true s t → T.inv t → (stale = false → t.docs k = []) →
      Env T n true t u → T.inv u → P (.error F.absent) u)
    (hfault : ∀ t v older now e, Env T n true s t → T.inv t → v :: older <:+ t.docs k →
      f now v.doc = .error e → vague e ∨ P (.error e) t)
    (hseen : ∀ t v older now u, Env T n true s t → T.inv t → v :: older <:+ t.docs k →
      (stale = false → t.docs k = v :: older) → f now v.doc = .ok none → Env T n true t u →
      T.inv u → P (.ok (false, v.doc)) u)
    (hwrite : ∀ t v older now d, T.may s t → T.inv t → t.docs k = v :: older →
      f now v.doc = .ok (some d) → T.inv (t.write n k d) ∧ T.may t (t.write n k d))
    (htrue : ∀ t v older now d u, Env T n true s t → T.inv t → t.docs k = v :: older →
      f now v.doc = .ok (some d) → Env T n true (t.write n k d) u → T.inv u → P (.ok (true, d)) u)
    (left : ℕ) :
    Definite T stale n vague P (Act.mutate F k f left : Act κ α ω ο φ (Bool × α)) s := by
  refine Act.safe_mutate (P := fun t => Env T n true s t) (fun t u htu _ hst => hst.trans htu)
    (fun _ _ hd => absurd hunread (hd _ rfl)) (fun _ _ hd => absurd hlost (hd _ rfl))
    (fun _ _ hd => absurd hcontention (hd _ rfl))
    (fun t u hst ht hk htu hu _ => ⟨rfl, habsent t u hst ht hk htu hu⟩) ?_ hwrite
    (fun t v older now d u hst ht hk hf htu hu _ => ⟨rfl, htrue t v older now d u hst ht hk hf htu hu⟩)
    (.refl s) left
  intro t v older now u hst ht hv hk htu hu
  refine ⟨fun e hf hd => ⟨rfl, ?_⟩, fun hf _ => ⟨rfl, hseen t v older now u hst ht hv hk hf htu hu⟩⟩
  have hv' := hv.trans (T.grows htu.may k)
  exact (hfault u v older now e (hst.trans htu) hu hv' hf).resolve_left (hd e rfl)

end Definite

/-! ### Alone -/

/-- What a loop does that finds nothing to write: it reads, asks, and goes on with what it has read. -/
theorem Act.mutate_seen {x : ω} (hf : f x d = .ok none) {g : Bool × α → Act κ α ω ο φ β}
    {r : Except φ β} (hg : g (false, d) = Act.check r) (left : ℕ) :
    ∃ next, (Act.mutate F k f (left + 1) >>= g) = Prog.get k next ∧
      ∀ tag, ∃ next', next (some (some (tag, d))) = .ask next' ∧ next' x = .done r := by
  refine ⟨_, rfl, fun tag => ⟨_, rfl, ?_⟩⟩
  show Prog.bind (match f x d with
    | .error e => Act.throw e
    | .ok none => pure (false, d)
    | .ok (some d') => do
      if ← Act.put F.lost k tag d' then pure (true, d') else Act.mutate F k f left :
        Act κ α ω ο φ (Bool × α)) (Act.andThen g) = _
  rw [hf]
  exact hg

/-- ALONE: a call whose loop finds nothing to write is answered after three steps of its own. -/
theorem play_seen [DecidableEq κ] {χ : Type} {prog : χ → Act κ α ω ο φ β} {c : χ} {x : ω}
    {g : Bool × α → Act κ α ω ο φ β} {r : Except φ β} {left : ℕ}
    (hprog : prog c = (Act.mutate F k f (left + 1) >>= g))
    {w : World κ α ω ο (Except φ β) χ} {v : Version α} {older : List (Version α)}
    (hdocs : w.store.docs k = v :: older) (hf : f x v.doc = .ok none)
    (hg : g (false, v.doc) = Act.check r) :
    (w.calls.length, r) ∈
      (w.play prog (.call c :: List.replicate 3 (.go w.calls.length x))).answers := by
  obtain ⟨next, hnext, hseen⟩ := Act.mutate_seen (F := F) (k := k) hf hg left
  obtain ⟨next', hask, hdone⟩ := hseen (older.length + 1)
  have hread : w.store.read k 0 = some (older.length + 1, v.doc) := by
    rw [Store.read, List.drop_zero, hdocs]
  let w₁ := w.move prog (.call c)
  have h₁ : w₁.running w.calls.length = some (.get k next) := by
    rw [← hnext, ← hprog]
    exact World.resume_running _ _ _
  let w₂ := w₁.resume w.calls.length (some (.ask next'))
  have h₂ : w₁.move prog (.go w.calls.length x) = w₂ := by
    refine (move_get h₁ x).trans ?_
    show w₁.resume _ (some (next (some (w.store.read k 0)))) = w₂
    rw [hread, hask]
  let w₃ := w₂.resume w.calls.length (some (.done r))
  have h₃ : w₂.move prog (.go w.calls.length x) = w₃ := by
    refine (move_ask (World.resume_running _ _ _) x).trans ?_
    rw [hdone]
  show (w.calls.length, r) ∈ (((w₁.move prog (.go w.calls.length x)).move prog
    (.go w.calls.length x)).move prog (.go w.calls.length x)).answers
  rw [h₂, h₃]
  exact move_done (World.resume_running _ _ _) x

end Truyn.Programs
