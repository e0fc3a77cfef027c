import Truyn.Js.Stable
import Truyn.Schemes.Checks

/-! js:fields | objects that are rebuilt from the members that are listed

    `readFields` reads the listed members of an object, each in its way, and `record` makes the new
    object. Two readers keep a relation between values where two values that they accept stand in it if
    and only if what they make of them is the same (`Keeps`); then so does the whole
    (`readFields_same`), with the relation of each member (`SameBy`). -/

namespace Truyn.Json

/-- What a member is turned into; a member that is not there is `undefined`. -/
abbrev Reader := Option Json → Except JsString (Option Json)

/-- `if (value !== undefined) normalized.key = read(value)`. -/
def optional (read : Option Json → Except JsString Json) : Reader
  | none => .ok none
  | some v => (read (some v)).map some

def required (read : Option Json → Except JsString Json) : Reader := fun o => (read o).map some

/-- A member that is taken as it is. -/
def keep : Reader := fun o => .ok o

def readFields (v : Json) (fields : List (JsString × Reader)) :
    Except JsString (List (JsString × Option Json)) :=
  fields.mapM fun f => (f.2 (v.get f.1)).map fun o => (f.1, o)

/-- Two objects are the same in the listed members, each compared in its way. -/
def SameBy (members : List (JsString × (Json → Json → Prop))) (v w : Json) : Prop :=
  ∀ p ∈ members, Option.Rel p.2 (v.get p.1) (w.get p.1)

/-- Two arrays whose items stand in a relation. -/
def SameItems (r : Json → Json → Prop) : Json → Json → Prop
  | .array l, .array m => List.Forall₂ r l m
  | _, _ => False

/-- A member that is plain where it is there. -/
def PlainAt (o : Option Json) : Prop := ∀ v ∈ o, plain v = true

/-! ### Readers -/

/-- Nothing is read from nothing, and what is read of a plain value is plain. -/
structure Sound (read : Option Json → Except JsString Json) : Prop where
  missing : ∀ v, read none ≠ .ok v
  plain : ∀ {v v'}, plain v = true → read (some v) = .ok v' → plain v' = true

structure Keeps (read other : Option Json → Except JsString Json) (r : Json → Json → Prop) :
    Prop where
  left : Sound read
  right : Sound other
  same : ∀ {v w v' w'}, plain v = true → plain w = true → read (some v) = .ok v' →
    other (some w) = .ok w' → (Same v' w' ↔ r v w)

structure Reads (f g : Reader) (r : Json → Json → Prop) : Prop where
  plain : ∀ {o o'}, PlainAt o → f o = .ok o' → PlainAt o'
  same : ∀ {o p o' p'}, PlainAt o → PlainAt p → f o = .ok o' → g p = .ok p' →
    (Option.Rel Same o' p' ↔ Option.Rel r o p)

variable {read other : Option Json → Except JsString Json} {r : Json → Json → Prop}

theorem rel_some {v w : Json} : Option.Rel r (some v) (some w) ↔ r v w := by simp

theorem plainAt_some {v : Json} : PlainAt (some v) ↔ plain v = true := by simp [PlainAt]

theorem Sound.required (h : Sound read) {o o' : Option Json} (ho : PlainAt o)
    (hread : required read o = .ok o') : PlainAt o' := by
  obtain ⟨v', hv', rfl⟩ := Checks.map_ok.mp hread
  cases o with
  | none => exact absurd hv' (h.missing v')
  | some v => exact plainAt_some.mpr (h.plain (plainAt_some.mp ho) hv')

theorem Sound.optional (h : Sound read) {o o' : Option Json} (ho : PlainAt o)
    (hread : optional read o = .ok o') : PlainAt o' := by
  cases o with
  | none =>
    cases hread
    exact ho
  | some v => exact h.required ho hread

theorem Keeps.required (h : Keeps read other r) : Reads (required read) (required other) r where
  plain := h.left.required
  same {o p o' p'} ho hp hread hread' := by
    obtain ⟨v', hv', rfl⟩ := Checks.map_ok.mp hread
    obtain ⟨w', hw', rfl⟩ := Checks.map_ok.mp hread'
    cases o with
    | none => exact absurd hv' (h.left.missing v')
    | some v =>
      cases p with
      | none => exact absurd hw' (h.right.missing w')
      | some w =>
        rw [rel_some, rel_some]
        exact h.same (plainAt_some.mp ho) (plainAt_some.mp hp) hv' hw'

theorem Keeps.optional (h : Keeps read other r) : Reads (optional read) (optional other) r where
  plain := h.left.optional
  same {o p o' p'} ho hp hread hread' := by
    cases o with
    | none =>
      cases hread
      cases p with
      | none =>
        cases hread'
        simp
      | some w =>
        obtain ⟨w', -, rfl⟩ := Checks.map_ok.mp hread'
        simp
    | some v =>
      cases p with
      | none =>
        obtain ⟨v', -, rfl⟩ := Checks.map_ok.mp hread
        cases hread'
        simp
      | some w => exact h.required.same ho hp hread hread'

theorem reads_keep : Reads keep keep Same where
  plain ho hread := by
    cases hread
    exact ho
  same _ _ hread hread' := by
    cases hread
    cases hread'
    rfl

/-! ### A whole object -/

/-- Two lists of readers that keep, member by member, the relations listed. -/
inductive Listed : List (JsString × Reader) → List (JsString × Reader) →
    List (JsString × (Json → Json → Prop)) → Prop
  | nil : Listed [] [] []
  | cons {k f g r fields others members} (first : Reads f g r)
      (rest : Listed fields others members) :
      Listed ((k, f) :: fields) ((k, g) :: others) ((k, r) :: members)

variable {fields others more : List (JsString × Reader)}
  {members : List (JsString × (Json → Json → Prop))} {v w : Json}
  {out out' rest : List (JsString × Option Json)}

theorem Listed.keys (h : Listed fields others members) :
    others.map Prod.fst = fields.map Prod.fst := by
  induction h with
  | nil => rfl
  | cons _ _ ih => rw [List.map_cons, List.map_cons, ih]

theorem readFields_cons {f : JsString × Reader} :
    readFields v (f :: fields) = .ok out ↔ ∃ o out₁, f.2 (v.get f.1) = .ok o ∧
      readFields v fields = .ok out₁ ∧ out = (f.1, o) :: out₁ := by
  simp only [readFields, List.mapM_cons, Checks.bind_ok, Checks.pure_ok, Checks.map_ok]
  constructor
  · rintro ⟨_, ⟨o, ho, rfl⟩, out₁, hout, rfl⟩
    exact ⟨o, out₁, ho, hout, rfl⟩
  · rintro ⟨o, out₁, ho, hout, rfl⟩
    exact ⟨_, ⟨o, ho, rfl⟩, out₁, hout, rfl⟩

theorem readFields_append (h : readFields v fields = .ok out)
    (hrest : readFields v more = .ok rest) : readFields v (fields ++ more) = .ok (out ++ rest) := by
  induction fields generalizing out with
  | nil =>
    cases h
    exact hrest
  | cons f fields ih =>
    obtain ⟨o, out₁, ho, hout, rfl⟩ := readFields_cons.mp h
    exact readFields_cons.mpr ⟨o, _, ho, ih hout, rfl⟩

theorem keys_readFields (h : readFields v fields = .ok out) :
    out.map Prod.fst = fields.map Prod.fst := by
  induction fields generalizing out with
  | nil =>
    cases h
    rfl
  | cons f fields ih =>
    obtain ⟨o, out₁, -, hout, rfl⟩ := readFields_cons.mp h
    rw [List.map_cons, List.map_cons, ih hout]

theorem plain_get {k : JsString} (h : plain v = true) : PlainAt (v.get k) := by
  intro u hu
  match v with
  | .object m =>
    obtain ⟨p, hp, rfl⟩ := Option.map_eq_some_iff.mp hu
    exact plain_of_member (plain_object.mp h).2.2 (List.mem_of_find?_eq_some hp)
  | .null | .bool _ | .number _ | .string _ | .array _ => cases hu

theorem plain_readFields (hlisted : Listed fields others members) (hv : plain v = true)
    (h : readFields v fields = .ok out) : ∀ f ∈ out, PlainAt f.2 := by
  induction hlisted generalizing out with
  | nil =>
    cases h
    simp
  | cons first _ ih =>
    obtain ⟨o, out₁, ho, hout, rfl⟩ := readFields_cons.mp h
    exact List.forall_mem_cons.mpr ⟨first.plain (plain_get hv) ho, ih hout⟩

theorem rel_readFields (hlisted : Listed fields others members) (hv : plain v = true)
    (hw : plain w = true) (h : readFields v fields = .ok out)
    (h' : readFields w others = .ok out') :
    List.Forall₂ (fun f g => Option.Rel Same f.2 g.2) out out' ↔ SameBy members v w := by
  induction hlisted generalizing out out' with
  | nil =>
    cases h
    cases h'
    simp [SameBy]
  | cons first _ ih =>
    obtain ⟨o, out₁, ho, hout, rfl⟩ := readFields_cons.mp h
    obtain ⟨o', out₁', ho', hout', rfl⟩ := readFields_cons.mp h'
    rw [List.forall₂_cons, ih hout hout', SameBy, SameBy, List.forall_mem_cons,
      first.same (plain_get hv) (plain_get hw) ho ho']

/-- The objects that are rebuilt are the same where the listed members are. -/
theorem readFields_same (hlisted : Listed fields others members)
    (hnodup : (fields.map Prod.fst).Nodup) (hv : plain v = true) (hw : plain w = true)
    (h : readFields v fields = .ok out) (h' : readFields w others = .ok out') :
    Same (.object (record out)) (.object (record out')) ↔ SameBy members v w := by
  have hkeys := keys_readFields h
  have hkeys' := (keys_readFields h').trans hlisted.keys
  rw [same_record (hkeys.trans hkeys'.symm) (hkeys ▸ hnodup), rel_readFields hlisted hv hw h h']

theorem readFields_plain (hlisted : Listed fields others members)
    (hnodup : (fields.map Prod.fst).Nodup) (hproto : js "__proto__" ∉ fields.map Prod.fst)
    (hv : plain v = true) (h : readFields v fields = .ok out) :
    plain (.object (record out)) = true := by
  have hkeys := keys_readFields h
  exact plain_record (hkeys ▸ hnodup) (hkeys ▸ hproto) (plain_readFields hlisted hv h)

end Truyn.Json
