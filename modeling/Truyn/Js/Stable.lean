import Truyn.Js.Buffers
import Truyn.Schemes.Maps

/-! js:stable | JSON values that differ in the order of members only, and the one text that they have

    `normalize` and `stableValue` rebuild an object with its keys in order. Two values have one normal form
    if and only if they are the same (`normalize_eq_iff`). `stableValue` does so by assignments, and one to
    `__proto__` makes no member: it is the normal form of a value that has no such key
    (`stableValue_eq_normalize`). -/

namespace Truyn.Json

/-! ### Values -/

mutual

/-- The same value, whatever the order of members. -/
def Same : Json → Json → Prop
  | .null, .null => True
  | .bool b, .bool c => b = c
  | .number n, .number m => n = m
  | .string s, .string t => s = t
  | .array l, .array m => SameAll l m
  | .object l, .object m => l.length = m.length ∧ SameMembers l m
  | _, _ => False

def SameAll : List Json → List Json → Prop
  | [], [] => True
  | v :: l, w :: m => Same v w ∧ SameAll l m
  | _, _ => False

/-- Each member is a member of the other object. -/
def SameMembers : List (JsString × Json) → List (JsString × Json) → Prop
  | [], _ => True
  | (k, v) :: l, m => (∃ w, (k, w) ∈ m ∧ Same v w) ∧ SameMembers l m

end

mutual

/-- A value whose objects have each key once; its numbers are in ASCII. -/
def regular : Json → Bool
  | .number n => n.text.all fun u => u < 0x80
  | .array l => regularAll l
  | .object m => decide (m.map Prod.fst).Nodup && regularMembers m
  | _ => true

def regularAll : List Json → Bool
  | [] => true
  | v :: l => regular v && regularAll l

def regularMembers : List (JsString × Json) → Bool
  | [] => true
  | (_, v) :: l => regular v && regularMembers l

end

mutual

/-- A value whose objects have each key once, and none of them `__proto__`; its numbers are in ASCII. -/
def plain : Json → Bool
  | .number n => n.text.all fun u => u < 0x80
  | .array l => plainAll l
  | .object m => decide (m.map Prod.fst).Nodup && !(m.map Prod.fst).contains (js "__proto__") &&
      plainMembers m
  | _ => true

def plainAll : List Json → Bool
  | [] => true
  | v :: l => plain v && plainAll l

def plainMembers : List (JsString × Json) → Bool
  | [] => true
  | (_, v) :: l => plain v && plainMembers l

end

mutual

def stableValue : Json → Json
  | .array l => .array (stableAll l)
  | .object m => .object (fromSorted (stableMembers m))
  | .null => .null
  | .bool b => .bool b
  | .number n => .number n
  | .string s => .string s

def stableAll : List Json → List Json
  | [] => []
  | v :: l => stableValue v :: stableAll l

/-- `output[key] = stableValue(value[key])`. -/
def stableMembers : List (JsString × Json) → List (JsString × Json)
  | [] => []
  | (k, v) :: l =>
    if k = js "__proto__" then stableMembers l else (k, stableValue v) :: stableMembers l

end

/-- `Buffer.from(JSON.stringify(stableValue(value)), 'utf8')`. -/
def stableBytes (v : Json) : List UInt8 := utf8 (stableValue v).text

variable {m l : List (JsString × Json)} {v w : Json} {k : JsString}

/-! ### Regular values -/

theorem regularMembers_iff :
    regularMembers m = true ↔ ∀ p ∈ m, regular p.2 = true := by
  induction m with
  | nil => simp [regularMembers]
  | cons p m ih => rw [regularMembers, Bool.and_eq_true, ih, List.forall_mem_cons]

theorem regular_object : regular (.object m) = true ↔
    (m.map Prod.fst).Nodup ∧ regularMembers m = true := by
  rw [regular, Bool.and_eq_true, decide_eq_true_eq]

theorem keys_fromSorted (m : List (JsString × Json)) :
    ((fromSorted m).map Prod.fst).Perm (m.map Prod.fst) := (fromSorted_perm m).map _

/-- Members with different keys, in whatever order they come. -/
theorem fromSorted_of_perm (h : l.Perm m) (hl : (l.map Prod.fst).Nodup) :
    fromSorted l = fromSorted m := by
  have hsorted : l.insertionSort (fun p q => unitsLe p.1 q.1 = true) =
      m.insertionSort fun p q => unitsLe p.1 q.1 = true := by
    have htrans : IsTrans (JsString × Json) fun p q => unitsLe p.1 q.1 = true :=
      ⟨fun p q r => unitsLe_trans p.1 q.1 r.1⟩
    have htotal : Std.Total fun p q : JsString × Json => unitsLe p.1 q.1 = true :=
      ⟨fun p q => by simpa using unitsLe_total p.1 q.1⟩
    refine ((List.perm_insertionSort _ l).trans (h.trans (List.perm_insertionSort _ m).symm)).eq_of_pairwise
      (fun p q hp hq hpq hqp => ?_) (List.pairwise_insertionSort _ l) (List.pairwise_insertionSort _ m)
    have hp' := (List.perm_insertionSort _ l).subset hp
    have hq' := h.symm.subset ((List.perm_insertionSort _ m).subset hq)
    exact List.inj_on_of_nodup_map hl hp' hq' (unitsLe_antisymm p.1 q.1 hpq hqp)
  rw [fromSorted, fromSorted, hsorted]

/-! ### One normal form -/

theorem normalizeMembers_eq (m : List (JsString × Json)) :
    normalizeMembers m = m.map fun p => (p.1, p.2.normalize) := by
  induction m with
  | nil => rfl
  | cons p m ih => rw [normalizeMembers, ih, List.map_cons]

mutual

/-- By recursion on the value; the members of an object are those of the other one. -/
theorem normalize_eq_iff : ∀ {v w : Json}, regular v = true → regular w = true →
    (v.normalize = w.normalize ↔ Same v w)
  | .null, w, _, _ => by cases w <;> simp [normalize, Same]
  | .bool b, w, _, _ => by cases w <;> simp [normalize, Same]
  | .number n, w, _, _ => by cases w <;> simp [normalize, Same]
  | .string s, w, _, _ => by cases w <;> simp [normalize, Same]
  | .array l, w, hv, hw => by
    cases w with
    | array m =>
      rw [normalize, normalize, Json.array.injEq, Same]
      exact normalizeAll_eq_iff hv hw
    | _ => simp [normalize, Same]
  | .object l, w, hv, hw => by
    cases w with
    | object m =>
      obtain ⟨hl, hlregular⟩ := regular_object.mp hv
      obtain ⟨hm, hmregular⟩ := regular_object.mp hw
      rw [normalize, normalize, Json.object.injEq, Same, normalizeMembers_eq, normalizeMembers_eq,
        ← sameMembers_iff hlregular hmregular]
      have hkeys : ∀ {n : List (JsString × Json)}, (n.map Prod.fst).Nodup →
          ((n.map fun p => (p.1, p.2.normalize)).map Prod.fst).Nodup := fun hn => by
        rwa [List.map_map]
      constructor
      · intro h
        have hperm : (l.map fun p => (p.1, p.2.normalize)).Perm
            (m.map fun p => (p.1, p.2.normalize)) :=
          (fromSorted_perm _).symm.trans (h ▸ fromSorted_perm _)
        exact ⟨by simpa using hperm.length_eq, hperm.subset⟩
      · rintro ⟨hlength, hsub⟩
        refine fromSorted_of_perm ?_ (hkeys hl)
        refine (List.subperm_of_subset (List.Nodup.of_map _ (hkeys hl)) hsub).perm_of_length_le ?_
        simp [hlength]
    | _ => simp [normalize, Same]

theorem normalizeAll_eq_iff : ∀ {l m : List Json}, regularAll l = true → regularAll m = true →
    (normalizeAll l = normalizeAll m ↔ SameAll l m)
  | [], [], _, _ => by simp [SameAll]
  | [], _ :: _, _, _ => by simp [normalizeAll, SameAll]
  | _ :: _, [], _, _ => by simp [normalizeAll, SameAll]
  | v :: l, w :: m, hl, hm => by
    rw [regularAll, Bool.and_eq_true] at hl hm
    rw [normalizeAll, normalizeAll, List.cons.injEq, SameAll, normalize_eq_iff hl.1 hm.1,
      normalizeAll_eq_iff hl.2 hm.2]

theorem sameMembers_iff : ∀ {l m : List (JsString × Json)}, regularMembers l = true →
    regularMembers m = true → ((l.map fun p => (p.1, p.2.normalize)) ⊆
      (m.map fun p => (p.1, p.2.normalize)) ↔ SameMembers l m)
  | [], m, _, _ => by simp [SameMembers]
  | (k, v) :: l, m, hl, hm => by
    rw [regularMembers, Bool.and_eq_true] at hl
    rw [List.map_cons, List.cons_subset, SameMembers, sameMembers_iff hl.2 hm]
    refine and_congr_left fun _ => ?_
    simp only [List.mem_map, Prod.mk.injEq, Prod.exists]
    constructor
    · rintro ⟨k', w, hmem, rfl, hw⟩
      exact ⟨w, hmem, (normalize_eq_iff hl.1 (regularMembers_iff.mp hm _ hmem)).mp hw.symm⟩
    · rintro ⟨w, hmem, hsame⟩
      exact ⟨k, w, hmem, rfl, ((normalize_eq_iff hl.1 (regularMembers_iff.mp hm _ hmem)).mpr hsame).symm⟩

end

/-! ### The text of a regular value -/

mutual

theorem checkUnicode_text : ∀ {v : Json}, regular v = true → checkUnicode v.text = true
  | .null, _ => by decide
  | .bool b, _ => by cases b <;> decide
  | .number n, h => checkUnicode_ascii fun u hu => by simpa using List.all_eq_true.mp h u hu
  | .string s, _ => checkUnicode_quote s
  | .array _, h => checkUnicode_array (checkUnicode_texts h)
  | .object _, h => checkUnicode_object (checkUnicode_memberTexts (regular_object.mp h).2)

theorem checkUnicode_texts : ∀ {l : List Json}, regularAll l = true →
    ∀ t ∈ texts l, checkUnicode t = true
  | [], _, t, ht => by cases ht
  | v :: l, h, t, ht => by
    rw [regularAll, Bool.and_eq_true] at h
    rcases List.mem_cons.mp ht with rfl | ht
    · exact checkUnicode_text h.1
    · exact checkUnicode_texts h.2 t ht

theorem checkUnicode_memberTexts : ∀ {m : List (JsString × Json)}, regularMembers m = true →
    ∀ p ∈ memberTexts m, checkUnicode p.2 = true
  | [], _, p, hp => by cases hp
  | (k, v) :: m, h, p, hp => by
    rw [regularMembers, Bool.and_eq_true] at h
    rcases List.mem_cons.mp hp with rfl | hp
    · exact checkUnicode_text h.1
    · exact checkUnicode_memberTexts h.2 p hp

end

mutual

theorem regular_normalize : ∀ {v : Json}, regular v = true → regular v.normalize = true
  | .null, _ => rfl
  | .bool _, _ => rfl
  | .number _, h => h
  | .string _, _ => rfl
  | .array _, h => regular_normalizeAll h
  | .object m, h => by
    obtain ⟨hnodup, hregular⟩ := regular_object.mp h
    have hmembers := regularMembers_iff.mp (regular_normalizeMembers hregular)
    rw [normalize, regular_object]
    refine ⟨(keys_fromSorted _).nodup_iff.mpr ?_,
      regularMembers_iff.mpr fun p hp => hmembers p ((fromSorted_perm _).subset hp)⟩
    rw [normalizeMembers_eq, List.map_map]
    exact hnodup

theorem regular_normalizeAll : ∀ {l : List Json}, regularAll l = true →
    regularAll (normalizeAll l) = true
  | [], _ => rfl
  | v :: l, h => by
    rw [regularAll, Bool.and_eq_true] at h
    rw [normalizeAll, regularAll, Bool.and_eq_true]
    exact ⟨regular_normalize h.1, regular_normalizeAll h.2⟩

theorem regular_normalizeMembers : ∀ {m : List (JsString × Json)}, regularMembers m = true →
    regularMembers (normalizeMembers m) = true
  | [], _ => rfl
  | (k, v) :: m, h => by
    rw [regularMembers, Bool.and_eq_true] at h
    rw [normalizeMembers, regularMembers, Bool.and_eq_true]
    exact ⟨regular_normalize h.1, regular_normalizeMembers h.2⟩

end

/-- The bytes of the normal form tell the value. -/
theorem normalBytes_eq_iff (hv : regular v = true) (hw : regular w = true) :
    utf8 v.normalize.text = utf8 w.normalize.text ↔ Same v w := by
  rw [← normalize_eq_iff hv hw]
  refine ⟨fun h => text_injective (eq_of_utf8 ?_ ?_ h), fun h => by rw [h]⟩
  · exact checkUnicode_text (regular_normalize hv)
  · exact checkUnicode_text (regular_normalize hw)

/-! ### Plain values -/

theorem plain_of_member (h : plainMembers m = true) {p : JsString × Json} (hp : p ∈ m) :
    plain p.2 = true := by
  induction m with
  | nil => cases hp
  | cons q m ih =>
    rw [plainMembers, Bool.and_eq_true] at h
    rcases List.mem_cons.mp hp with rfl | hp
    · exact h.1
    · exact ih h.2 hp

theorem plainMembers_iff :
    plainMembers m = true ↔ ∀ p ∈ m, plain p.2 = true := by
  refine ⟨fun h p hp => plain_of_member h hp, fun h => ?_⟩
  induction m with
  | nil => rfl
  | cons q m ih =>
    rw [plainMembers, Bool.and_eq_true]
    exact ⟨h q List.mem_cons_self, ih fun p hp => h p (List.mem_cons_of_mem _ hp)⟩

theorem plain_object : plain (.object m) = true ↔
    (m.map Prod.fst).Nodup ∧ js "__proto__" ∉ m.map Prod.fst ∧ plainMembers m = true := by
  simp only [plain, Bool.and_eq_true, decide_eq_true_eq, Bool.not_eq_true', and_assoc]
  simp [List.contains_eq_mem]

theorem stableMembers_eq (h : js "__proto__" ∉ m.map Prod.fst) :
    stableMembers m = m.map fun p => (p.1, stableValue p.2) := by
  induction m with
  | nil => rfl
  | cons p m ih =>
    obtain ⟨k, v⟩ := p
    rw [List.map_cons, List.mem_cons, not_or] at h
    rw [stableMembers, if_neg (Ne.symm h.1), ih h.2, List.map_cons]

mutual

theorem regular_of_plain : ∀ {v : Json}, plain v = true → regular v = true
  | .null, _ => rfl
  | .bool _, _ => rfl
  | .number _, h => h
  | .string _, _ => rfl
  | .array _, h => regularAll_of_plain h
  | .object _, h => regular_object.mpr
    ⟨(plain_object.mp h).1, regularMembers_of_plain (plain_object.mp h).2.2⟩

theorem regularAll_of_plain : ∀ {l : List Json}, plainAll l = true → regularAll l = true
  | [], _ => rfl
  | v :: l, h => by
    rw [plainAll, Bool.and_eq_true] at h
    rw [regularAll, Bool.and_eq_true]
    exact ⟨regular_of_plain h.1, regularAll_of_plain h.2⟩

theorem regularMembers_of_plain : ∀ {m : List (JsString × Json)}, plainMembers m = true →
    regularMembers m = true
  | [], _ => rfl
  | (k, v) :: m, h => by
    rw [plainMembers, Bool.and_eq_true] at h
    rw [regularMembers, Bool.and_eq_true]
    exact ⟨regular_of_plain h.1, regularMembers_of_plain h.2⟩

end

mutual

theorem stableValue_eq_normalize : ∀ {v : Json}, plain v = true → stableValue v = v.normalize
  | .null, _ => rfl
  | .bool _, _ => rfl
  | .number _, _ => rfl
  | .string _, _ => rfl
  | .array l, h => by rw [stableValue, normalize, stableAll_eq_normalizeAll h]
  | .object m, h => by
    obtain ⟨-, hproto, hplain⟩ := plain_object.mp h
    rw [stableValue, normalize, stableMembers_eq_normalizeMembers hproto hplain]

theorem stableAll_eq_normalizeAll : ∀ {l : List Json}, plainAll l = true →
    stableAll l = normalizeAll l
  | [], _ => rfl
  | v :: l, h => by
    rw [plainAll, Bool.and_eq_true] at h
    rw [stableAll, normalizeAll, stableValue_eq_normalize h.1, stableAll_eq_normalizeAll h.2]

theorem stableMembers_eq_normalizeMembers : ∀ {m : List (JsString × Json)},
    js "__proto__" ∉ m.map Prod.fst → plainMembers m = true → stableMembers m = normalizeMembers m
  | [], _, _ => rfl
  | (k, v) :: m, hproto, h => by
    rw [List.map_cons, List.mem_cons, not_or] at hproto
    rw [plainMembers, Bool.and_eq_true] at h
    rw [stableMembers, if_neg (Ne.symm hproto.1), normalizeMembers, stableValue_eq_normalize h.1,
      stableMembers_eq_normalizeMembers hproto.2 h.2]

end

theorem stableValue_eq_iff (hv : plain v = true) (hw : plain w = true) :
    stableValue v = stableValue w ↔ Same v w := by
  rw [stableValue_eq_normalize hv, stableValue_eq_normalize hw,
    normalize_eq_iff (regular_of_plain hv) (regular_of_plain hw)]

theorem plain_fromSorted (h : plain (.object m) = true) :
    plain (.object (fromSorted m)) = true := by
  obtain ⟨hnodup, hproto, hplain⟩ := plain_object.mp h
  refine plain_object.mpr ⟨(keys_fromSorted m).nodup_iff.mpr hnodup,
    fun hmem => hproto ((keys_fromSorted m).subset hmem), ?_⟩
  exact plainMembers_iff.mpr fun p hp => plain_of_member hplain ((fromSorted_perm m).subset hp)

mutual

theorem plain_stableValue : ∀ {v : Json}, plain v = true → plain (stableValue v) = true
  | .null, _ => rfl
  | .bool _, _ => rfl
  | .number _, h => h
  | .string _, _ => rfl
  | .array _, h => plain_stableAll h
  | .object m, h => by
    obtain ⟨hnodup, hproto, hplain⟩ := plain_object.mp h
    have hkeys : (m.map fun p => (p.1, stableValue p.2)).map Prod.fst = m.map Prod.fst := by
      rw [List.map_map]
      rfl
    rw [stableValue, stableMembers_eq hproto]
    exact plain_fromSorted (plain_object.mpr ⟨hkeys ▸ hnodup, hkeys ▸ hproto,
      plain_stableMembers hplain⟩)

theorem plain_stableAll : ∀ {l : List Json}, plainAll l = true → plainAll (stableAll l) = true
  | [], _ => rfl
  | v :: l, h => by
    rw [plainAll, Bool.and_eq_true] at h
    rw [stableAll, plainAll, Bool.and_eq_true]
    exact ⟨plain_stableValue h.1, plain_stableAll h.2⟩

theorem plain_stableMembers : ∀ {m : List (JsString × Json)}, plainMembers m = true →
    plainMembers (m.map fun p => (p.1, stableValue p.2)) = true
  | [], _ => rfl
  | (k, v) :: m, h => by
    rw [plainMembers, Bool.and_eq_true] at h
    rw [List.map_cons, plainMembers, Bool.and_eq_true]
    exact ⟨plain_stableValue h.1, plain_stableMembers h.2⟩

end

mutual

theorem stableValue_idem : ∀ {v : Json}, plain v = true →
    stableValue (stableValue v) = stableValue v
  | .null, _ => rfl
  | .bool _, _ => rfl
  | .number _, _ => rfl
  | .string _, _ => rfl
  | .array l, h => by rw [stableValue, stableValue, stableAll_idem h]
  | .object m, h => by
    obtain ⟨hnodup, hproto, hplain⟩ := plain_object.mp h
    have hstable := plain_stableValue h
    rw [stableValue] at hstable ⊢
    rw [stableValue, stableMembers_eq (plain_object.mp hstable).2.1, stableMembers_eq hproto]
    congr 1
    refine fromSorted_of_perm (((fromSorted_perm _).map _).trans ?_) ?_
    · rw [stableMembers_idem hplain]
    · rw [List.map_map]
      exact ((fromSorted_perm _).map _).nodup_iff.mpr (by rwa [List.map_map])

theorem stableAll_idem : ∀ {l : List Json}, plainAll l = true →
    stableAll (stableAll l) = stableAll l
  | [], _ => rfl
  | v :: l, h => by
    rw [plainAll, Bool.and_eq_true] at h
    rw [stableAll, stableAll, stableValue_idem h.1, stableAll_idem h.2]

theorem stableMembers_idem : ∀ {m : List (JsString × Json)}, plainMembers m = true →
    ((m.map fun p => (p.1, stableValue p.2)).map fun p => (p.1, stableValue p.2)) =
      m.map fun p => (p.1, stableValue p.2)
  | [], _ => rfl
  | (k, v) :: m, h => by
    rw [plainMembers, Bool.and_eq_true] at h
    rw [List.map_cons, List.map_cons, stableMembers_idem h.2, stableValue_idem h.1]

end

theorem same_stableValue (hv : plain v = true) (hw : plain w = true) :
    Same (stableValue v) (stableValue w) ↔ Same v w := by
  rw [← stableValue_eq_iff (plain_stableValue hv) (plain_stableValue hw), stableValue_idem hv,
    stableValue_idem hw, stableValue_eq_iff hv hw]

/-- The bytes tell the value. -/
theorem stableBytes_eq_iff (hv : plain v = true) (hw : plain w = true) :
    stableBytes v = stableBytes w ↔ Same v w := by
  rw [stableBytes, stableBytes, stableValue_eq_normalize hv, stableValue_eq_normalize hw,
    normalBytes_eq_iff (regular_of_plain hv) (regular_of_plain hw)]

theorem plain_of_perm (h : l.Perm m) (hl : plain (.object l) = true) :
    plain (.object m) = true := by
  obtain ⟨hnodup, hproto, hplain⟩ := plain_object.mp hl
  exact plain_object.mpr ⟨(h.map _).nodup_iff.mp hnodup, fun hk => hproto ((h.map _).symm.subset hk),
    plainMembers_iff.mpr fun p hp => plain_of_member hplain (h.symm.subset hp)⟩

theorem stableValue_perm (h : l.Perm m) (hl : plain (.object l) = true) :
    stableValue (.object l) = stableValue (.object m) := by
  have hplain := plain_object.mp hl
  rw [stableValue, stableValue, stableMembers_eq hplain.2.1,
    stableMembers_eq (plain_object.mp (plain_of_perm h hl)).2.1]
  congr 1
  exact fromSorted_of_perm (h.map _) (by rw [List.map_map]; exact hplain.1)

/-! ### Objects by their members -/

theorem get_object (m : List (JsString × Json)) (k : JsString) :
    (Json.object m).get k = Maps.get m k := rfl

theorem sameMembers_get : SameMembers l m ↔
    ∀ p ∈ l, ∃ w, (p.1, w) ∈ m ∧ Same p.2 w := by
  induction l with
  | nil => simp [SameMembers]
  | cons p l ih =>
    obtain ⟨k, v⟩ := p
    rw [SameMembers, ih, List.forall_mem_cons]

theorem isSome_of_rel {r : Json → Json → Prop} {a b : Option Json} (h : Option.Rel r a b) :
    a.isSome = b.isSome := by
  cases h <;> rfl

/-- Two objects are the same where every key has the same value in both. -/
theorem same_object_iff (hl : (l.map Prod.fst).Nodup) (hm : (m.map Prod.fst).Nodup) :
    Same (.object l) (.object m) ↔
      ∀ k, Option.Rel Same ((Json.object l).get k) ((Json.object m).get k) := by
  simp only [get_object, Same, sameMembers_get]
  constructor
  · rintro ⟨hlength, hsub⟩ k
    have hkeys : m.map Prod.fst ⊆ l.map Prod.fst := by
      have hsubset : l.map Prod.fst ⊆ m.map Prod.fst := fun j hj => by
        obtain ⟨p, hp, rfl⟩ := List.mem_map.mp hj
        obtain ⟨w, hw, -⟩ := hsub p hp
        exact List.mem_map.mpr ⟨_, hw, rfl⟩
      exact ((hl.subperm hsubset).perm_of_length_le (by simp [hlength])).symm.subset
    cases hget : Maps.get l k with
    | some v =>
      obtain ⟨w, hw, hsame⟩ := hsub (k, v) (Maps.mem_of_get hget)
      rw [Maps.get_of_mem hm hw]
      exact .some hsame
    | none =>
      have hout : k ∉ m.map Prod.fst := fun hk => by
        simpa [hget] using Maps.isSome_get.mpr (hkeys hk)
      rw [← Maps.isSome_get, Bool.not_eq_true, Option.isSome_eq_false_iff,
        Option.isNone_iff_eq_none] at hout
      rw [hout]
      exact .none
  · intro h
    have hkeys : (l.map Prod.fst).Perm (m.map Prod.fst) := by
      refine (List.perm_ext_iff_of_nodup hl hm).mpr fun k => ?_
      rw [← Maps.isSome_get, ← Maps.isSome_get, isSome_of_rel (h k)]
    refine ⟨by simpa using hkeys.length_eq, fun p hp => ?_⟩
    have hrel := h p.1
    rw [Maps.get_of_mem hl hp] at hrel
    generalize hget : Maps.get m p.1 = o at hrel
    obtain ⟨hsame⟩ | _ := hrel
    exact ⟨_, Maps.mem_of_get hget, hsame⟩

/-- An object without the members that are undefined. -/
def record (fields : List (JsString × Option Json)) : List (JsString × Json) :=
  fields.filterMap fun f => f.2.map fun v => (f.1, v)

variable {fields others : List (JsString × Option Json)}

theorem keys_record : ((record fields).map Prod.fst).Sublist (fields.map Prod.fst) := by
  induction fields with
  | nil => exact .slnil
  | cons f fields ih =>
    obtain ⟨k, _ | v⟩ := f
    · exact ih.cons k
    · exact ih.cons_cons k

theorem get_record_none (h : k ∉ fields.map Prod.fst) :
    Maps.get (record fields) k = none := by
  rw [← Option.not_isSome_iff_eq_none, Maps.isSome_get]
  exact fun hk => h (keys_record.subset hk)

theorem get_record_cons {o : Option Json} (h : k ∉ fields.map Prod.fst) (j : JsString) :
    Maps.get (record ((k, o) :: fields)) j = if k = j then o else Maps.get (record fields) j := by
  cases o with
  | some v => exact Maps.get_cons
  | none =>
    change Maps.get (record fields) j = _
    split_ifs with hkj
    · exact get_record_none (hkj ▸ h)
    · rfl

theorem get_record {o : Option Json} (hnodup : (fields.map Prod.fst).Nodup) (h : (k, o) ∈ fields) :
    Maps.get (record fields) k = o := by
  induction fields with
  | nil => cases h
  | cons f fields ih =>
    rw [List.map_cons, List.nodup_cons] at hnodup
    rw [get_record_cons hnodup.1]
    rcases List.mem_cons.mp h with rfl | h
    · rw [if_pos rfl]
    · rw [if_neg fun heq : f.1 = k => hnodup.1 (heq ▸ List.mem_map.mpr ⟨_, h, rfl⟩), ih hnodup.2 h]

/-- Two objects that have the same fields. -/
theorem same_record (hkeys : fields.map Prod.fst = others.map Prod.fst)
    (hnodup : (fields.map Prod.fst).Nodup) :
    Same (.object (record fields)) (.object (record others)) ↔
      List.Forall₂ (fun f g => Option.Rel Same f.2 g.2) fields others := by
  rw [same_object_iff (keys_record.nodup hnodup) (keys_record.nodup (hkeys ▸ hnodup))]
  simp only [get_object]
  induction fields generalizing others with
  | nil =>
    obtain rfl : others = [] := by simpa using hkeys.symm
    simp [record]
  | cons f fields ih =>
    cases others with
    | nil => cases hkeys
    | cons g others =>
      rw [List.map_cons, List.map_cons, List.cons.injEq] at hkeys
      obtain ⟨k, o⟩ := f
      obtain ⟨k', o'⟩ := g
      obtain ⟨rfl : k = k', hkeys⟩ := hkeys
      rw [List.map_cons, List.nodup_cons] at hnodup
      have hout : k ∉ others.map Prod.fst := hkeys ▸ hnodup.1
      simp only [get_record_cons hnodup.1, get_record_cons hout, List.forall₂_cons, ← ih hkeys hnodup.2]
      constructor
      · refine fun h => ⟨by simpa using h k, fun j => ?_⟩
        have hrest := h j
        split_ifs at hrest with hkj
        · subst hkj
          rw [get_record_none hnodup.1, get_record_none hout]
          exact .none
        · exact hrest
      · rintro ⟨hfirst, hrest⟩ j
        split_ifs
        · exact hfirst
        · exact hrest j

theorem plain_record (hnodup : (fields.map Prod.fst).Nodup)
    (hproto : js "__proto__" ∉ fields.map Prod.fst)
    (h : ∀ f ∈ fields, ∀ v ∈ f.2, plain v = true) : plain (.object (record fields)) = true := by
  refine plain_object.mpr ⟨keys_record.nodup hnodup, fun hk => hproto (keys_record.subset hk),
    plainMembers_iff.mpr fun p hp => ?_⟩
  obtain ⟨f, hf, hp⟩ := List.mem_filterMap.mp hp
  obtain ⟨v, hv, rfl⟩ := Option.map_eq_some_iff.mp hp
  exact h f hf v hv

theorem sameAll_iff {l m : List Json} : SameAll l m ↔ List.Forall₂ Same l m := by
  induction l generalizing m with
  | nil => cases m <;> simp [SameAll]
  | cons v l ih => cases m <;> simp [SameAll, ih]

theorem plainAll_iff {l : List Json} : plainAll l = true ↔ ∀ v ∈ l, plain v = true := by
  induction l with
  | nil => simp [plainAll]
  | cons v l ih => rw [plainAll, Bool.and_eq_true, ih, List.forall_mem_cons]

end Truyn.Json
