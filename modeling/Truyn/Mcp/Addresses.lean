import Truyn.Mcp.Prompts

/-! mcp:addresses | what a digest of a prompt and a snapshot key tell

    Each member that a prompt keeps is compared in its way (`SameResult`): data as bytes, a URI as the
    parser writes it, everything else as JSON. -/

namespace Truyn.Mcp
open Json

/-! ### Prompts that are the same -/

/-- Base64 texts of the same bytes. -/
def SameBytes : Json → Json → Prop
  | .string s, .string t => fromBase64 s = fromBase64 t
  | _, _ => False

variable (H : Host)

/-- URIs that the parser writes alike. -/
def SameUri : Json → Json → Prop
  | .string s, .string t => (H.parseUrl s).map Url.href = (H.parseUrl t).map Url.href
  | _, _ => False

def noteMembers : List (JsString × (Json → Json → Prop)) :=
  [(js "annotations", Same), (js "_meta", Same)]

def resourceMembers : List (JsString × (Json → Json → Prop)) :=
  [(js "uri", SameUri H), (js "mimeType", Same), (js "text", Same), (js "blob", SameBytes)] ++
    noteMembers

/-- What a block of a type may have. -/
def contentMembers (type : JsString) : List (JsString × (Json → Json → Prop)) :=
  if type = js "text" then [(js "text", Same)] ++ noteMembers
  else if type = js "image" ∨ type = js "audio" then
    [(js "data", SameBytes), (js "mimeType", Same)] ++ noteMembers
  else if type = js "resource_link" then
    [(js "uri", SameUri H), (js "name", Same), (js "title", Same), (js "description", Same),
      (js "mimeType", Same), (js "size", Same)] ++ noteMembers
  else [(js "resource", SameBy (resourceMembers H))] ++ noteMembers

def typeOf (content : Json) : JsString := (asText (content.get (js "type"))).getD []

def SameContent (v w : Json) : Prop :=
  SameBy ((js "type", Same) :: contentMembers H (typeOf v)) v w

def SameMessage : Json → Json → Prop :=
  SameBy [(js "role", Same), (js "content", SameContent H)]

def SameResult : Json → Json → Prop :=
  SameBy [(js "description", Same), (js "messages", SameItems (SameMessage H)), (js "_meta", Same)]

variable {H}

variable {label needed exceeded : JsString} {allowEmpty controls : Bool} {v v' : Json}
  {o : Option Json} {maxLength : ℕ}

/-! ### The members -/

theorem stringMember_ok (h : stringMember label maxLength allowEmpty controls o = .ok v) :
    ∃ s, o = some (.string s) ∧ v = .string s := by
  obtain ⟨s, hs, rfl⟩ := Checks.map_ok.mp h
  exact ⟨s, (boundedString_ok hs).1, rfl⟩

theorem sound_string :
    Sound (stringMember label maxLength allowEmpty controls) where
  missing v h := by
    obtain ⟨s, hs, -⟩ := stringMember_ok h
    cases hs
  plain _ h := by
    obtain ⟨s, -, rfl⟩ := stringMember_ok h
    rfl

theorem keeps_string :
    Keeps (stringMember label maxLength allowEmpty controls)
      (stringMember label maxLength allowEmpty controls) Same where
  left := sound_string
  right := sound_string
  same _ _ h h' := by
    obtain ⟨s, hs, rfl⟩ := stringMember_ok h
    obtain ⟨t, ht, rfl⟩ := stringMember_ok h'
    rw [Option.some.inj hs, Option.some.inj ht]

theorem sound_uri : Sound (uriMember H) where
  missing v h := by
    obtain ⟨s, hs, -⟩ := Checks.map_ok.mp h
    obtain ⟨uri, huri, -⟩ := uri_ok hs
    cases huri
  plain _ h := by
    obtain ⟨s, -, rfl⟩ := Checks.map_ok.mp h
    rfl

theorem keeps_uri : Keeps (uriMember H) (uriMember H) (SameUri H) where
  left := sound_uri
  right := sound_uri
  same _ _ h h' := by
    obtain ⟨s, hs, rfl⟩ := Checks.map_ok.mp h
    obtain ⟨t, ht, rfl⟩ := Checks.map_ok.mp h'
    obtain ⟨uri, huri, hhref⟩ := uri_ok hs
    obtain ⟨uri', huri', hhref'⟩ := uri_ok ht
    cases huri
    cases huri'
    rw [Same, SameUri, hhref, hhref', Option.some.injEq]

theorem strictBase64_ok {maxBytes : ℕ} (h : strictBase64 label maxBytes o = .ok v) :
    ∃ s, o = some (.string s) ∧ v = .string (base64 (fromBase64 s)) := by
  obtain ⟨bytes, hbytes, rfl⟩ := Checks.map_ok.mp h
  obtain ⟨s, hs, rfl⟩ := readBase64_ok hbytes
  exact ⟨s, hs, rfl⟩

theorem sound_base64 {maxBytes : ℕ} : Sound (strictBase64 label maxBytes) where
  missing v h := by
    obtain ⟨s, hs, -⟩ := strictBase64_ok h
    cases hs
  plain _ h := by
    obtain ⟨s, -, rfl⟩ := strictBase64_ok h
    rfl

theorem keeps_base64 {n n' : ℕ} :
    Keeps (strictBase64 label n) (strictBase64 label n') SameBytes where
  left := sound_base64
  right := sound_base64
  same _ _ h h' := by
    obtain ⟨s, hs, rfl⟩ := strictBase64_ok h
    obtain ⟨t, ht, rfl⟩ := strictBase64_ok h'
    cases hs
    cases ht
    rw [Same, SameBytes]
    refine ⟨fun heq => ?_, fun heq => by rw [heq]⟩
    rw [← fromBase64_base64 (fromBase64 s), heq, fromBase64_base64]

theorem objectMember_ok (h : objectMember label o = .ok v) :
    ∃ u, o = some u ∧ v = stableValue u := by
  match o with
  | some (.object m) =>
    obtain ⟨-, h⟩ := Checks.error_ok.mp h
    exact ⟨_, rfl, (Except.ok.inj h).symm⟩
  | none | some .null | some (.bool _) | some (.number _) | some (.string _) | some (.array _) => cases h

theorem sound_object : Sound (objectMember label) where
  missing v h := by
    obtain ⟨u, hu, -⟩ := objectMember_ok h
    cases hu
  plain hv h := by
    obtain ⟨u, hu, rfl⟩ := objectMember_ok h
    cases hu
    exact plain_stableValue hv

theorem keeps_object : Keeps (objectMember label) (objectMember label) Same where
  left := sound_object
  right := sound_object
  same hv hw h h' := by
    obtain ⟨u, hu, rfl⟩ := objectMember_ok h
    obtain ⟨u', hu', rfl⟩ := objectMember_ok h'
    cases hu
    cases hu'
    exact same_stableValue hv hw

theorem textMember_ok {n : ℕ} (h : textMember n needed exceeded o = .ok v) :
    ∃ s, o = some (.string s) ∧ v = .string s := by
  match o with
  | some (.string s) =>
    obtain ⟨-, h⟩ := Checks.error_ok.mp h
    exact ⟨s, rfl, (Except.ok.inj h).symm⟩
  | none | some .null | some (.bool _) | some (.number _) | some (.object _) | some (.array _) => cases h

theorem sound_text {n : ℕ} : Sound (textMember n needed exceeded) where
  missing v h := by
    obtain ⟨s, hs, -⟩ := textMember_ok h
    cases hs
  plain _ h := by
    obtain ⟨s, -, rfl⟩ := textMember_ok h
    rfl

theorem keeps_text {n n' : ℕ} :
    Keeps (textMember n needed exceeded) (textMember n' needed exceeded) Same where
  left := sound_text
  right := sound_text
  same _ _ h h' := by
    obtain ⟨s, hs, rfl⟩ := textMember_ok h
    obtain ⟨t, ht, rfl⟩ := textMember_ok h'
    rw [Option.some.inj hs, Option.some.inj ht]

theorem sizeMember_ok (h : sizeMember o = .ok v) : o = some v := by
  match o with
  | some (.number n) =>
    obtain ⟨-, h⟩ := Checks.error_ok.mp h
    rw [Except.ok.inj h]
  | none | some .null | some (.bool _) | some (.string _) | some (.object _) | some (.array _) => cases h

theorem sound_size : Sound sizeMember where
  missing v h := by cases sizeMember_ok h
  plain hv h := by rwa [← Option.some.inj (sizeMember_ok h)]

theorem keeps_size : Keeps sizeMember sizeMember Same where
  left := sound_size
  right := sound_size
  same _ _ h h' := by
    rw [Option.some.inj (sizeMember_ok h), Option.some.inj (sizeMember_ok h')]

/-! ### Resources and blocks -/

theorem listed_notes : Listed noteFields noteFields noteMembers :=
  .cons keeps_object.optional (.cons keeps_object.optional .nil)

theorem listed_resource (n n' : ℕ) :
    Listed ([(js "uri", required (uriMember H))] ++ resourceFields n)
      ([(js "uri", required (uriMember H))] ++ resourceFields n') (resourceMembers H) :=
  .cons keeps_uri.required <| .cons keeps_string.optional <| .cons keeps_text.optional <|
    .cons keeps_base64.optional listed_notes

theorem normalizeResourceContents_ok {n : ℕ} (h : normalizeResourceContents H n o = .ok v') :
    ∃ v out, o = some v ∧
      readFields v ([(js "uri", required (uriMember H))] ++ resourceFields n) = .ok out ∧
      v' = .object (record out) := by
  match o with
  | some (.object m) =>
    obtain ⟨uri, huri, h⟩ := Checks.bind_ok.mp h
    obtain ⟨-, h⟩ := Checks.guard_ok.mp h
    obtain ⟨rest, hrest, h⟩ := Checks.bind_ok.mp h
    exact ⟨_, uri ++ rest, rfl, readFields_append huri hrest, (Checks.pure_ok.mp h).symm⟩
  | none | some .null | some (.bool _) | some (.number _) | some (.string _) | some (.array _) => cases h

theorem keys_resource {n : ℕ} :
    (([(js "uri", required (uriMember H))] ++ resourceFields n).map Prod.fst).Nodup ∧
      js "__proto__" ∉ ([(js "uri", required (uriMember H))] ++ resourceFields n).map Prod.fst := by
  constructor <;> simp only [resourceFields, noteFields, List.map_cons, List.map_nil,
    List.cons_append, List.nil_append] <;> decide

theorem sound_resource {n : ℕ} : Sound (normalizeResourceContents H n) where
  missing v h := by
    obtain ⟨u, out, hu, -⟩ := normalizeResourceContents_ok h
    cases hu
  plain hv h := by
    obtain ⟨u, out, hu, hout, rfl⟩ := normalizeResourceContents_ok h
    cases hu
    exact readFields_plain (listed_resource n n) keys_resource.1 keys_resource.2 hv hout

theorem keeps_resource {n n' : ℕ} : Keeps (normalizeResourceContents H n)
    (normalizeResourceContents H n') (SameBy (resourceMembers H)) where
  left := sound_resource
  right := sound_resource
  same hv hw h h' := by
    obtain ⟨u, out, hu, hout, rfl⟩ := normalizeResourceContents_ok h
    obtain ⟨u', out', hu', hout', rfl⟩ := normalizeResourceContents_ok h'
    cases hu
    cases hu'
    exact readFields_same (listed_resource n n') keys_resource.1 hv hw hout hout'

/-- The readers of one type of block, under two limits. -/
theorem listed_content {type : JsString} {n n' : ℕ} {fields others : List (JsString × Reader)}
    (h : contentFields H type n = .ok fields) (h' : contentFields H type n' = .ok others) :
    Listed fields others ((js "type", Same) :: contentMembers H type) ∧
      (fields.map Prod.fst).Nodup ∧ js "__proto__" ∉ fields.map Prod.fst := by
  unfold contentFields at h h'
  unfold contentMembers
  split_ifs at h h' ⊢
  · cases h
    cases h'
    refine ⟨.cons reads_keep (.cons keeps_text.required listed_notes), ?_⟩
    constructor <;> simp only [textFields, noteFields, List.map_cons, List.map_nil,
      List.cons_append, List.nil_append] <;> decide
  · cases h
    cases h'
    refine ⟨.cons reads_keep (.cons keeps_base64.required (.cons keeps_string.required
      listed_notes)), ?_⟩
    constructor <;> simp only [dataFields, noteFields, List.map_cons, List.map_nil,
      List.cons_append, List.nil_append] <;> decide
  · cases h
    cases h'
    refine ⟨.cons reads_keep <| .cons keeps_uri.required <| .cons keeps_string.optional <|
      .cons keeps_string.optional <| .cons keeps_string.optional <| .cons keeps_string.optional <|
      .cons keeps_size.optional listed_notes, ?_⟩
    constructor <;> simp only [linkFields, noteFields, List.map_cons, List.map_nil,
      List.cons_append, List.nil_append] <;> decide
  · cases h
    cases h'
    refine ⟨.cons reads_keep (.cons keeps_resource.required listed_notes), ?_⟩
    constructor <;> simp only [embeddedFields, noteFields, List.map_cons, List.map_nil,
      List.cons_append, List.nil_append] <;> decide

theorem normalizeContentBlock_ok {n : ℕ} (h : normalizeContentBlock H n o = .ok v') :
    ∃ v type fields out, o = some v ∧
      v.get (js "type") = some (.string type) ∧ contentFields H type n = .ok fields ∧
      readFields v fields = .ok out ∧ v' = .object (record out) := by
  unfold normalizeContentBlock at h
  split at h
  · cases h
  · rename_i type htype
    obtain ⟨v, rfl, htype⟩ := Option.bind_eq_some_iff.mp htype
    obtain ⟨fields, hfields, h⟩ := Checks.bind_ok.mp h
    obtain ⟨out, hout, h⟩ := Checks.bind_ok.mp h
    exact ⟨v, type, fields, out, rfl, asText_eq.mp htype, hfields, hout, (Checks.pure_ok.mp h).symm⟩

theorem sound_content {n : ℕ} : Sound (normalizeContentBlock H n) where
  missing v h := by
    obtain ⟨u, type, fields, out, hu, -⟩ := normalizeContentBlock_ok h
    cases hu
  plain hv h := by
    obtain ⟨u, type, fields, out, hu, -, hfields, hout, rfl⟩ := normalizeContentBlock_ok h
    cases hu
    obtain ⟨hlisted, hnodup, hproto⟩ := listed_content hfields hfields
    exact readFields_plain hlisted hnodup hproto hv hout

/-- A block keeps its type. -/
theorem get_type {n : ℕ} {type : JsString} {fields : List (JsString × Reader)}
    {out : List (JsString × Option Json)} (htype : v.get (js "type") = some (.string type))
    (hfields : contentFields H type n = .ok fields) (hout : readFields v fields = .ok out) :
    Maps.get (record out) (js "type") = some (.string type) := by
  obtain ⟨hlisted, hnodup, -⟩ := listed_content hfields hfields
  have hkeys := keys_readFields hout
  have hmem : (js "type", some (.string type)) ∈ out := by
    have hhead : ∃ more, fields = (js "type", keep) :: more := by
      unfold contentFields at hfields
      split_ifs at hfields <;> cases hfields <;> exact ⟨_, rfl⟩
    obtain ⟨more, rfl⟩ := hhead
    obtain ⟨o, rest, ho, -, rfl⟩ := readFields_cons.mp hout
    rw [← Except.ok.inj ho, htype]
    exact List.mem_cons_self
  exact get_record (hkeys ▸ hnodup) hmem

theorem keeps_content {n n' : ℕ} :
    Keeps (normalizeContentBlock H n) (normalizeContentBlock H n') (SameContent H) where
  left := sound_content
  right := sound_content
  same {v w v' w'} hv hw h h' := by
    obtain ⟨u, type, fields, out, hu, htype, hfields, hout, rfl⟩ := normalizeContentBlock_ok h
    obtain ⟨u', type', fields', out', hu', htype', hfields', hout', rfl⟩ :=
      normalizeContentBlock_ok h'
    cases hu
    cases hu'
    have htypeOf : typeOf v = type := by rw [typeOf, htype, asText, Option.getD_some]
    by_cases heq : type = type'
    · subst heq
      obtain ⟨hlisted, hnodup, -⟩ := listed_content hfields hfields'
      rw [readFields_same hlisted hnodup hv hw hout hout', SameContent, htypeOf]
    · -- blocks of two types differ on both sides
      have hkeys := plain_object.mp (sound_content.plain hv h)
      have hkeys' := plain_object.mp (sound_content.plain hw h')
      refine iff_of_false (fun hsame => heq ?_) fun hsame => heq ?_
      · have hrel := (same_object_iff hkeys.1 hkeys'.1).mp hsame (js "type")
        rw [get_object, get_object, get_type htype hfields hout, get_type htype' hfields' hout',
          rel_some] at hrel
        exact hrel
      · have hrel := hsame _ List.mem_cons_self
        rw [htype, htype', rel_some] at hrel
        exact hrel

/-! ### Messages -/

theorem listed_message (n n' : ℕ) :
    Listed [(js "role", keep), (js "content", required (normalizeContentBlock H n))]
      [(js "role", keep), (js "content", required (normalizeContentBlock H n'))]
      [(js "role", Same), (js "content", SameContent H)] :=
  .cons reads_keep (.cons keeps_content.required .nil)

theorem normalizeMessage_ok {n : ℕ} (h : normalizeMessage H n v = .ok v') :
    ∃ out, readFields v [(js "role", keep),
      (js "content", required (normalizeContentBlock H n))] = .ok out ∧ v' = .object (record out) := by
  unfold normalizeMessage at h
  simp only [Checks.guard_ok, Checks.bind_ok, Checks.pure_ok] at h
  obtain ⟨-, out, hout, rfl⟩ := h
  exact ⟨out, hout, rfl⟩

theorem keys_message {n : ℕ} :
    ([(js "role", keep), (js "content", required (normalizeContentBlock H n))].map Prod.fst).Nodup ∧
      js "__proto__" ∉
        [(js "role", keep), (js "content", required (normalizeContentBlock H n))].map Prod.fst := by
  constructor <;> simp only [List.map_cons, List.map_nil] <;> decide

theorem plain_message {n : ℕ} (hv : plain v = true) (h : normalizeMessage H n v = .ok v') :
    plain v' = true := by
  obtain ⟨out, hout, rfl⟩ := normalizeMessage_ok h
  exact readFields_plain (listed_message n n) keys_message.1 keys_message.2 hv hout

theorem same_message {n n' : ℕ} {w w' : Json} (hv : plain v = true) (hw : plain w = true)
    (h : normalizeMessage H n v = .ok v') (h' : normalizeMessage H n' w = .ok w') :
    Same v' w' ↔ SameMessage H v w := by
  obtain ⟨out, hout, rfl⟩ := normalizeMessage_ok h
  obtain ⟨out', hout', rfl⟩ := normalizeMessage_ok h'
  exact readFields_same (listed_message n n') keys_message.1 hv hw hout hout'

/-- By induction on the messages: each is normalised on its own. -/
theorem normalizeMessagesFrom_ok {n : ℕ} {done l out : List Json}
    (h : normalizeMessagesFrom H n done l = .ok out) : ∃ new, out = done ++ new ∧
      List.Forall₂ (fun v v' => normalizeMessage H n v = .ok v') l new := by
  induction l generalizing done with
  | nil => exact ⟨[], by rw [List.append_nil, Except.ok.inj h], .nil⟩
  | cons v l ih =>
    obtain ⟨next, hnext, h⟩ := Checks.bind_ok.mp h
    obtain ⟨-, h⟩ := Checks.guard_ok.mp h
    obtain ⟨new, rfl, hnew⟩ := ih h
    exact ⟨next :: new, by simp, .cons hnext hnew⟩

theorem normalizeMessages_ok {n k : ℕ} (h : normalizeMessages H n k o = .ok v') :
    ∃ l out, o = some (.array l) ∧ v' = .array out ∧
      List.Forall₂ (fun v v' => normalizeMessage H n v = .ok v') l out := by
  match o with
  | some (.array l) =>
    obtain ⟨-, h⟩ := Checks.error_ok.mp h
    obtain ⟨out, hout, rfl⟩ := Checks.map_ok.mp h
    obtain ⟨new, hnew, hall⟩ := normalizeMessagesFrom_ok hout
    obtain rfl : out = new := hnew
    exact ⟨l, out, rfl, rfl, hall⟩
  | none | some .null | some (.bool _) | some (.number _) | some (.string _) | some (.object _) => cases h

theorem sound_messages {n k : ℕ} : Sound (normalizeMessages H n k) where
  missing v h := by
    obtain ⟨l, out, hl, -⟩ := normalizeMessages_ok h
    cases hl
  plain hv h := by
    obtain ⟨l, out, hl, rfl, hall⟩ := normalizeMessages_ok h
    obtain rfl := Option.some.inj hl
    rw [plain, plainAll_iff] at hv ⊢
    clear h hl
    induction hall with
    | nil => simp
    | cons hfirst _ ih =>
      rw [List.forall_mem_cons] at hv ⊢
      exact ⟨plain_message hv.1 hfirst, ih hv.2⟩

theorem keeps_messages {n n' k k' : ℕ} : Keeps (normalizeMessages H n k)
    (normalizeMessages H n' k') (SameItems (SameMessage H)) where
  left := sound_messages
  right := sound_messages
  same hv hw h h' := by
    obtain ⟨l, out, hl, rfl, hall⟩ := normalizeMessages_ok h
    obtain ⟨m, out', hm, rfl, hall'⟩ := normalizeMessages_ok h'
    obtain rfl := Option.some.inj hl
    obtain rfl := Option.some.inj hm
    rw [plain, plainAll_iff] at hv hw
    rw [Same, sameAll_iff, SameItems]
    clear h h' hl hm
    induction hall generalizing m out' with
    | nil => cases hall' <;> simp
    | cons hfirst _ ih =>
      cases hall' with
      | nil => simp
      | cons hfirst' hrest' =>
        rw [List.forall_mem_cons] at hv hw
        rw [List.forall₂_cons, List.forall₂_cons, same_message hv.1 hw.1 hfirst hfirst']
        exact and_congr_right fun _ => ih _ _ hrest' hv.2 hw.2

/-! ### Arguments -/

theorem argumentEntry_ok {e e' : JsString × Json} (h : argumentEntry e = .ok e') : e' = e := by
  obtain ⟨k, v⟩ := e
  obtain ⟨key, hkey, h⟩ := Checks.bind_ok.mp h
  obtain rfl : k = key := by simpa using (boundedString_ok hkey).1
  match v with
  | .string s =>
    obtain ⟨-, h⟩ := Checks.guard_ok.mp h
    exact (Checks.pure_ok.mp h).symm
  | .null | .bool _ | .number _ | .array _ | .object _ => exact absurd h Checks.throw_ne

theorem argumentEntries_ok {l out : List (JsString × Json)} (h : l.mapM argumentEntry = .ok out) :
    out = l := by
  induction l generalizing out with
  | nil => exact (Checks.pure_ok.mp h).symm
  | cons e l ih =>
    simp only [List.mapM_cons, Checks.bind_ok, Checks.pure_ok] at h
    obtain ⟨e', he', rest, hrest, rfl⟩ := h
    rw [argumentEntry_ok he', ih hrest]

theorem assigned_perm {m : List (JsString × Json)} (h : js "__proto__" ∉ m.map Prod.fst) :
    (assigned m).Perm m := by
  have hall : m.filter (fun p => p.1 ≠ js "__proto__") = m :=
    List.filter_eq_self.mpr fun p hp => by
      simpa using fun heq : p.1 = js "__proto__" => h (heq ▸ List.mem_map.mpr ⟨p, hp, rfl⟩)
  rw [assigned, hall]
  exact ((List.perm_insertionSort _ _).append_right _).trans (List.filter_append_perm _ m)

/-- Arguments are the members that were given, in some order. -/
theorem normalizeArguments_ok {a : Json} (ho : PlainAt o) (h : normalizeArguments H o = .ok a) :
    ∃ entries, o.getD (.object []) = .object entries ∧ plain (.object entries) = true ∧
      ∃ out, a = .object out ∧ entries.Perm out := by
  have hplain : plain (o.getD (.object [])) = true := by
    cases o with
    | none => decide
    | some v => exact plainAt_some.mp ho
  unfold normalizeArguments at h
  split at h
  · rename_i entries hentries
    obtain ⟨-, h⟩ := Checks.guard_ok.mp h
    obtain ⟨out, hout, h⟩ := Checks.bind_ok.mp h
    rw [hentries] at hplain
    have hperm : entries.Perm out := argumentEntries_ok hout ▸ (Collation.sortBy_perm entries).symm
    refine ⟨entries, hentries, hplain, _, (Checks.pure_ok.mp h).symm, hperm.trans ?_⟩
    exact (assigned_perm (plain_object.mp (plain_of_perm hperm hplain)).2.1).symm
  · cases h

variable {args args' : Option Json} {a a' : Json}

theorem plain_arguments (ho : PlainAt args) (h : normalizeArguments H args = .ok a) :
    plain a = true := by
  obtain ⟨entries, -, hplain, out, rfl, hperm⟩ := normalizeArguments_ok ho h
  exact plain_of_perm hperm hplain

theorem same_arguments (ho : PlainAt args) (ho' : PlainAt args')
    (h : normalizeArguments H args = .ok a) (h' : normalizeArguments H args' = .ok a') :
    Same a a' ↔ Same (args.getD (.object [])) (args'.getD (.object [])) := by
  rw [← stableValue_eq_iff (plain_arguments ho h) (plain_arguments ho' h')]
  obtain ⟨entries, hentries, hplain, out, rfl, hperm⟩ := normalizeArguments_ok ho h
  obtain ⟨entries', hentries', hplain', out', rfl, hperm'⟩ := normalizeArguments_ok ho' h'
  rw [hentries, hentries', ← stableValue_perm hperm hplain, ← stableValue_perm hperm' hplain',
    stableValue_eq_iff hplain hplain']

/-! ### Payloads -/

theorem listed_prompt (n n' k k' : ℕ) : Listed (promptFields H n k) (promptFields H n' k')
    [(js "description", Same), (js "messages", SameItems (SameMessage H)), (js "_meta", Same)] :=
  .cons keeps_string.optional (.cons keeps_messages.required (.cons keeps_object.optional .nil))

variable {n n' k k' : ℕ} {name name' : JsString} {result result' : Json}
  {out out' : List (JsString × Option Json)}

/-- What stands before the members that are read. -/
def payloadHead (promptName : JsString) (arguments : Json) : List (JsString × Option Json) :=
  [(js "profile", some (.string MCP_PROMPT_OBJECT_PROFILE)),
    (js "promptName", some (.string promptName)), (js "arguments", some arguments)]

theorem keys_payload (h : readFields result (promptFields H n k) = .ok out) :
    ((payloadHead name a ++ out).map Prod.fst) = [js "profile", js "promptName", js "arguments",
      js "description", js "messages", js "_meta"] := by
  rw [List.map_append, keys_readFields h]
  rfl

theorem plain_payload (ha : plain a = true) (hresult : plain result = true)
    (h : readFields result (promptFields H n k) = .ok out) :
    plain (promptPayload name a out) = true := by
  refine plain_record ?_ ?_ ?_
  · exact (keys_payload h).symm ▸ by decide
  · exact (keys_payload h).symm ▸ by decide
  · rw [List.forall_mem_append]
    refine ⟨?_, plain_readFields (listed_prompt n n k k) hresult h⟩
    simpa [plain] using ha

theorem same_payload (hresult : plain result = true) (hresult' : plain result' = true)
    (h : readFields result (promptFields H n k) = .ok out)
    (h' : readFields result' (promptFields H n' k') = .ok out') :
    Same (promptPayload name a out) (promptPayload name' a' out') ↔
      name = name' ∧ Same a a' ∧ SameResult H result result' := by
  have hkeys : ((payloadHead name a ++ out).map Prod.fst) = (payloadHead name' a' ++ out').map
      Prod.fst := (keys_payload h).trans (keys_payload h').symm
  have hnodup : ((payloadHead name a ++ out).map Prod.fst).Nodup :=
    (keys_payload h).symm ▸ by decide
  rw [SameResult, ← rel_readFields (listed_prompt n n' k k') hresult hresult' h h']
  refine (same_record hkeys hnodup).trans ?_
  simp [payloadHead, Same]

/-! ### Digests and keys -/

theorem promptObject_ok {authority : JsString} {now : ℤ} {x : PromptObject}
    (h : promptObject H authority name args result now n k = .ok x) :
    ∃ a out, normalizeArguments H args = .ok a ∧ readFields result (promptFields H n k) = .ok out ∧
      x.digest = H.sha256 (stableBytes (promptPayload name a out)) ∧
      x.inlineDataBase64 = base64 (stableBytes (promptPayload name a out)) := by
  unfold promptObject at h
  simp only [Checks.guard_ok, Checks.bind_ok, Checks.pure_ok] at h
  obtain ⟨-, a, ha, out, hout, -, rfl⟩ := h
  exact ⟨a, out, ha, hout, rfl, rfl⟩

/-- The bytes that are hashed for a prompt: its payload and its arguments. -/
def PromptSnapshot.hashed (x : PromptSnapshot) : Set (List UInt8) :=
  {fromBase64 x.object.inlineDataBase64, stableBytes x.arguments}

theorem materialize_ok {s t : PromptStore} {now : Option ℤ} {nameValue : Option Json}
    {x : PromptSnapshot} (h : s.materialize H now nameValue args result = .ok (x, t)) :
    ∃ out, nameValue = some (.string x.promptName) ∧ (∀ u ∈ x.promptName, isControl u = false) ∧
      normalizeArguments H args = .ok x.arguments ∧
      readFields result (promptFields H s.maxPromptBytes s.maxMessages) = .ok out ∧
      x.object.digest = H.sha256 (stableBytes (promptPayload x.promptName x.arguments out)) ∧
      fromBase64 x.object.inlineDataBase64 =
        stableBytes (promptPayload x.promptName x.arguments out) := by
  unfold PromptStore.materialize at h
  simp only [Checks.guard_ok, Checks.bind_ok, Checks.pure_ok, Prod.mk.injEq] at h
  obtain ⟨promptName, hname, key, -, -, object, hobject, a, ha, rfl, -⟩ := h
  obtain ⟨a', out, ha', hout, hdigest, hinline⟩ := promptObject_ok hobject
  obtain rfl : a = a' := Except.ok.inj (ha.symm.trans ha')
  obtain ⟨hvalue, hcontrol⟩ := boundedString_ok hname
  exact ⟨out, hvalue, hcontrol rfl, ha, hout, hdigest, by rw [hinline, fromBase64_base64]⟩

theorem key_cancel {s t x y : JsString} (hs : ∀ u ∈ s, isControl u = false)
    (ht : ∀ u ∈ t, isControl u = false) (h : s ++ 0 :: x = t ++ 0 :: y) : s = t ∧ x = y := by
  have htake : ∀ {s x : JsString}, (∀ u ∈ s, isControl u = false) →
      (s ++ 0 :: x).takeWhile (fun u => !isControl u) = s := fun hs => by
    rw [List.takeWhile_append_of_pos fun u hu => by simp [hs u hu],
      List.takeWhile_cons_of_neg (by decide), List.append_nil]
  obtain rfl : s = t := by rw [← htake hs, h, htake ht]
  exact ⟨rfl, by simpa using List.append_cancel_left h⟩

/-- A digest tells the name, the arguments and the listed members of the result, and a snapshot key
    the name and the arguments, where the hash does not collide on what is hashed. -/
theorem prompt_addressing {s s' t t' : PromptStore} {now now' : Option ℤ}
    {nameValue nameValue' : Option Json} {x x' : PromptSnapshot}
    (h : s.materialize H now nameValue args result = .ok (x, t))
    (h' : s'.materialize H now' nameValue' args' result' = .ok (x', t'))
    (hargs : PlainAt args) (hargs' : PlainAt args') (hresult : plain result = true)
    (hresult' : plain result' = true) (hcoll : Set.InjOn H.sha256 (x.hashed ∪ x'.hashed)) :
    (x.object.digest = x'.object.digest ↔ nameValue = nameValue' ∧
      Same (args.getD (.object [])) (args'.getD (.object [])) ∧ SameResult H result result') ∧
    (snapshotKey H x.promptName args = snapshotKey H x'.promptName args' ↔
      nameValue = nameValue' ∧ Same (args.getD (.object [])) (args'.getD (.object []))) := by
  obtain ⟨out, rfl, hcontrol, ha, hout, hdigest, hbytes⟩ := materialize_ok h
  obtain ⟨out', rfl, hcontrol', ha', hout', hdigest', hbytes'⟩ := materialize_ok h'
  have hname : some (Json.string x.promptName) = some (.string x'.promptName) ↔
      x.promptName = x'.promptName := by simp
  have hplain := plain_arguments hargs ha
  have hplain' := plain_arguments hargs' ha'
  rw [hname, ← same_arguments hargs hargs' ha ha']
  constructor
  · rw [← same_payload hresult hresult' hout hout', hdigest, hdigest',
      ← stableBytes_eq_iff (plain_payload hplain hresult hout) (plain_payload hplain' hresult' hout')]
    refine hcoll.eq_iff (.inl (.inl hbytes.symm)) (.inr (.inl hbytes'.symm))
  · have hmem : stableBytes x.arguments ∈ x.hashed ∪ x'.hashed := .inl (.inr rfl)
    have hmem' : stableBytes x'.arguments ∈ x.hashed ∪ x'.hashed := .inr (.inr rfl)
    rw [← stableBytes_eq_iff hplain hplain', ← hcoll.eq_iff hmem hmem']
    simp only [snapshotKey, ha, ha', bind, Except.bind, pure, Except.pure, Except.ok.injEq]
    exact ⟨key_cancel hcontrol hcontrol', fun heq => by rw [heq.1, heq.2]⟩

/-! ### A greeting -/

/-- Members in one order, or in the other. -/
def members (turned : Bool) (l : List (JsString × Json)) : Json :=
  .object (if turned then l.reverse else l)

def greetArguments (turned : Bool) : Json :=
  members turned [(js "who", .string (js "you")), (js "tone", .string (js "warm"))]

/-- A picture, with the members that a provider adds to it. -/
def greetContent (turned : Bool) (data : String) (more : List (JsString × Json)) : Json :=
  members turned ([(js "type", .string (js "image")), (js "data", .string (js data)),
    (js "mimeType", .string (js "image/png")), (js "annotations", members turned
      [(js "audience", .array [.string (js "user")]), (js "priority", .number (.ofNat 1))])] ++ more)

def greetMessage (turned : Bool) (data : String) (more : List (JsString × Json)) : Json :=
  members turned [(js "role", .string (js "user")), (js "content", greetContent turned data more)]

def greetMeta (turned : Bool) : Json :=
  members turned [(js "a", .bool true), (js "b", .null)]

/-- The padding of the picture is left out in the other order. -/
def greetResult (turned : Bool) (more : List (JsString × Json)) : Json :=
  members turned [(js "resultType", .string (js "complete")),
    (js "messages", .array [greetMessage turned (if turned then "aGk" else "aGk=") more]),
    (js "_meta", greetMeta turned)]

def greetPayload : Json :=
  .object [(js "profile", .string MCP_PROMPT_OBJECT_PROFILE), (js "promptName", .string (js "greet")),
    (js "arguments", greetArguments false), (js "messages", .array [greetMessage false "aGk=" []]),
    (js "_meta", greetMeta false)]

/-- The digests of what is hashed below. -/
def greetDigests : List (List UInt8 × JsString) :=
  [(stableBytes greetPayload, hexText 0xd19ff0d14eddc40bc28bb026b2bd0769dc84bed3f3a3e4210aac4216766b202a),
    (stableBytes (greetArguments false), hexText 0x30fb5e051c554de9ddd7580df400e75d169b8dab77b0fa37b694256202667ac5)]

/-- Other bytes stand for themselves. -/
def greetHost : Host where
  sha256 bytes := (Maps.get greetDigests bytes).getD (base64 bytes ++ [33])
  parseUrl s := some ⟨js "file:", s⟩
  collation := ⟨unitsLe, unitsLe_trans, unitsLe_total⟩

theorem greetHost_injective : Function.Injective greetHost.sha256 := by
  have hlisted : ∀ p ∈ greetDigests, ∀ q ∈ greetDigests, p.2 = q.2 → p = q :=
    fun p hp q hq => List.inj_on_of_nodup_map (by decide) hp hq
  have hlast : ∀ p ∈ greetDigests, p.2.getLast? ≠ some 33 := by decide
  intro b c h
  simp only [greetHost] at h
  cases hb : Maps.get greetDigests b with
  | some d =>
    cases hc : Maps.get greetDigests c with
    | some e =>
      rw [hb, hc, Option.getD_some, Option.getD_some] at h
      exact congrArg Prod.fst (hlisted _ (Maps.mem_of_get hb) _ (Maps.mem_of_get hc) h)
    | none =>
      rw [hb, hc, Option.getD_some, Option.getD_none] at h
      exact absurd (by rw [h, List.getLast?_concat]) (hlast _ (Maps.mem_of_get hb))
  | none =>
    cases hc : Maps.get greetDigests c with
    | some e =>
      rw [hb, hc, Option.getD_some, Option.getD_none] at h
      exact absurd (by rw [← h, List.getLast?_concat]) (hlast _ (Maps.mem_of_get hc))
    | none =>
      rw [hb, hc, Option.getD_none, Option.getD_none] at h
      rw [← fromBase64_base64 b, List.append_cancel_right h, fromBase64_base64]

def greetStore : PromptStore where
  providerAuthority := js "https://prompts.example"
  maxPromptBytes := DEFAULT_MAX_MCP_PROMPT_BYTES
  maxMessages := DEFAULT_MAX_MCP_PROMPT_MESSAGES
  snapshots := []
  catalogInvalidated := false

def greet (turned : Bool) (more : List (JsString × Json)) :
    Except JsString (PromptSnapshot × PromptStore) :=
  greetStore.materialize greetHost (some 1) (some (.string (js "greet")))
    (some (greetArguments turned)) (greetResult turned more)

/-- A member that no profile lists. -/
def addition : List (JsString × Json) := [(js "note", .bool true)]

theorem greet_digest : ∀ r ∈ [greet false [], greet true [], greet false addition],
    ∃ x t, r = .ok (x, t) ∧ some x.object.digest = greetDigests.head?.map Prod.snd := by
  have hall : ∀ r ∈ [greet false [], greet true [], greet false addition],
      r.toOption.map (fun r => r.1.object.digest) = greetDigests.head?.map Prod.snd := by decide +kernel
  intro r hr
  cases r with
  | error reason => cases hall _ hr
  | ok p => exact ⟨p.1, p.2, rfl, hall _ hr⟩

/-- One greeting with its members in two orders: the digests are one, and so are the keys. -/
theorem greetings_addressed : ∃ x t x' t', greet false [] = .ok (x, t) ∧ greet true [] = .ok (x', t') ∧
    x.object.digest = x'.object.digest ∧
    (x.object.digest = x'.object.digest ↔
      some (Json.string (js "greet")) = some (.string (js "greet")) ∧
      Same (greetArguments false) (greetArguments true) ∧
      SameResult greetHost (greetResult false []) (greetResult true [])) ∧
    (snapshotKey greetHost x.promptName (some (greetArguments false)) =
        snapshotKey greetHost x'.promptName (some (greetArguments true)) ↔
      some (Json.string (js "greet")) = some (.string (js "greet")) ∧
      Same (greetArguments false) (greetArguments true)) := by
  obtain ⟨x, t, h, hd⟩ := greet_digest _ (.head _)
  obtain ⟨x', t', h', hd'⟩ := greet_digest _ (.tail _ (.head _))
  exact ⟨x, t, x', t', h, h', Option.some.inj (hd.trans hd'.symm),
    prompt_addressing h h' (plainAt_some.mpr (by decide)) (plainAt_some.mpr (by decide))
      (by decide) (by decide) greetHost_injective.injOn⟩

/-- Results that differ in such a member have one digest. -/
theorem addition_unseen : ∃ x t x' t', greet false [] = .ok (x, t) ∧
    greet false addition = .ok (x', t') ∧ x.object.digest = x'.object.digest ∧
    ¬Same (greetResult false []) (greetResult false addition) := by
  obtain ⟨x, t, h, hd⟩ := greet_digest _ (.head _)
  obtain ⟨x', t', h', hd'⟩ := greet_digest _ (.tail _ (.tail _ (.head _)))
  refine ⟨x, t, x', t', h, h', Option.some.inj (hd.trans hd'.symm), ?_⟩
  rw [← stableValue_eq_iff (by decide) (by decide)]
  exact fun heq => absurd (congrArg Json.text heq) (by decide)

end Truyn.Mcp
