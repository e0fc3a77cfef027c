import Truyn.Mcp.HeaderCodec
import Truyn.Schemes.Checks
import Truyn.Schemes.Maps

/-! runtime:credentials | byok-secret-store.js: a provider credential is replaced in a secret store

    The new secret is put, read back, and only then the old one is deleted; where one of these steps
    throws, the new one is deleted again. That restores the store unless the new reference stood for
    another secret before (`replaces_iff`). -/

namespace Truyn.Credentials

def SECRET_REFERENCE_SCHEMA : JsString := js "truyn.secret-reference/v1"

/-- A member that is not there is the empty text. -/
structure SecretReference where
  schema : JsString
  backend : JsString
  key : JsString
  deriving DecidableEq

def createSecretReference (backend key : JsString) : Except JsString SecretReference :=
  let normalizedBackend := trim backend
  let normalizedKey := trim key
  if normalizedBackend = [] then .error (js "Secret reference backend is required")
  else if normalizedKey = [] then .error (js "Secret reference key is required")
  else .ok ⟨SECRET_REFERENCE_SCHEMA, normalizedBackend, normalizedKey⟩

def assertSecretReference (reference : Option SecretReference) : Except JsString SecretReference :=
  match reference with
  | none => .error (js "Unsupported secret reference schema: missing")
  | some r =>
    if r.schema ≠ SECRET_REFERENCE_SCHEMA then
      .error (js "Unsupported secret reference schema: " ++
        if r.schema = [] then js "missing" else r.schema)
    else if trim r.backend = [] ∨ trim r.key = [] then
      .error (js "Secret reference backend and key are required")
    else .ok r

/-! ### The store -/

/-- The secrets of a store, by backend and key. -/
abbrev Secrets := List ((JsString × JsString) × JsString)

def SecretReference.place (r : SecretReference) : JsString × JsString := (r.backend, r.key)

/-- What each call of the store throws; `none` is a call that takes effect. -/
structure Faults where
  put : Option JsString
  resolve : Option JsString
  deletePrevious : Option JsString
  deleteNext : Option JsString

def resolveSecret (fault : Option JsString) (store : Secrets) (reference : SecretReference) :
    Except JsString JsString := do
  let safeReference ← assertSecretReference (some reference)
  match fault with
  | some e => .error e
  | none =>
    match Maps.get store safeReference.place with
    | some (u :: s) => .ok (u :: s)
    | _ => .error (js "SecretStore could not resolve " ++ safeReference.backend ++ js ":" ++
        safeReference.key)

/-- What a reference stands for. -/
def resolves (store : Secrets) (reference : SecretReference) : Option JsString :=
  (resolveSecret none store reference).toOption

/-! ### Profiles -/

structure Profile where
  authMode : JsString
  credentialRef : Option SecretReference
  credentialEnv : Option JsString

def providerCredentialReference (profile : Profile) : Except JsString (Option SecretReference) :=
  if profile.authMode = js "none" ∨ profile.authMode = js "runtime-identity" then .ok none
  else match profile.credentialRef with
    | some reference => .ok (some reference)
    | none =>
      match profile.credentialEnv with
      | some (u :: s) => (createSecretReference (js "env") (u :: s)).map some
      | _ => .ok none

/-- The old reference that is deleted: one of another backend or key. -/
def replaced (previousReference : Option SecretReference) (nextReference : SecretReference) :
    Option SecretReference :=
  previousReference.filter fun r => r.backend ≠ nextReference.backend ∨ r.key ≠ nextReference.key

/-- What is checked before the store is written: the secret, its reference and the old one. -/
def checkReplacement (writable : Bool) (profile : Profile) (reference : Option SecretReference)
    (value : Option JsString) :
    Except JsString (JsString × SecretReference × Option SecretReference) :=
  if !writable then .error (js "Writable SecretStore with put/delete is required")
  else match value with
  | some (u :: s) => do
    let nextReference ← assertSecretReference reference
    let previousReference ← providerCredentialReference profile
    if previousReference.any fun r => r.backend = js "env" then
      throw (js "Environment credential references are read-only; replace with a writable SecretStore reference explicitly")
    pure (u :: s, nextReference, previousReference)
  | _ => .error (js "Replacement credential value is required")

/-- The body of the `try`: the store after it, and what it throws. -/
def activate (f : Faults) (store : Secrets) (value : JsString) (nextReference : SecretReference)
    (previousReference : Option SecretReference) : Except JsString Secrets := do
  let activated ← resolveSecret f.resolve store nextReference
  if activated ≠ value then throw (js "Replacement credential verification failed")
  match replaced previousReference nextReference with
  | none => pure store
  | some r =>
    match f.deletePrevious with
    | some e => throw e
    | none => pure (Maps.delete r.place store)

def replaceProviderCredential (f : Faults) (writable : Bool) (profile : Profile) (store : Secrets)
    (reference : Option SecretReference) (value : Option JsString) :
    Except JsString Profile × Secrets :=
  match checkReplacement writable profile reference value with
  | .error e => (.error e, store)
  | .ok (value, nextReference, previousReference) =>
    match f.put with
    | some e => (.error e, store)
    | none =>
      let written := Maps.set nextReference.place value store
      match activate f written value nextReference previousReference with
      | .ok after =>
        (.ok { profile with credentialRef := some nextReference, credentialEnv := none }, after)
      | .error e =>
        (.error e, if f.deleteNext.isSome then written else Maps.delete nextReference.place written)

/-! ### Replacement -/

/-- What is wanted of a replacement: every secret that could be read before can be read after it has
    thrown, and after it has not thrown the profile stands for the new secret and the old reference
    for none. -/
def Atomic (profile : Profile) (store : Secrets) (reference : Option SecretReference)
    (value : Option JsString) (r : Except JsString Profile × Secrets) : Prop :=
  match r.1 with
  | .error _ => ∀ ref secret, resolves store ref = some secret → resolves r.2 ref = some secret
  | .ok profile' =>
    (∃ ref, providerCredentialReference profile' = .ok (some ref) ∧ resolves r.2 ref = value) ∧
      ∀ old new, providerCredentialReference profile = .ok (some old) → reference = some new →
        old.place ≠ new.place → resolves r.2 old = none

/-- A call that writes goes through and the profile uses references, or the new reference stood for no
    other secret that is lost. -/
def Restorable (f : Faults) (writable : Bool) (profile : Profile) (store : Secrets)
    (reference : Option SecretReference) (value : Option JsString) : Prop :=
  ∀ v next previous, checkReplacement writable profile reference value = .ok (v, next, previous) →
    f.put = none →
    if f.resolve = none ∧ (replaced previous next = none ∨ f.deletePrevious = none) then
      profile.authMode ≠ js "none" ∧ profile.authMode ≠ js "runtime-identity"
    else
      resolves store next = none ∨ resolves store next = some v ∧ f.deleteNext.isSome = true

variable {f : Faults} {writable : Bool} {profile : Profile} {store : Secrets}
  {reference : Option SecretReference} {value : Option JsString}

theorem assertSecretReference_ok {o : Option SecretReference} {r : SecretReference}
    (h : assertSecretReference o = .ok r) : o = some r := by
  cases o with
  | none => cases h
  | some r' =>
    simp only [assertSecretReference, Checks.error_ok, Except.ok.injEq] at h
    rw [h.2.2]

theorem resolves_iff {r : SecretReference} {secret : JsString} :
    resolves store r = some secret ↔ assertSecretReference (some r) = .ok r ∧
      Maps.get store r.place = some secret ∧ secret ≠ [] := by
  unfold resolves resolveSecret
  cases hr : assertSecretReference (some r) with
  | error e => simp [bind, Except.bind, Except.toOption]
  | ok r' =>
    cases assertSecretReference_ok hr
    simp only [bind, Except.bind, true_and]
    cases hget : Maps.get store r.place with
    | none => simp [Except.toOption]
    | some t =>
      cases t with
      | nil =>
        simp only [Except.toOption, reduceCtorEq, Option.some.injEq, false_iff, not_and, not_not]
        exact Eq.symm
      | cons u t =>
        simp only [Except.toOption, Option.some.injEq]
        refine ⟨?_, fun h => h.1⟩
        rintro rfl
        exact ⟨rfl, by simp⟩

variable {v : JsString} {next : SecretReference} {previous : Option SecretReference}

theorem checkReplacement_ok
    (h : checkReplacement writable profile reference value = .ok (v, next, previous)) :
    value = some v ∧ v ≠ [] ∧ reference = some next ∧ assertSecretReference (some next) = .ok next ∧
      providerCredentialReference profile = .ok previous := by
  obtain ⟨-, h⟩ := Checks.error_ok.mp h
  match value with
  | some (u :: s) =>
    simp only [Checks.bind_ok, Checks.guard_ok, Checks.pure_ok, Prod.mk.injEq] at h
    obtain ⟨next', hnext, previous', hprevious, -, rfl, rfl, rfl⟩ := h
    have hreference := assertSecretReference_ok hnext
    exact ⟨rfl, by simp, hreference, hreference ▸ hnext, hprevious⟩
  | none | some [] => cases h

/-- The secret that was put is read back. -/
theorem resolveSecret_set (hv : v ≠ []) (hnext : assertSecretReference (some next) = .ok next)
    (fault : Option JsString) :
    resolveSecret fault (Maps.set next.place v store) next =
      match fault with
      | some e => .error e
      | none => .ok v := by
  obtain ⟨u, s, rfl⟩ := List.exists_cons_of_ne_nil hv
  simp only [resolveSecret, hnext, bind, Except.bind, Maps.get_set_self]

theorem resolves_set_self (hv : v ≠ []) (hnext : assertSecretReference (some next) = .ok next) :
    resolves (Maps.set next.place v store) next = some v :=
  resolves_iff.mpr ⟨hnext, Maps.get_set_self, hv⟩

theorem replaced_some {old : SecretReference} :
    replaced previous next = some old ↔ previous = some old ∧ old.place ≠ next.place := by
  rw [replaced, Option.filter_eq_some_iff]
  refine and_congr_right fun _ => ?_
  simp [SecretReference.place, Decidable.imp_iff_not_or]

/-- What is lost where the new secret is taken back. -/
theorem taken_back (hv : v ≠ []) (hnext : assertSecretReference (some next) = .ok next)
    (kept : Bool) :
    (∀ ref secret, resolves store ref = some secret →
      resolves (if kept then Maps.set next.place v store
        else Maps.delete next.place (Maps.set next.place v store)) ref = some secret) ↔
      resolves store next = none ∨ resolves store next = some v ∧ kept = true := by
  constructor
  · intro h
    cases hold : resolves store next with
    | none => exact .inl rfl
    | some old =>
      have hafter := h next old hold
      cases kept with
      | false =>
        have hget := (resolves_iff.mp hafter).2.1
        rw [if_neg (by simp), Maps.get_delete, if_pos rfl] at hget
        cases hget
      | true =>
        rw [if_pos rfl, resolves_set_self hv hnext] at hafter
        exact .inr ⟨hafter.symm, rfl⟩
  · intro h ref secret href
    obtain ⟨hvalid, hget, hne⟩ := resolves_iff.mp href
    refine resolves_iff.mpr ⟨hvalid, ?_, hne⟩
    by_cases hplace : next.place = ref.place
    · have hold : resolves store next = some secret :=
        resolves_iff.mpr ⟨hnext, hplace ▸ hget, hne⟩
      rcases h with h | ⟨h, rfl⟩
      · rw [hold] at h
        cases h
      · rw [hold, Option.some.injEq] at h
        rw [if_pos rfl, ← hplace, Maps.get_set_self, h]
    · cases kept with
      | false => rw [if_neg (by simp), Maps.get_delete_ne hplace, Maps.get_set_ne hplace, hget]
      | true => rw [if_pos rfl, Maps.get_set_ne hplace, hget]

/-- The step that throws behind the write is the read or the deletion of the old secret. -/
theorem activate_eq (hv : v ≠ []) (hnext : assertSecretReference (some next) = .ok next) :
    (∃ e, activate f (Maps.set next.place v store) v next previous = .error e ∧
      ¬(f.resolve = none ∧ (replaced previous next = none ∨ f.deletePrevious = none))) ∨
    (f.resolve = none ∧ (replaced previous next = none ∨ f.deletePrevious = none)) ∧
      activate f (Maps.set next.place v store) v next previous =
        .ok ((replaced previous next).elim (Maps.set next.place v store)
          fun r => Maps.delete r.place (Maps.set next.place v store)) := by
  unfold activate
  rw [resolveSecret_set hv hnext]
  cases hresolve : f.resolve with
  | some e => exact .inl ⟨e, rfl, by simp⟩
  | none =>
    simp only [bind, Except.bind, ne_eq, not_true_eq_false, if_false, true_and]
    cases hreplaced : replaced previous next with
    | none => exact .inr ⟨.inl rfl, rfl⟩
    | some r =>
      cases hdelete : f.deletePrevious with
      | some e => exact .inl ⟨e, rfl, by simp⟩
      | none => exact .inr ⟨.inr rfl, rfl⟩

/-- A replacement that goes through. -/
theorem atomic_ok (hv : v ≠ []) (hnext : assertSecretReference (some next) = .ok next)
    (hprevious : providerCredentialReference profile = .ok previous) :
    Atomic profile store (some next) (some v)
        (.ok { profile with credentialRef := some next, credentialEnv := none },
          (replaced previous next).elim (Maps.set next.place v store)
            fun r => Maps.delete r.place (Maps.set next.place v store)) ↔
      profile.authMode ≠ js "none" ∧ profile.authMode ≠ js "runtime-identity" := by
  rw [← not_or]
  constructor
  · rintro ⟨⟨ref, href, -⟩, -⟩ hmode
    rw [providerCredentialReference, if_pos hmode] at href
    cases href
  · intro hmode
    refine ⟨⟨next, by rw [providerCredentialReference, if_neg hmode], ?_⟩, ?_⟩
    · cases hreplaced : replaced previous next with
      | none => exact resolves_set_self hv hnext
      | some r =>
        have hne := (replaced_some.mp hreplaced).2
        exact resolves_iff.mpr ⟨hnext, by
          rw [Option.elim_some, Maps.get_delete_ne hne, Maps.get_set_self], hv⟩
    · intro old new hold hnew hne
      cases hnew
      rw [hprevious, Except.ok.injEq] at hold
      rw [replaced_some.mpr ⟨hold, hne⟩, Option.elim_some, Option.eq_none_iff_forall_ne_some]
      intro secret hsecret
      have hget := (resolves_iff.mp hsecret).2.1
      rw [Maps.get_delete, if_pos rfl] at hget
      cases hget

/-- A replacement is atomic exactly where it can be taken back. -/
theorem replaces_iff (f : Faults) (writable : Bool) (profile : Profile) (store : Secrets)
    (reference : Option SecretReference) (value : Option JsString) :
    Atomic profile store reference value
        (replaceProviderCredential f writable profile store reference value) ↔
      Restorable f writable profile store reference value := by
  unfold replaceProviderCredential Restorable
  cases hcheck : checkReplacement writable profile reference value with
  | error e => simp [Atomic]
  | ok r =>
    obtain ⟨v, next, previous⟩ := r
    obtain ⟨rfl, hv, rfl, hnext, hprevious⟩ := checkReplacement_ok hcheck
    simp only [Except.ok.injEq, Prod.mk.injEq, and_imp]
    cases hput : f.put with
    | some e => simp [Atomic]
    | none =>
      have hsingle : ∀ {P : JsString → SecretReference → Option SecretReference → Prop},
          (∀ v' next' previous', v = v' → next = next' → previous = previous' →
            none = (none : Option JsString) → P v' next' previous') ↔ P v next previous :=
        ⟨fun h => h v next previous rfl rfl rfl rfl, fun h _ _ _ hv hn hp _ => hv ▸ hn ▸ hp ▸ h⟩
      rw [hsingle]
      rcases @activate_eq f store _ _ previous hv hnext with
        ⟨e, he, hfails⟩ | ⟨hgoes, hok⟩
      · rw [if_neg hfails]
        simp only [he]
        exact taken_back hv hnext f.deleteNext.isSome
      · rw [if_pos hgoes]
        simp only [hok]
        exact atomic_ok hv hnext hprevious

/-! ### A replacement in place -/

def keyring (key : String) : SecretReference := ⟨SECRET_REFERENCE_SCHEMA, js "keyring", js key⟩

def keyProfile : Profile := ⟨js "api-key", some (keyring "openai"), none⟩

/-- The read of the new secret throws. -/
def unread : Faults := ⟨none, some (js "locked"), none, none⟩

/-- The old secret is overwritten and then deleted. -/
theorem replaced_in_place : ¬Atomic keyProfile [((keyring "openai").place, js "old")]
    (some (keyring "openai")) (some (js "new"))
    (replaceProviderCredential unread true keyProfile [((keyring "openai").place, js "old")]
      (some (keyring "openai")) (some (js "new"))) := by
  intro h
  have hold : resolves [((keyring "openai").place, js "old")] (keyring "openai") = some (js "old") := by
    decide
  have hrun : replaceProviderCredential unread true keyProfile
      [((keyring "openai").place, js "old")] (some (keyring "openai")) (some (js "new")) =
        (.error (js "locked"), []) := by rfl
  rw [hrun] at h
  cases h _ _ hold

end Truyn.Credentials
