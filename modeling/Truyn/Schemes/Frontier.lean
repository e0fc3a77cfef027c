import Mathlib

/-! scheme:frontier | candidates that are visited once, the best of those that wait

    A frontier is offered candidates, each by its key at most once, and visits the first of those that
    wait. What is visited is remembered with what waited then. Where the ones that wait are sorted
    before each round of visits, each visit is of a best one. -/

namespace Frontiers

variable {α κ : Type*} [DecidableEq κ] (key : α → κ) {r : α → α → Prop}

/-- `queued` and `queried` are the keys of what was offered and of what was visited. -/
structure Frontier (α κ : Type*) where
  queued : List κ
  queried : List κ
  pending : List α
  visits : List (α × List α)

namespace Frontier

variable (f : Frontier α κ)

def start (candidates : List α) : Frontier α κ := ⟨candidates.map key, [], candidates, []⟩

/-- `none`: the key was offered before. -/
def offer (a : α) : Option (Frontier α κ) :=
  if key a ∈ f.queried ∨ key a ∈ f.queued then none
  else some { f with queued := f.queued ++ [key a], pending := f.pending ++ [a] }

def rank (r : α → α → Prop) [DecidableRel r] : Frontier α κ :=
  { f with pending := f.pending.insertionSort r }

/-- Visits as many of those that wait as there is room for. -/
def visit (f : Frontier α κ) : ℕ → List α → List α × Frontier α κ
  | _, [] => ([], { f with pending := [] })
  | 0, pending => ([], { f with pending := pending })
  | room + 1, a :: rest =>
    if key a ∈ f.queried then visit f (room + 1) rest
    else
      let (batch, f) := visit { f with
        queried := f.queried ++ [key a], visits := f.visits ++ [(a, a :: rest)] } room rest
      (a :: batch, f)

/-- A round: those that wait are sorted, and the first are visited. -/
def advance (r : α → α → Prop) [DecidableRel r] (room : ℕ) : List α × Frontier α κ :=
  let ranked := f.rank r
  ranked.visit key room ranked.pending

/-- The keys of what was visited and of what waits, each once; and each visit was of a best one. -/
structure Valid (r : α → α → Prop) (f : Frontier α κ) : Prop where
  once : (f.visits.map (fun v => key v.1) ++ f.pending.map key).Nodup
  queued : ∀ a ∈ f.pending, key a ∈ f.queued
  queried : ∀ v ∈ f.visits, key v.1 ∈ f.queried
  best : ∀ v ∈ f.visits, v.1 ∈ v.2 ∧ ∀ a ∈ v.2, r v.1 a

variable {key f} {a : α} {candidates : List α}

omit [DecidableEq κ] in
theorem Valid.start (h : (candidates.map key).Nodup) : Valid key r (start key candidates) where
  once := h
  queued _ ha := List.mem_map_of_mem ha
  queried _ hv := by cases hv
  best _ hv := by cases hv

theorem Valid.offer {f' : Frontier α κ} (h : Valid key r f) (hoffer : f.offer key a = some f') :
    Valid key r f' ∧ f'.visits = f.visits := by
  rw [Frontier.offer, Option.ite_none_left_eq_some] at hoffer
  obtain ⟨hnew, heq⟩ := hoffer
  cases heq
  refine ⟨⟨?_, fun b hb => ?_, h.queried, h.best⟩, rfl⟩
  · rw [List.map_append, ← List.append_assoc, List.map_singleton]
    refine List.nodup_append.mpr ⟨h.once, List.nodup_singleton _, ?_⟩
    rintro k hk k' hk' rfl
    obtain rfl := List.mem_singleton.mp hk'
    rcases List.mem_append.mp hk with hk | hk
    · obtain ⟨v, hv, hkey⟩ := List.mem_map.mp hk
      exact hnew (.inl (hkey ▸ h.queried v hv))
    · obtain ⟨b, hb, hkey⟩ := List.mem_map.mp hk
      exact hnew (.inr (hkey ▸ h.queued b hb))
  · rcases List.mem_append.mp hb with hb | hb
    · exact List.mem_append_left _ (h.queued b hb)
    · rw [List.mem_singleton.mp hb]
      exact List.mem_append_right _ (List.mem_singleton.mpr rfl)

omit [DecidableEq κ] in
theorem Valid.rank [DecidableRel r] (h : Valid key r f) : Valid key r (f.rank r) where
  __ := h
  once := by
    have hperm : (f.pending.insertionSort r).Perm f.pending := List.perm_insertionSort r f.pending
    exact ((hperm.map key).append_left _).nodup_iff.mpr h.once
  queued b hb := h.queued b ((List.mem_insertionSort r).mp hb)

theorem Valid.visit {pending : List α} (h : Valid key r { f with pending := pending }) (room : ℕ)
    (hsorted : pending.Pairwise r) (hrefl : ∀ a, r a a) :
    Valid key r (f.visit key room pending).2 ∧
      (f.visit key room pending).2.visits.length =
        f.visits.length + (f.visit key room pending).1.length ∧
      (f.visit key room pending).1.length ≤ room := by
  induction pending generalizing f room with
  | nil =>
    cases room with
    | zero => exact ⟨h, rfl, le_rfl⟩
    | succ room => exact ⟨h, rfl, Nat.zero_le _⟩
  | cons a rest ih =>
    obtain ⟨hfirst, hrest⟩ := List.pairwise_cons.mp hsorted
    cases room with
    | zero => exact ⟨h, rfl, le_rfl⟩
    | succ room =>
      have hsub : (f.visits.map (fun v => key v.1) ++ rest.map key).Sublist
          (f.visits.map (fun v => key v.1) ++ (a :: rest).map key) :=
        (List.Sublist.refl _).append (List.sublist_cons_self _ _)
      rw [Frontier.visit]
      split
      · refine ih ⟨h.once.sublist hsub, fun b hb => ?_, h.queried, h.best⟩ _ hrest
        exact h.queued b (List.mem_cons_of_mem a hb)
      · have hnext : Valid key r { f with
            queried := f.queried ++ [key a], visits := f.visits ++ [(a, a :: rest)],
            pending := rest } := by
          refine ⟨?_, fun b hb => h.queued b (List.mem_cons_of_mem a hb), fun v hv => ?_,
            fun v hv => ?_⟩
          · have honce := h.once
            rw [List.map_cons, List.append_cons] at honce
            rwa [List.map_append]
          · rcases List.mem_append.mp hv with hv | hv
            · exact List.mem_append_left _ (h.queried v hv)
            · rw [List.mem_singleton.mp hv]
              exact List.mem_append_right _ (List.mem_singleton.mpr rfl)
          · rcases List.mem_append.mp hv with hv | hv
            · exact h.best v hv
            · rw [List.mem_singleton.mp hv]
              refine ⟨List.mem_cons_self, fun b hb => ?_⟩
              rcases List.mem_cons.mp hb with rfl | hb
              · exact hrefl b
              · exact hfirst b hb
        obtain ⟨hvalid, hlength, hroom⟩ := ih (f := { f with
          queried := f.queried ++ [key a], visits := f.visits ++ [(a, a :: rest)] }) hnext room hrest
        refine ⟨hvalid, hlength.trans ?_, ?_⟩
        · simp only [List.length_append, List.length_cons, List.length_nil]
          omega
        · simpa using hroom

/-- A round of visits: new ones, no more than there is room for. -/
theorem Valid.advance [DecidableRel r] [Std.Total r] [IsTrans α r] (h : Valid key r f) (room : ℕ) :
    Valid key r (f.advance key r room).2 ∧
      (f.advance key r room).2.visits.length = f.visits.length + (f.advance key r room).1.length ∧
      (f.advance key r room).1.length ≤ room :=
  Valid.visit (f := f.rank r) h.rank room (List.pairwise_insertionSort r f.pending)
    fun a => (Std.Total.total a a).elim id id

end Frontier

end Frontiers
