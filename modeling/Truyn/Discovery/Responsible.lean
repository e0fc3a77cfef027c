import Truyn.Discovery.Placement
import Truyn.Schemes.Best

/-! discovery:responsible | the peers that are responsible for the placement of a context

    Every peer is ranked by the digest of the root with its id, the highest first. Where two digests
    are the same in the language, the ids decide. -/

namespace Truyn.Discovery
open Checks
open Trust (Value)
open Dht (Platform plain)

variable {α : Type} (P : Platform) (peerId : α → JsString) (root : JsString)

/-- The digest by which a peer is ranked. -/
def rankOf (p : α) : JsString := P.sha256 (root ++ js "|" ++ peerId p)

/-- `r.localeCompare(l) || left.peerId.localeCompare(right.peerId)` is not positive. -/
def Ranked (left right : α) : Prop :=
  P.collation.by (rankOf P peerId root) right left ∧
    (P.collation.by (rankOf P peerId root) left right → P.collation.by peerId left right)

instance : DecidableRel (Ranked P peerId root) := fun _ _ => inferInstanceAs (Decidable (_ ∧ _))

/-- The peers, if there is an array of them, and the factor, `3` if it is not given. -/
def placementResponsiblePeers (rootCid : Option Value) (peers : Option (List α))
    (replicationFactor : Option Value) : Except String (List α) := do
  let root ← normalizeRootCid rootCid
  let peers := peers.getD []
  if peers = [] then throw "placement peers are required"
  let factor := (integer (some (replicationFactor.getD (.number 3)))).getD 0
  if factor < 1 then throw "placement replicationFactor must be >= 1"
  return (peers.insertionSort (Ranked P peerId root)).take (min factor.toNat peers.length)

variable {P peerId root} {rootCid replicationFactor : Option Value} {factor : ℤ} {peers : List α}

instance : IsTrans α (Ranked P peerId root) := by
  constructor
  rintro a b c ⟨hba, hab⟩ ⟨hcb, hbc⟩
  refine ⟨P.collation.trans _ _ _ hcb hba, fun hac => ?_⟩
  exact P.collation.trans _ _ _ (hab (P.collation.trans _ _ _ hac hcb))
    (hbc (P.collation.trans _ _ _ hba hac))

instance : Std.Total (Ranked P peerId root) := by
  constructor
  intro a b
  have hrank := P.collation.total (rankOf P peerId root a) (rankOf P peerId root b)
  have hid := P.collation.total (peerId a) (peerId b)
  simp only [Bool.or_eq_true] at hrank hid
  by_cases hab : P.collation.by (rankOf P peerId root) a b
  · by_cases hba : P.collation.by (rankOf P peerId root) b a
    · exact hid.imp (fun h => ⟨hba, fun _ => h⟩) fun h => ⟨hab, fun _ => h⟩
    · exact .inr ⟨hab, fun h => (hba h).elim⟩
  · exact .inl ⟨hrank.resolve_left hab, fun h => (hab h).elim⟩

variable (P peerId root) in
/-- The digests of two peers are told apart by the language, or their ids are. -/
def ToldApart (peers : List α) : Prop :=
  ∀ p ∈ peers, ∀ q ∈ peers, P.collation.same (rankOf P peerId root) p q = true →
    P.collation.same peerId p q = true → p = q

theorem ToldApart.antisymm (h : ToldApart P peerId root peers) : ∀ p ∈ peers, ∀ q ∈ peers,
    Ranked P peerId root p q → Ranked P peerId root q p → p = q := by
  rintro p hp q hq ⟨hqp, hid⟩ ⟨hpq, hid'⟩
  refine h p hp q hq (Collation.same_iff.mpr ⟨hpq, hqp⟩) (Collation.same_iff.mpr ⟨hid hpq, hid' hqp⟩)

/-- With arguments that are accepted, the peers are the first in the ranking. -/
theorem responsible_eq (hroot : normalizeRootCid rootCid = .ok root)
    (hfactor : integer (some (replicationFactor.getD (.number 3))) = some factor) (hpos : 1 ≤ factor)
    (hne : peers ≠ []) : placementResponsiblePeers P peerId rootCid (some peers) replicationFactor =
      .ok (Best.best (Ranked P peerId root) factor.toNat peers) := by
  have hpeers : ¬peers = [] := hne
  have hleast : ¬factor < 1 := not_lt.mpr hpos
  have htake : (peers.insertionSort (Ranked P peerId root)).take (min factor.toNat peers.length) =
      (peers.insertionSort (Ranked P peerId root)).take factor.toNat := by
    rw [← List.length_insertionSort (Ranked P peerId root) peers, ← List.take_eq_take_min]
  simp only [placementResponsiblePeers, bind_ok, guard_ok, pure_ok, hroot, hfactor, Option.getD_some]
  exact ⟨root, rfl, hpeers, hleast, htake⟩

/-- STABLE PLACEMENT: the responsible peers are as many as the factor says, or all of them, they do
    not depend on the order of the list, and one more peer takes at most one place. -/
theorem responsible_stable (P : Platform) (peerId : α → JsString) (root : JsString)
    (rootCid replicationFactor : Option Value) (factor : ℤ) (peers : List α)
    (hroot : normalizeRootCid rootCid = .ok root)
    (hfactor : integer (some (replicationFactor.getD (.number 3))) = some factor) (hpos : 1 ≤ factor)
    (hne : peers ≠ []) (hids : (peers.map peerId).Nodup) (happart : ToldApart P peerId root peers) :
    ∃ chosen, placementResponsiblePeers P peerId rootCid (some peers) replicationFactor = .ok chosen ∧
      chosen.length = min factor.toNat peers.length ∧ (chosen.map peerId).Nodup ∧ chosen ⊆ peers ∧
      (∀ listed, listed.Perm peers →
        placementResponsiblePeers P peerId rootCid (some listed) replicationFactor = .ok chosen) ∧
      ∀ added listed, (∀ p ∈ peers, peerId added ≠ peerId p) →
        ToldApart P peerId root (added :: peers) → listed.Perm (added :: peers) → ∃ chosen',
          placementResponsiblePeers P peerId rootCid (some listed) replicationFactor = .ok chosen' ∧
          (∀ p ∈ chosen', p = added ∨ p ∈ chosen) ∧
          ∀ p ∈ chosen, p ∉ chosen' → ∀ q ∈ chosen, q ∉ chosen' → p = q := by
  refine ⟨_, responsible_eq hroot hfactor hpos hne, Best.length_best, ?_, Best.best_subset, ?_, ?_⟩
  · have hnodup := ((List.perm_insertionSort (Ranked P peerId root) peers).map peerId).nodup_iff.mpr hids
    exact hnodup.sublist ((List.take_sublist _ _).map peerId)
  · intro listed hlisted
    have hsome : listed ≠ [] := fun hnil => hne (hnil ▸ hlisted).nil_eq.symm
    rw [responsible_eq hroot hfactor hpos hsome, Best.best_perm hlisted.symm happart.antisymm]
  · intro added listed _ hadded hlisted
    have hsome : listed ≠ [] := fun hnil => by simp [hnil] at hlisted
    refine ⟨_, responsible_eq hroot hfactor hpos hsome, ?_⟩
    rw [← Best.best_perm hlisted.symm hadded.antisymm]
    exact Best.best_cons

/-! ### Three peers -/

/-- The digests of the root `truyn:ctx:c` with the ids of three peers. -/
def threeDigests (s : JsString) : JsString :=
  if s = js "truyn:ctx:c|A" then js "5065b311a22848974e45be6fa4ff5e29f38368408903d4a03fecda23aeeb72cd"
  else if s = js "truyn:ctx:c|B" then
    js "7c3f0c5df0142d27d6e23f53b737620578f99ea096b7e30115757cccd30994e4"
  else js "7b97f180ba98c9f2c3dd5f2cb96068c40776f1d467e50f86868d24f9597cfc5b"

def threePeers : Platform :=
  { plain with
    collation := ⟨unitsLe, unitsLe_trans, unitsLe_total⟩
    sha256 := threeDigests }

/-- Two of them are responsible, in whatever order the three are listed. -/
theorem responsible_of_three :
    placementResponsiblePeers threePeers id (some (.string (js "truyn:ctx:c")))
      (some [js "C", js "A", js "B"]) (some (.number 2)) = .ok [js "B", js "C"] := by
  obtain ⟨chosen, hchosen, -, -, -, hperm, -⟩ := responsible_stable threePeers id (js "truyn:ctx:c")
    (some (.string (js "truyn:ctx:c"))) (some (.number 2)) 2 [js "A", js "B", js "C"] rfl rfl (by decide)
    (by decide) (by decide) (by unfold ToldApart; decide +kernel)
  have hfirst : placementResponsiblePeers threePeers id (some (.string (js "truyn:ctx:c")))
      (some [js "A", js "B", js "C"]) (some (.number 2)) = .ok [js "B", js "C"] := by rfl
  rw [hperm [js "C", js "A", js "B"] (by decide), ← hchosen, hfirst]

end Truyn.Discovery
