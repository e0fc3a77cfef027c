import Truyn.Schemes.Indexes
import Truyn.Trust.Claims

/-! routing:directory | the offers of a relay, their policies, and the index by capability

    `putOffer` and `dropOffer` are all that writes the two maps, and a revocation marks the offer in
    place; so after any number of them the index has the ids of the offers of each capability. -/

namespace Truyn.Routing
open Trust (Value)

/-! ### Policies -/

inductive AccessMode
  | everyone
  | ownerOnly
  | authority
  deriving DecidableEq

/-- `resolveRequester(id)?.ok` and `resolveProvider(id)?.ok`; `none` is a throw. -/
structure TenantAuthority where
  resolveRequester : JsString → Option Bool
  resolveProvider : JsString → Option Bool

/-- `authorize({ providerNodeId, requesterNodeId, capability })?.ok === true`; `none` is a throw. -/
structure GrantAuthority where
  authorize : JsString → JsString → JsString → Option Bool

structure Policy where
  providerNodeId : JsString
  capability : JsString
  accessMode : AccessMode
  allowedRequesterIds : List JsString
  accountTenantAuthority : Option TenantAuthority := none
  providerGrantAuthority : Option GrantAuthority := none

def normalizeIds (value : List JsString) : List JsString :=
  setOf ((value.map trim).filter fun id => id ≠ [])

/-- `authoritativeContexts(policy, requesterNodeId)`: `none` is `null`. -/
def authoritativeContexts (policy : Policy) (requesterNodeId : JsString) : Option Bool :=
  policy.accountTenantAuthority.map fun authority =>
    match authority.resolveRequester requesterNodeId,
      authority.resolveProvider policy.providerNodeId with
    | some requester, some provider => requester && provider
    | _, _ => false

def providerPolicyAllowsRequester (policy : Policy) (requesterNodeId : JsString)
    (trustedRequesterNodeIds : List JsString) : Bool :=
  if requesterNodeId = [] then false
  else
    match policy.providerGrantAuthority with
    | some grantAuthority =>
      (grantAuthority.authorize policy.providerNodeId requesterNodeId
        (if policy.capability = [] then js "*" else policy.capability)).getD false
    | none =>
      if authoritativeContexts policy requesterNodeId = some false then false
      else
        match policy.accessMode with
        | .everyone => true
        | .authority => false
        | .ownerOnly => requesterNodeId ∈ normalizeIds policy.allowedRequesterIds ∨
            requesterNodeId ∈ normalizeIds trustedRequesterNodeIds

/-! ### Offers -/

/-- A signed offer; `sender` is the field `from`, and `json` is what `JSON.stringify` writes. -/
structure Envelope where
  id : JsString
  sender : JsString
  payload : Value
  json : JsString

structure Offer where
  envelope : Envelope
  capability : JsString
  policy : Policy
  revoked : Bool := false

structure Directory where
  offers : List (JsString × Offer) := []
  offersByCapability : List (JsString × List JsString) := []

namespace Directory

def indexOffer (offerId : JsString) (offer : Offer) (d : Directory) : Directory :=
  { d with offersByCapability := Indexes.add offer.capability offerId d.offersByCapability }

def unindexOffer (offerId : JsString) (d : Directory) : Directory :=
  match Maps.get d.offers offerId with
  | none => d
  | some offer =>
    { d with offersByCapability := Indexes.remove offer.capability offerId d.offersByCapability }

def putOffer (offerId : JsString) (offer : Offer) (d : Directory) : Directory :=
  let d := d.unindexOffer offerId
  { d with offers := Maps.set offerId offer d.offers }.indexOffer offerId offer

def dropOffer (offerId : JsString) (d : Directory) : Directory :=
  let d := d.unindexOffer offerId
  { d with offers := Maps.delete offerId d.offers }

/-- `live.revoked = true`, in the handler of a revocation by the owner. -/
def revoke (offerId : JsString) (d : Directory) : Directory :=
  match Maps.get d.offers offerId with
  | none => d
  | some live => { d with offers := Maps.set offerId { live with revoked := true } d.offers }

/-- `offers.values()`. -/
def values (d : Directory) : List Offer := d.offers.map Prod.snd

/-- `offersForCapability(capability)`; no capability, and an empty one, stand for all offers. -/
def offersForCapability (d : Directory) (capability : Option JsString) : List Offer :=
  match capability with
  | none | some [] => d.values
  | some capability => Indexes.lookup d.offers d.offersByCapability capability

/-- `!capability || offer.capability === capability`. -/
def capable : Option JsString → Offer → Bool
  | none, _ => true
  | some [], _ => true
  | some capability, offer => offer.capability = capability

/-! ### Histories -/

inductive Act
  | put (offerId : JsString) (offer : Offer)
  | drop (offerId : JsString)
  | revoke (offerId : JsString)

def act (d : Directory) : Act → Directory
  | .put offerId offer => d.putOffer offerId offer
  | .drop offerId => d.dropOffer offerId
  | .revoke offerId => d.revoke offerId

/-- The directory after the acts, from an empty one. -/
def after (acts : List Act) : Directory := acts.foldl act {}

/-- The index is in step with the offers. -/
def Indexed (d : Directory) : Prop := Indexes.Indexed d.offers Offer.capability d.offersByCapability

variable {d : Directory} {offerId : JsString} {offer : Offer}

@[simp] theorem offers_unindexOffer : (d.unindexOffer offerId).offers = d.offers := by
  unfold unindexOffer
  split <;> rfl

theorem Indexed.unindexOffer (h : d.Indexed) :
    Indexes.Indexed (Maps.delete offerId d.offers) Offer.capability
      (d.unindexOffer offerId).offersByCapability := by
  unfold Directory.unindexOffer
  split
  · next hget => exact h.delete hget
  · next hget => exact h.remove hget

theorem Indexed.put (h : d.Indexed) : (d.putOffer offerId offer).Indexed := by
  have hgone : Indexes.Indexed (Maps.delete offerId d.offers) Offer.capability
      (d.unindexOffer offerId).offersByCapability := h.unindexOffer
  have hput := hgone.add (a := offer) h.keys
  simpa [Directory.Indexed, putOffer, indexOffer] using hput

theorem Indexed.drop (h : d.Indexed) : (d.dropOffer offerId).Indexed := by
  simpa [Directory.Indexed, dropOffer] using h.unindexOffer

theorem Indexed.revoke (h : d.Indexed) : (d.revoke offerId).Indexed := by
  unfold Directory.revoke
  split
  · exact h
  · next live hget => exact h.update hget rfl

theorem Indexed.act {a : Act} (h : d.Indexed) : (d.act a).Indexed := by
  cases a with
  | put offerId offer => exact h.put
  | drop offerId => exact h.drop
  | revoke offerId => exact h.revoke

theorem indexed_after (acts : List Act) : (after acts).Indexed := by
  have hfrom : ∀ (acts : List Act) (d : Directory), d.Indexed →
      (acts.foldl Directory.act d).Indexed := by
    intro acts
    induction acts with
    | nil => exact fun _ h => h
    | cons a acts ih => exact fun d h => ih (d.act a) h.act
  exact hfrom acts {} Indexes.Indexed.empty

/-- The index yields the offers that a full scan would. -/
theorem offersForCapability_perm (h : d.Indexed) (capability : Option JsString) :
    (d.offersForCapability capability).Perm (d.values.filter (capable capability)) := by
  rcases capability with - | - | ⟨u, s⟩
  · exact .of_eq (List.filter_eq_self.mpr fun _ _ => rfl).symm
  · exact .of_eq (List.filter_eq_self.mpr fun _ _ => rfl).symm
  · exact Indexes.lookup_perm h

end Directory

end Truyn.Routing
