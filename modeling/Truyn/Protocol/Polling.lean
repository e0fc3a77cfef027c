import Truyn.Protocol.Compact
import Truyn.Schemes.Custody
import Truyn.Schemes.Along

/-! protocol:polling | the events that a client takes from the relay, and what becomes of them

    The relay forgets what it hands out. The client of the node verifies the events of a batch
    together, and those of its socket one at a time; the Python client keeps those that nobody waits
    for. A batch with an event for which verification throws is lost as a whole, so nothing
    is lost that could be verified exactly as long as no such event stands beside a verifiable one. -/

namespace Truyn.Protocol
open Custody (Books Kept mark)

/-! ### Verification -/

/-- What the clients verify with; `verifyEnvelope` tells whether an envelope is of one of the types
    and signed by its sender. It never throws. -/
structure Verifier extends Crypto where
  verifyEnvelope : Json → List Json → Bool

def CompactType.name : CompactType → JsString
  | .NEED => js "NEED"
  | .RESULT => js "RESULT"
  | .PARTIAL => js "PARTIAL"
  | .CHAIN => js "CHAIN"
  | .CONTEXT_PUT => js "CONTEXT_PUT"
  | .CONTEXT_DELTA => js "CONTEXT_DELTA"

/-- The types that a list of one value allows. -/
def allowing : Option Json → List CompactType
  | some (.string s) => compactTypes.filter fun type => type.name = s
  | _ => []

/-- `event[key]`; `undefined` is read as `null`, which is as falsy. -/
def field (event : Json) (key : String) : Json := (event.get (js key)).getD .null

/-- `a || b`. -/
def either (a b : Json) : Json := if falsy (some a) then b else a

/-- An event with what verification said of it and of the result before it. -/
structure Verified where
  event : Json
  verification : Bool
  priorVerification : Option Bool

def Verdict.ok : Verdict → Bool
  | .accepted _ => true
  | .refused _ => false

/-- `MVP_TYPES`. -/
def mvpTypes : List Json :=
  ["IDENTITY", "OFFER", "NEED", "RESULT", "REVOKE"].map fun s => .string (js s)

def isNull : Json → Bool
  | .null => true
  | _ => false

variable (V : Verifier)

/-- A signed frame, and the key that `resolveIdentity` gives for its sender; `none` is a rejection. -/
def verifyFrame (frame payload : Json) (publicKey : Option JsString)
    (allowedTypes : List CompactType) : Except JsString Bool :=
  match publicKey with
  | none => .error (js "node_not_found")
  | some publicKey =>
    (verifyCompactFrame V.toCrypto frame payload publicKey allowedTypes).map Verdict.ok

/-- The event's own frame. -/
def verifyOwnFrame (resolve : Json → Option JsString) (event : Json) : Except JsString Bool :=
  verifyFrame V (field event "frame") (field event "payload") (resolve (field event "from"))
    (allowing (some (either (field event "signedType") (field event "kind"))))

/-- The result that the event carries along, if any. -/
def verifyPrior (resolve : Json → Option JsString) (event : Json) :
    Except JsString (Option Bool) :=
  let prior := field event "priorResult"
  if falsy (some prior) then .ok none
  else (verifyFrame V (field prior "frame") (field prior "payload") (resolve (field prior "from"))
    [.RESULT]).map some

/-- The envelope of an event that has one. -/
def verifyOwnEnvelope (event envelope : Json) : Bool :=
  V.verifyEnvelope envelope [either (field event "kind") (field envelope "type")]

/-- `verifyCompactEvent(event)`. `resolve` is what `resolveIdentity` answers meanwhile. -/
def verifyCompactEvent (resolve : Json → Option JsString) (event : Json) :
    Except JsString Verified :=
  if !falsy (some (field event "envelope")) then
    .ok ⟨event, verifyOwnEnvelope V event (field event "envelope"), none⟩
  else if isNull event then .error (js "TypeError")
  else do
    let verification ← verifyOwnFrame V resolve event
    let priorVerification ← verifyPrior V resolve event
    return ⟨event, verification, priorVerification⟩

/-- Whether the event's own verification succeeds, whatever becomes of the result before it. -/
def ownVerified (resolve : Json → Option JsString) (event : Json) : Bool :=
  if !falsy (some (field event "envelope")) then
    verifyOwnEnvelope V event (field event "envelope")
  else
    match verifyOwnFrame V resolve event with
    | .ok verification => verification
    | .error _ => false

/-! ### The client of the node -/

/-- `waiters` are the calls that wait for the socket, `verifying` the batches whose verification has
    begun; a call on the socket verifies a batch of one. -/
structure Client where
  fastSocketQueue : List Json := []
  fastSocketWaiters : List ℕ := []
  verifying : List (List Json) := []
  books : Books Json := {}

/-- What verification of a batch begins with: the events of a request or of the socket. -/
def Client.held (c : Client) : List Json := c.fastSocketQueue ++ c.verifying.flatten

inductive Act
  /-- The answer to `poll`. -/
  | poll (events : List Json)
  /-- The answer to `pollCompact`. -/
  | pollCompact (events : List Json)
  /-- A message of the socket that is an event. -/
  | message (event : Json)
  /-- `nextCompactSocketEvent`, when the socket is open. -/
  | next (call : ℕ)
  /-- The timer of a waiter. -/
  | expire (call : ℕ)
  /-- The socket is closed, or reports an error. -/
  | closed
  /-- The verification of a batch ends; `resolve i` is what `resolveIdentity` answered for the event
      at place `i`. -/
  | settle (batch : ℕ) (resolve : ℕ → Json → Option JsString)

/-- What `poll` finds of an event; `event.envelope` throws where the event is `null`. -/
def polled (event : Json) : Bool :=
  !isNull event && V.verifyEnvelope (field event "envelope") mvpTypes

/-- Whether the verification of each event of a batch returns. -/
def allVerified (resolve : ℕ → Json → Option JsString) (events : List Json) : Bool :=
  events.zipIdx.all fun p => (verifyCompactEvent V (resolve p.2) p.1).isOk

/-- The events of a batch, with whether their own verification succeeds. -/
def marked (resolve : ℕ → Json → Option JsString) (events : List Json) : List (Json × Bool) :=
  events.zipIdx.map fun p => (p.1, ownVerified V (resolve p.2) p.1)

def Client.act (c : Client) : Act → Client
  | .poll events =>
    let books := c.books.take events
    if events.all fun event => !isNull event then { c with books := books.give events }
    else { c with books := books.lose (mark (polled V) events) }
  | .pollCompact events =>
    { c with verifying := c.verifying ++ [events], books := c.books.take events }
  | .message event =>
    let books := c.books.take [event]
    match c.fastSocketWaiters with
    | [] => { c with fastSocketQueue := c.fastSocketQueue ++ [event], books }
    | _ :: waiters =>
      { c with fastSocketWaiters := waiters, verifying := c.verifying ++ [[event]], books }
  | .next call =>
    match c.fastSocketQueue with
    | [] => { c with fastSocketWaiters := c.fastSocketWaiters ++ [call] }
    | event :: queue => { c with fastSocketQueue := queue, verifying := c.verifying ++ [[event]] }
  | .expire call => { c with fastSocketWaiters := c.fastSocketWaiters.erase call }
  | .closed => { c with fastSocketWaiters := [] }
  | .settle batch resolve =>
    match c.verifying[batch]? with
    | none => c
    | some events =>
      let verifying := c.verifying.eraseIdx batch
      if allVerified V resolve events then { c with verifying, books := c.books.give events }
      else { c with verifying, books := c.books.lose (marked V resolve events) }

/-- No event for which verification throws is in one batch with one that can be verified. -/
def Fits (c : Client) : Act → Prop
  | .poll events =>
    (∀ event ∈ events, isNull event = false) ∨ ∀ event ∈ events, polled V event = false
  | .settle batch resolve =>
    ∀ events, c.verifying[batch]? = some events →
      allVerified V resolve events = true ∨ ∀ p ∈ marked V resolve events, p.2 = false
  | _ => True

variable {V} {c : Client}

theorem map_fst_marked (resolve : ℕ → Json → Option JsString) (events : List Json) :
    (marked V resolve events).map Prod.fst = events := by
  rw [marked, List.map_map]
  exact List.zipIdx_map_fst 0 events

theorem held_settle {batch : ℕ} {events : List Json} (h : c.verifying[batch]? = some events) :
    c.held.Perm (events ++ (c.fastSocketQueue ++ (c.verifying.eraseIdx batch).flatten)) := by
  obtain ⟨hlt, hget⟩ := List.getElem_of_getElem? h
  have hperm := (List.getElem_cons_eraseIdx_perm hlt).symm.flatten
  rw [hget, List.flatten_cons] at hperm
  exact (hperm.append_left _).trans (List.perm_append_comm_assoc _ _ _)

/-- One act of the client: what it takes or hands on stays accounted for. -/
theorem kept_act {a : Act} (h : Kept c.books c.held) (hfits : Fits V c a) :
    Kept (c.act V a).books (c.act V a).held := by
  cases a with
  | poll events =>
    have htake : Kept (c.books.take events) (events ++ c.held) := h.take.perm List.perm_append_comm
    unfold Client.act
    dsimp only
    split
    · exact htake.give
    · next hnull =>
      have hlost : ∀ p ∈ mark (polled V) events, p.2 = false := by
        intro p hp
        obtain ⟨event, hmem, rfl⟩ := List.mem_map.mp hp
        refine (hfits.resolve_left fun hall => hnull ?_) event hmem
        exact List.all_eq_true.mpr fun e he => by rw [hall e he]; rfl
      refine Kept.lose ?_ hlost
      rw [Custody.map_fst_mark]
      exact htake
  | pollCompact events =>
    refine h.take.perm ?_
    simp [Client.held, Client.act]
  | message event =>
    have htake : Kept (c.books.take [event]) (c.held ++ [event]) := h.take
    unfold Client.act
    dsimp only
    split
    · refine htake.perm ?_
      simp only [Client.held, List.append_assoc]
      exact List.perm_append_comm.append_left _
    · refine htake.perm ?_
      simp [Client.held]
  | next call =>
    unfold Client.act
    dsimp only
    split
    · exact h
    · next event queue hqueue =>
      refine h.perm ?_
      simp only [Client.held, hqueue, List.flatten_append, List.flatten_cons, List.flatten_nil,
        List.append_nil, List.cons_append]
      rw [← List.append_assoc]
      exact (List.perm_append_singleton event _).symm
  | expire call => exact h
  | closed => exact h
  | settle batch resolve =>
    unfold Client.act
    dsimp only
    split
    · exact h
    · next events hbatch =>
      have hheld := h.perm (held_settle hbatch)
      split
      · exact hheld.give
      · next hthrew =>
        refine Kept.lose ?_ ((hfits events hbatch).resolve_left hthrew)
        rw [map_fst_marked]
        exact hheld

/-! ### The Python client -/

/-- `_pending_events`, with the verdict that each was given. -/
structure PythonClient where
  pending : List (Json × Bool) := []
  books : Books Json := {}

variable (V)

/-- `isinstance(event, dict)`. -/
def isDict : Json → Bool
  | .object _ => true
  | _ => false

/-- What `_poll` finds of an event. -/
def polledDict (event : Json) : Bool :=
  isDict event && V.verifyEnvelope (field event "envelope") mvpTypes

/-- One turn of the loop of `_wait_for_event`: it looks among the pending events, and then polls;
    no `answer` is a request that failed. -/
structure Turn where
  predicate : Json × Bool → Bool
  answer : Option (List Json)

def PythonClient.turn (c : PythonClient) (t : Turn) : PythonClient :=
  match c.pending.find? t.predicate with
  | some event =>
    { pending := c.pending.eraseP t.predicate, books := c.books.give [event.1] }
  | none =>
    match t.answer with
    | none => c
    | some events =>
      let books := c.books.take events
      let verified := mark (polledDict V) events
      if !events.all isDict then { c with books := books.lose verified }
      else
        match verified.find? t.predicate with
        | some event =>
          { pending := c.pending ++ verified.eraseP t.predicate, books := books.give [event.1] }
        | none => { pending := c.pending ++ verified, books }

/-- No answer has an event that is no object beside one that can be verified. -/
def PythonFits (c : PythonClient) (t : Turn) : Prop :=
  ∀ events, c.pending.find? t.predicate = none → t.answer = some events →
    (∀ event ∈ events, isDict event = true) ∨ ∀ event ∈ events, polledDict V event = false

def PythonClient.held (c : PythonClient) : List Json := c.pending.map Prod.fst

theorem found_perm {α : Type*} {l : List α} {p : α → Bool} {a : α} (h : l.find? p = some a) :
    l.Perm (a :: l.eraseP p) := by
  induction l with
  | nil => cases h
  | cons b l ih =>
    by_cases hb : p b = true
    · rw [List.find?_cons_of_pos hb] at h
      cases h
      rw [List.eraseP_cons_of_pos hb]
    · rw [List.find?_cons_of_neg hb] at h
      rw [List.eraseP_cons_of_neg hb]
      exact ((ih h).cons b).trans (List.Perm.swap a b _)

variable {V}

theorem python_kept_turn {c : PythonClient} {t : Turn} (h : Kept c.books c.held)
    (hfits : PythonFits V c t) : Kept (c.turn V t).books (c.turn V t).held := by
  unfold PythonClient.turn
  split
  · next event hfound =>
    exact (h.perm ((found_perm hfound).map Prod.fst)).give
  · next hnone =>
    split
    · exact h
    · next events hanswer =>
      have htake : Kept (c.books.take events) (c.held ++ events) := h.take
      dsimp only
      split
      · next hall =>
        have hlost : ∀ p ∈ mark (polledDict V) events, p.2 = false := by
          intro p hp
          obtain ⟨event, hmem, rfl⟩ := List.mem_map.mp hp
          refine ((hfits events hnone hanswer).resolve_left fun hdict => ?_) event hmem
          rw [List.all_eq_true.mpr hdict] at hall
          cases hall
        refine Kept.lose ?_ hlost
        rw [Custody.map_fst_mark]
        exact htake.perm List.perm_append_comm
      · split
        · next event hfound =>
          have hperm := (found_perm hfound).map Prod.fst
          rw [Custody.map_fst_mark] at hperm
          have hheld : Kept (c.books.take events) ([event.1] ++ (c.held ++
              ((mark (polledDict V) events).eraseP t.predicate).map Prod.fst)) :=
            htake.perm ((hperm.append_left c.held).trans List.perm_middle)
          simpa [PythonClient.held] using hheld.give
        · refine htake.perm (.of_eq ?_)
          simp [PythonClient.held]

/-- In every run of either client in which no event for which verification throws shares a batch
    with one that can be verified, each event that is taken is returned once, or still held, or its
    own verification fails. -/
theorem polling_keeps {acts : List Act} {turns : List Turn}
    (hnode : Runs.Along (Client.act V) (Fits V) {} acts)
    (hpython : Runs.Along (PythonClient.turn V) (PythonFits V) {} turns) :
    Kept (acts.foldl (Client.act V) {}).books (acts.foldl (Client.act V) {}).held ∧
      Kept (turns.foldl (PythonClient.turn V) {}).books
        (turns.foldl (PythonClient.turn V) {}).held := by
  constructor
  · exact hnode.keeps (I := fun c : Client => Kept c.books c.held) Custody.kept_empty
      fun _ _ hkept hfits => kept_act hkept hfits
  · exact hpython.keeps (I := fun c : PythonClient => Kept c.books c.held) Custody.kept_empty
      fun _ _ hkept hfits => python_kept_turn hkept hfits

/-! ### A batch of two -/

/-- An envelope verifies if it does not say that it is forged. -/
def trusting : Verifier where
  publicKey key := key
  sign _ _ := none
  accepts _ := true
  verify _ _ _ := false
  bufferFrom _ := none
  verifyEnvelope envelope _ := isDict envelope && (envelope.get (js "forged")).isNone

/-- An event with an envelope. -/
def signed : Json := .object [(js "envelope", .object [])]

/-- An event that is not what it says, with which verification does not throw. -/
def forged : Json := .object [(js "envelope", .object [(js "forged", .bool true)])]

/-- An event from a node that cannot be resolved. -/
def stranger : Json := .object [(js "kind", .string (js "NEED")), (js "from", .string (js "x"))]

/-- One batch is taken and verified, while no identity can be resolved. -/
def polls (events : List Json) : List Act := [.pollCompact events, .settle 0 fun _ _ => none]

/-- A caller waits for an event that verifies, and one batch comes. -/
def turns (events : List Json) : List Turn := [⟨fun event => event.2, some events⟩]

/-- A forged event does not take the other one with it: both are returned, or it stays pending. -/
theorem polling_keeps_forged :
    ((polls [forged, signed]).foldl (Client.act trusting) {}).books.given = [forged, signed] ∧
    ((turns [forged, signed]).foldl (PythonClient.turn trusting) {}).books.given = [signed] ∧
    Kept ((polls [forged, signed]).foldl (Client.act trusting) {}).books
      ((polls [forged, signed]).foldl (Client.act trusting) {}).held ∧
    Kept ((turns [forged, signed]).foldl (PythonClient.turn trusting) {}).books
      ((turns [forged, signed]).foldl (PythonClient.turn trusting) {}).held := by
  refine ⟨by rfl, by rfl, polling_keeps ⟨trivial, ?_, trivial⟩ ⟨?_, trivial⟩⟩
  · intro events hevents
    cases hevents
    exact .inl rfl
  · intro events _ hanswer
    cases hanswer
    exact .inl (by simp [signed, forged, isDict])

/-- The verifiable event is lost beside one whose sender cannot be resolved, and beside one that is
    no object. -/
theorem batch_lost :
    ¬Kept ((polls [signed, stranger]).foldl (Client.act trusting) {}).books
      ((polls [signed, stranger]).foldl (Client.act trusting) {}).held ∧
    ¬Kept ((turns [signed, .null]).foldl (PythonClient.turn trusting) {}).books
      ((turns [signed, .null]).foldl (PythonClient.turn trusting) {}).held := by
  constructor
  · intro h
    have hlost := h.undeserving (signed, true) List.mem_cons_self
    cases hlost
  · intro h
    have hlost := h.undeserving (signed, true) List.mem_cons_self
    cases hlost

end Truyn.Protocol
