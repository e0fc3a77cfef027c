import Truyn.Js.Text
import Truyn.Schemes.Fences

/-! provider:execute | a NEED is admitted, executed and answered, with an abort signal in between

    `executeNeed` asks for access, for the paid NEED's record, for the effect in the ledger, for
    billing and for the input, then starts the adapter, settles what it cost, and sends the
    terminal. Whatever it asks for may answer or throw. Telemetry that nothing reads again (the
    adapter's name, latencies, PARTIALs) is left out. -/

namespace Truyn.Provider
open Fences

abbrev NeedId := JsString
abbrev NodeId := JsString

/-- A NEED, or the stage of a chain; `maxTokens` is what `billingEstimate` finds. -/
structure Need where
  id : NeedId
  from_ : NodeId
  capability : Option JsString
  input : JsString
  maxTokens : Option ℕ
  compact : Bool
  stage : Option ℕ

/-- The options of a host that its constructor keeps, and what it is given. -/
structure Settings where
  capabilities : List JsString
  accessMode : JsString
  effectLedger : Bool
  requirePaidNeedLedger : Bool
  /-- The mode of the billing policy, if there is one. -/
  billingPolicy : Option JsString
  /-- Whether the node has `materializeContextRefs`. -/
  materializes : Bool
  maxCancellationTombstones : ℕ
  maxConcurrentExecutions : ℕ
  maxPendingExecutions : ℕ
  tombstones_pos : 0 < maxCancellationTombstones

/-- The answer of the billing policy; `finalizes` tells whether it has `finalize`. -/
structure Billing where
  ok : Bool
  reason : Option JsString
  mode : JsString
  billingResponsibility : JsString
  reservedTokens : Option ℕ
  finalizes : Bool

structure Settlement where
  ok : Option Bool
  status : Option JsString
  reason : Option JsString

/-- What the adapter returned, normalized; `usage` is what `reportedUsageTokens` finds. -/
structure Execution where
  output : JsString
  usage : Option ℕ

structure Metadata where
  error : Option JsString := none
  errorClass : Option JsString := none
  accessMode : Option JsString := none
  billingDenied : Bool := false
  billingMode : Option JsString := none
  billingResponsibility : Option JsString := none
  billingReason : Option JsString := none
  billingAccountingStatus : Option JsString := none
  billingAccountingReason : Option JsString := none
  contextRefs : Option ℕ := none
  chainStage : Option ℕ := none
  failed : Bool := false

inductive EffectOutcome
  | completed | failed | unknown
  deriving DecidableEq

inductive BillingOutcome
  | completed | cancelled | failed
  deriving DecidableEq

/-- A reason: that of the signal, or a text. -/
inductive Reason
  | signal
  | text (message : JsString)
  deriving DecidableEq

/-- What an execution asks for and awaits; `turn` is a turn of the event loop. -/
inductive Asked
  | turn
  | authorize
  | verifyPaidNeed
  | beginEffect
  | authorizeBilling (estimatedTokens : Option ℕ)
  | materializeContextRefs
  | verifyPaidNeedAgain
  | execute (input : JsString)
  | finishEffect (outcome : EffectOutcome) (observedTokens : Option ℕ)
  | finalize (outcome : BillingOutcome) (actualTokens : ℕ) (reason : Option Reason)
  | sendTerminal (output : Option JsString) (metadata : Metadata)

/-- An error with its `publicCode`. -/
structure Fault where
  publicCode : Option JsString
  message : JsString

/-- What the world outside answers, whatever is asked; an error is what it throws. -/
structure Answers where
  access : Except JsString Bool
  paid : Except Fault Unit
  acquired : Except JsString Bool
  billing : Except JsString Billing
  /-- The input, and how many references were in it. -/
  materialized : Except JsString (JsString × ℕ)
  executed : Except JsString Execution
  finished : Except JsString Unit
  finalized : Except JsString (Option Settlement)
  sent : Except JsString Unit

abbrev Program := Prog Asked Answers

def Need.chain (n : Need) : Bool := n.stage.isSome

/-- `await settleBilling(billing, …)` -/
def settleBilling (billing : Option Billing) (outcome : BillingOutcome) (actualTokens : ℕ)
    (reason : Option Reason) (next : Option Settlement → Program) : Program :=
  if billing.any Billing.finalizes then
    .ask (.finalize outcome actualTokens reason) fun w =>
      match w.finalized with
      | .ok settlement => next settlement
      | .error _ => next (some ⟨some false, none, some (js "accounting_reconcile_unavailable")⟩)
  else .ask .turn fun _ => next none

def attachBillingMetadata (metadata : Metadata) (billing : Option Billing)
    (settlement : Option Settlement) : Metadata :=
  match billing with
  | none => metadata
  | some b =>
    let metadata := { metadata with
      billingMode := some b.mode, billingResponsibility := some b.billingResponsibility }
    match settlement with
    | none => metadata
    | some s => { metadata with
        billingAccountingStatus :=
          s.status <|> some (if s.ok = some true then js "settled" else js "failed")
        billingAccountingReason := s.reason }

/-- The metadata after `accountingFailure`, and whether it is one. -/
def accountingFailure (metadata : Metadata) (settlement : Option Settlement) : Metadata × Bool :=
  match settlement with
  | none => (metadata, false)
  | some s =>
    if s.ok ≠ some false then (metadata, false)
    else
      ({ metadata with
        error := some (js "PROVIDER_ACCOUNTING_FAILED"), errorClass := some (js "billing")
        billingDenied := true
        billingReason := some (s.reason.getD (js "accounting_reconcile_failed")), failed := true },
        true)

/-- `if (signal.aborted) return;`, and the terminal of a failure. -/
def refuse (metadata : Metadata) : Program :=
  .ifAborted .done (.ask (.sendTerminal none { metadata with failed := true }) fun _ => .done)

/-- `if (this.effectLedger && !need.chain) await this.effectLedger.finishEffect(…)`; it may throw. -/
def finishEffect (h : Settings) (n : Need) (outcome : EffectOutcome) (observed : Option ℕ)
    (thrown : JsString → Program) (next : Program) : Program :=
  if h.effectLedger && !n.chain then
    .ask (.finishEffect outcome observed) fun w =>
      match w.finished with
      | .ok _ => next
      | .error message => thrown message
  else next

/-- The `catch`: with a ledger the effect becomes unknown and nothing is sent. -/
def caught (h : Settings) (n : Need) (billing : Option Billing) (billingSettled : Bool)
    (message : JsString) : Program :=
  let send (settlement : Option Settlement) : Program :=
    refuse { attachBillingMetadata { error := some message } billing settlement with
      chainStage := n.stage }
  let settle (outcome : BillingOutcome) (text : JsString) : Program :=
    if billingSettled then send none
    else settleBilling billing outcome 0 (some (.text (if message = [] then text else message))) send
  if h.effectLedger && !n.chain then .ask (.finishEffect .unknown none) fun _ => .done
  else .ifAborted (settle .cancelled (js "cancelled")) (settle .failed (js "failed"))

/-- The result is sent. -/
def finish (h : Settings) (n : Need) (billing : Option Billing) (contextRefs : Option ℕ)
    (output : JsString) (settlement : Option Settlement) : Program :=
  let metadata := { attachBillingMetadata {} billing settlement with
    contextRefs := contextRefs, chainStage := n.stage }
  let (metadata, failure) := accountingFailure metadata settlement
  .ask (.sendTerminal (if failure then none else some output) metadata) fun w =>
    match w.sent with
    | .ok _ => .done
    | .error message => caught h n billing (billing.any Billing.finalizes) message

/-- The adapter has returned. -/
def afterExecution (h : Settings) (n : Need) (billing : Option Billing) (contextRefs : Option ℕ)
    (e : Execution) : Program :=
  let actualTokens := (e.usage <|> billing.bind Billing.reservedTokens <|> n.maxTokens).getD 0
  finishEffect h n .completed e.usage (caught h n billing false) <|
    .ifAborted (settleBilling billing .cancelled actualTokens (some .signal) fun _ => .done) <|
      settleBilling billing .completed actualTokens none fun settlement =>
        .ifAborted .done (finish h n billing contextRefs e.output settlement)

def execute (h : Settings) (n : Need) (billing : Option Billing) (contextRefs : Option ℕ)
    (input : JsString) : Program :=
  .ask (.execute input) fun w =>
    match w.executed with
    | .ok e => afterExecution h n billing contextRefs e
    | .error message => caught h n billing false message

/-- The input is there. -/
def withInput (h : Settings) (n : Need) (billing : Option Billing) (contextRefs : Option ℕ)
    (input : JsString) : Program :=
  .ifAborted (settleBilling billing .cancelled 0 (some .signal) fun _ => .done) <|
    if h.requirePaidNeedLedger then
      .ask .verifyPaidNeedAgain fun w =>
        match w.paid with
        | .ok _ => execute h n billing contextRefs input
        | .error e => caught h n billing false e.message
    else execute h n billing contextRefs input

/-- The NEED is admitted. -/
def attempt (h : Settings) (n : Need) (billing : Option Billing) : Program :=
  .ifAborted
    (finishEffect h n .unknown none (fun _ => .done) <|
      settleBilling billing .cancelled 0 (some .signal) fun _ => .done) <|
    if h.materializes then
      .ask .materializeContextRefs fun w =>
        match w.materialized with
        | .ok (input, refs) => withInput h n billing (if 0 < refs then some refs else none) input
        | .error message => caught h n billing false message
    else withInput h n billing none n.input

/-- The effect is the host's own. -/
def authorizeBilling (h : Settings) (n : Need) : Program :=
  match h.billingPolicy with
  | none => attempt h n none
  | some mode =>
    .ask (.authorizeBilling n.maxTokens) fun w =>
      match w.billing with
      | .error _ => .done
      | .ok b =>
        if b.ok then attempt h n (some b)
        else
          finishEffect h n .failed none (fun _ => .done) <|
            refuse {
              error := some (js "PROVIDER_BILLING_DENIED"), errorClass := some (js "billing")
              billingDenied := true, billingMode := some mode
              billingReason := some (b.reason.getD (js "billing_not_authorized"))
              chainStage := n.stage }

def beginEffect (h : Settings) (n : Need) : Program :=
  if h.effectLedger && !n.chain then
    .ask .beginEffect fun w =>
      match w.acquired with
      | .ok true => authorizeBilling h n
      | _ => .done
  else authorizeBilling h n

/-- Access is granted. -/
def verifyPaidNeed (h : Settings) (n : Need) : Program :=
  if h.requirePaidNeedLedger then
    .ask .verifyPaidNeed fun w =>
      match w.paid with
      | .ok _ => beginEffect h n
      | .error e =>
        refuse {
          error := some (js "PROVIDER_BILLING_DENIED"), errorClass := some (js "billing")
          billingDenied := true
          billingReason := some (e.publicCode.getD (js "paid_need_ledger_unavailable")) }
  else beginEffect h n

def executeNeed (h : Settings) (n : Need) : Program :=
  if h.capabilities.any fun c => n.capability = some c then
    .ask .authorize fun w =>
      match w.access with
      | .error _ => .done
      | .ok true => verifyPaidNeed h n
      | .ok false =>
        refuse {
          error := some (js "PROVIDER_ACCESS_DENIED"), errorClass := some (js "authorization")
          accessMode := some h.accessMode, chainStage := n.stage }
  else .done

end Truyn.Provider
