import Payman.Handlers
import Payman.Workers.PaymentStatusWorker
import Payman.Workers.WebhookWorker

/-! The running system: any number of API calls and spawned tasks, the one reconciliation worker and
    the one webhook worker, interleaved operation by operation.

    A job's state is the rest of its program. `step` is the whole step relation, executable: a label
    names who acts and what the environment chose. A process may be killed before any of its
    operations, which drops its transaction. -/

namespace Payman
open Schemes

/-- An authenticated API request. -/
inductive Request where
  | create_invoice (business_id : Uuid) (req : CreateInvoiceRequest)
  | get_invoice (invoice_id business_id : Uuid)
  | edit_invoice (invoice_id business_id : Uuid) (req : EditInvoiceRequest)
  | list_invoices (business_id : Uuid) (query : ListInvoicesQuery)
  | finalize_invoice (invoice_id business_id : Uuid) (req : FinalizeInvoiceRequest)
  | void_invoice (invoice_id business_id : Uuid) (req : VoidInvoiceRequest)
  | pay_invoice (invoice_id business_id : Uuid) (idempotency_key : Option String)
      (req : PayInvoiceRequest)
  | create_customer (business_id : Uuid) (req : CreateCustomerRequest)
  | get_customer (id business_id : Uuid)
  | list_customers (business_id : Uuid)
  | create_endpoint (business_id : Uuid) (req : CreateWebhookEndpointRequest)
  | get_endpoint (id business_id : Uuid)
  | list_endpoints (business_id : Uuid)
  | delete_endpoint (id business_id : Uuid)
  deriving DecidableEq

/-- The body of a successful answer. -/
inductive Response where
  | invoice_result (r : InvoiceResult)
  | invoice (r : Invoice)
  | invoices (l : List Invoice)
  | attempt (a : PaymentAttempt)
  | customer (c : Customer)
  | customers (l : List Customer)
  | endpoint (e : WebhookEndpoint)
  | endpoints (l : List WebhookEndpoint)
  | done
  deriving DecidableEq

/-- The business a request is authenticated as. -/
def Request.business : Request → Uuid
  | .create_invoice b _ | .get_invoice _ b | .edit_invoice _ b _ | .list_invoices b _
  | .finalize_invoice _ b _ | .void_invoice _ b _ | .pay_invoice _ b _ _ | .create_customer b _
  | .get_customer _ b | .list_customers b | .create_endpoint b _ | .get_endpoint _ b
  | .list_endpoints b | .delete_endpoint _ b => b

def Request.program : Request → App Response
  | .create_invoice b req => .invoice_result <$> Handlers.create_invoice b req
  | .get_invoice i b => .invoice_result <$> Payman.get_invoice i b
  | .edit_invoice i b req => .invoice_result <$> Payman.edit_invoice i b req
  | .list_invoices b query => .invoices <$> Payman.list_invoices b query
  | .finalize_invoice i b req => .invoice <$> Payman.finalize_invoice i b req
  | .void_invoice i b req => .invoice <$> Payman.void_invoice i b req
  | .pay_invoice i b key req => .attempt <$> Handlers.pay_invoice i b key req
  | .create_customer b req => .customer <$> Handlers.create_customer b req
  | .get_customer c b => .customer <$> Payman.get_customer c b
  | .list_customers b => .customers <$> Payman.list_customers b
  | .create_endpoint b req => .endpoint <$> Handlers.create_endpoint b req
  | .get_endpoint e b => .endpoint <$> Payman.get_endpoint e b
  | .list_endpoints b => .endpoints <$> Payman.list_endpoints b
  | .delete_endpoint e b => (fun _ => .done) <$> Payman.delete_endpoint e b

/-- What a process runs. -/
inductive Job where
  | call (q : Request)
  | dispatch (t : DispatchTask)
  | tick
  | deliveries
  deriving DecidableEq

def Job.program : Job → App Response
  | .call q => q.program
  | .dispatch t => (fun _ => .done) <$> Payman.dispatch t.business_id t.invoice_id t.event_type
  | .tick => (fun _ => .done) <$> Payman.tick
  | .deliveries => (fun _ => .done) <$> Payman.process_pending_deliveries

/-- A process: its job and what is left of its program, nothing if it was killed. -/
structure Proc where
  job : Job
  prog : Option (Prog payman (Except AppError Response))

def Job.proc (j : Job) : Proc := ⟨j, some j.program.run⟩

/-- The operation a process issues next. -/
def Proc.head (pr : Proc) : Option Eff := pr.prog.bind Prog.head

structure Sys where
  world : World
  procs : Pid → Option Proc

namespace Sys

def initial : Sys := ⟨.initial, fun _ => none⟩

inductive Label where
  | arrive (n : ℕ) (q : Request)
  | background (n : ℕ)
  | tick
  | webhook_tick
  | exec (p : Pid) (c : Choice)
  | kill (p : Pid)

/-- The operation that process `p` issues next; `none` if it is not running. -/
def head (σ : Sys) (p : Pid) : Option Eff := (σ.procs p).bind Proc.head

/-- Process `p` becomes `pr` and the world `w`. -/
def set (σ : Sys) (p : Pid) (pr : Proc) (w : World) : Sys :=
  ⟨w, Function.update σ.procs p (some pr)⟩

def start (σ : Sys) (p : Pid) (j : Job) : Sys := σ.set p j.proc σ.world

def step (σ : Sys) : Label → Option Sys
  | .arrive n q => if (σ.procs (.call n)).isNone then some (σ.start (.call n) (.call q)) else none
  | .background n =>
    match σ.world.spawned.reverse[n]? with
    | none => none
    | some t =>
      if (σ.procs (.task n)).isNone then some (σ.start (.task n) (.dispatch t)) else none
  | .tick => if (σ.head .worker).isNone then some (σ.start .worker .tick) else none
  | .webhook_tick =>
    if (σ.head .webhook_worker).isNone then some (σ.start .webhook_worker .deliveries) else none
  | .exec p c =>
    match σ.procs p with
    | some ⟨j, some (.op e k)⟩ =>
      (σ.world.exec p e c).map fun (w, r) => σ.set p ⟨j, some (k r)⟩ w
    | _ => none
  | .kill p =>
    match σ.procs p with
    | some ⟨j, some (.op _ _)⟩ =>
      some (σ.set p ⟨j, none⟩ { σ.world with sessions := σ.world.sessions.rollback p })
    | _ => none

/-- One step under a condition on the state and the label. -/
def Step (ok : Sys → Label → Prop) (σ σ' : Sys) : Prop := ∃ l, ok σ l ∧ σ.step l = some σ'

/-- A run whose steps all satisfy `ok`. -/
abbrev Run (ok : Sys → Label → Prop) : Sys → Sys → Prop := Relation.ReflTransGen (Step ok)

/-- Reached from an empty installation by a run without restrictions. -/
def Reachable (σ : Sys) : Prop := Run (fun _ _ => True) initial σ

/-- Take a list of steps. -/
def steps (σ : Sys) : List Label → Option Sys
  | [] => some σ
  | l :: ls => (σ.step l).bind fun σ' => σ'.steps ls

end Sys

end Payman
