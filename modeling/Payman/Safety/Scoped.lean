import Payman.Safety.Twins
import Payman.System

/-! The owner-scoped requests, each in two worlds with the same estate. -/

namespace Payman
open Schemes

attribute [local irreducible] trim starts_with

variable {p : Pid} {b i id : Uuid} {u : Db × Db} {w : World × World} {α : Type}

/-- The requests that look up every row by its owner; an edit and a payment do not. -/
def Request.scoped : Request → Bool
  | .edit_invoice .. | .pay_invoice .. => false
  | _ => true

/-- A request of `b` does the same in both worlds and leaves them alike. -/
abbrev Alike (p : Pid) (b : Uuid) (u : Db × Db) (x : App α) (w : World × World) : Prop :=
  Twins p (fun _ => Paired p b u none) (Paired p b u none) x w

/-- What a transaction of `b` ends in. -/
abbrev InTx (p : Pid) (b : Uuid) (u : Db × Db) (w : World × World) : Prop :=
  ∃ t, Paired p b u (some t) w

/-- What is carried through a transaction: the invoice `i` of `b`. -/
structure Has (p : Pid) (b i : Uuid) (w : World × World) : Prop where
  fst : (w.1.sessions.view p).mine b i = true
  snd : (w.2.sessions.view p).mine b i = true

theorem Paired.has {tx : Option (Tx DateTime Write)} (h : Paired p b u tx w)
    (hi : (w.1.sessions.view p).mine b i = true) : Has p b i w :=
  ⟨hi, (Db.mine_congr h.view i).symm.trans hi⟩

theorem Has.still {w' : World × World} (h : Has p b i w) (hs : Still p w w') : Has p b i w' :=
  ⟨hs.fst ▸ h.fst, hs.snd ▸ h.snd⟩

/-- A customer of `b`, in both worlds. -/
structure Serves (p : Pid) (b c : Uuid) (w : World × World) : Prop where
  fst : ∃ r, (w.1.sessions.view p).customers.find c = some r ∧ r.business_id = b
  snd : ∃ r, (w.2.sessions.view p).customers.find c = some r ∧ r.business_id = b

theorem Paired.serves {tx : Option (Tx DateTime Write)} {c : Uuid} {r : Customer}
    (h : Paired p b u tx w) (hr : (w.1.sessions.view p).customers.find c = some r)
    (hb : r.business_id = b) : Serves p b c w := by
  refine ⟨⟨r, hr, hb⟩, r, ?_, hb⟩
  have hfind : ∀ db : Db, (db.estate b).customers.find c =
      (db.customers.find c).filter fun r => decide (r.business_id = b) :=
    fun db => Table.find_filter ..
  have heq := congrArg (fun e => e.customers.find c) h.view
  simp only [hfind, hr, Option.filter_some, hb, decide_true, if_true] at heq
  exact (Option.filter_eq_some_iff.mp heq.symm).1

theorem Serves.still {c : Uuid} {w' : World × World} (h : Serves p b c w) (hs : Still p w w') :
    Serves p b c w' := ⟨hs.fst ▸ h.fst, hs.snd ▸ h.snd⟩

namespace Alike

/-! ### Customers and endpoints -/

theorem create_customer {req : CreateCustomerRequest} (h : Paired p b u none w) :
    Alike p b u (Handlers.create_customer b req) w := by
  refine .seq (.reject_if h (.seq (.reject_if h (.seq (.new_v4 h fun id w₁ h₁ hs hu₁ hu₂ => ?_)))))
  refine .adapt (.sql h₁ ⟨rfl, hs.fst ▸ hu₁.customer⟩ ⟨rfl, hs.snd ▸ hu₂.customer⟩
    (fun _ _ _ _ w₂ h₂ _ _ _ => h₂) fun _ h₂ => h₂)

theorem get_customer (h : Paired p b u none w) : Alike p b u (get_customer id b) w := by
  refine .seq (.query h rfl rfl (fun _ _ _ _ hr => by cases hr; rfl) (fun _ _ o w₁ h₁ _ _ => ?_)
    fun _ h₁ => h₁)
  exact .ok_or h₁ fun _ _ => h₁

theorem list_customers (h : Paired p b u none w) : Alike p b u (list_customers b) w :=
  .query h rfl rfl (fun _ _ _ _ hr => by cases hr; rfl) (fun _ _ _ _ h₁ _ _ => h₁) fun _ h₁ => h₁

theorem create_endpoint {req : CreateWebhookEndpointRequest} (h : Paired p b u none w) :
    Alike p b u (Handlers.create_endpoint b req) w := by
  refine .seq (.reject_if h (.seq (.reject_if h (.seq (.new_v4 h fun id w₁ h₁ _ _ _ => ?_)))))
  exact .sql h₁ rfl rfl (fun _ _ _ _ _ h₂ _ _ _ => h₂) fun _ h₂ => h₂

theorem get_endpoint (h : Paired p b u none w) : Alike p b u (get_endpoint id b) w := by
  refine .seq (.query h rfl rfl (fun _ _ _ _ hr => by cases hr; rfl) (fun _ _ o w₁ h₁ _ _ => ?_)
    fun _ h₁ => h₁)
  exact .ok_or h₁ fun _ _ => h₁

theorem list_endpoints (h : Paired p b u none w) : Alike p b u (list_endpoints b) w :=
  .query h rfl rfl (fun _ _ _ _ hr => by cases hr; rfl) (fun _ _ _ _ h₁ _ _ => h₁) fun _ h₁ => h₁

theorem delete_endpoint (h : Paired p b u none w) : Alike p b u (delete_endpoint id b) w := by
  refine .seq (.sql h rfl rfl (fun _ _ _ (n : ℕ) w₁ h₁ _ _ _ => ?_) fun _ h₁ => h₁)
  exact .reject_if h₁ h₁

/-! ### Invoices -/

theorem get_invoice (h : Paired p b u none w) : Alike p b u (get_invoice i b) w := by
  refine .seq (.query h rfl rfl (fun _ _ _ _ hr => (Stmt.run_select_invoice hr).1)
    (fun _ _ o w₁ h₁ hs hr => ?_) fun _ h₁ => h₁)
  refine .seq (.ok_or h₁ fun r ho => ?_)
  have hi := h.has (Db.mine_eq_true.mpr ⟨r, (Stmt.run_select_invoice hr).2 r ho⟩)
  have hi' := hi.still hs
  exact .seq (.query h₁ hi'.fst hi'.snd (fun _ _ _ _ hr => by cases hr; rfl)
    (fun _ _ _ _ h₂ _ _ => h₂) fun _ h₂ => h₂)

theorem list_invoices {query : ListInvoicesQuery} (h : Paired p b u none w) :
    Alike p b u (list_invoices b query) w :=
  .query h rfl rfl (fun _ _ _ _ hr => by cases hr; rfl) (fun _ _ _ _ h₁ _ _ => h₁) fun _ h₁ => h₁

/-- Every item that is inserted leaves the invoice with `b`. -/
theorem insert_line_items : ∀ {items : List CreateLineItemRequest} {w : World × World},
    InTx p b u w → Has p b i w → Twins p (fun _ => InTx p b u) (InTx p b u)
      (insert_line_items check_line_item i items) w
  | [], _, h, _ => h
  | item :: items, w, h, hi => by
    refine .seq (.seq (.reject_if h (.reject_if h ?_)))
    obtain ⟨t, ht⟩ := h
    refine .seq (.sql ht hi.fst hi.snd (fun _ _ ws x w₁ h₁ hrun hv₁ hv₂ => ?_) fun _ h₁ => ⟨_, h₁⟩)
    obtain ⟨-, -, rfl⟩ := Stmt.run_insert_line_item hrun
    have hi₁ : Has p b i w₁ := ⟨hv₁ ▸ hi.fst, hv₂ ▸ hi.snd⟩
    refine .bind (insert_line_items ⟨_, h₁⟩ hi₁) fun line_items w₂ h₂ => ?_
    exact h₂

theorem create_invoice {req : CreateInvoiceRequest} (h : Paired p b u none w) :
    Alike p b u (Handlers.create_invoice b req) w := by
  refine .seq (.reject_if h (.seq (.query h rfl rfl (fun _ _ _ _ hr => by cases hr; rfl)
    (fun _ _ o w₁ h₁ hs₁ hr => ?_) fun _ h₁ => h₁)))
  refine .seq (.ok_or h₁ fun c ho => ?_)
  have hc : Serves p b req.customer_id w := by
    cases hr
    obtain ⟨r, hr, -⟩ := Option.map_eq_some_iff.mp ho
    obtain ⟨hf, hb⟩ := Stmt.lookup_some hr
    exact h.serves hf (of_decide_eq_true hb)
  refine .seq (.reject_if h₁ (.seq (.seq (.utc_now h₁ fun now w₂ h₂ hs₂ => .reject_if h₂ ?_))))
  refine .transaction h₂ fun t w₃ h₃ hs₃ => .seq (.new_v4 h₃ fun id w₄ h₄ hs₄ hu₁ hu₂ => ?_)
  have hc₄ := (((hc.still hs₁).still hs₂).still hs₃).still hs₄
  refine .seq (.sql h₄ ⟨rfl, hs₄.fst ▸ hu₁.invoice, hc₄.fst⟩ ⟨rfl, hs₄.snd ▸ hu₂.invoice, hc₄.snd⟩
    (fun _ _ _ r w₅ h₅ hrun hv _ => ?_) fun _ h₅ => ⟨_, h₅⟩)
  -- the new invoice is there, and is `b`'s
  obtain ⟨-, rfl, rfl⟩ := Stmt.run_insert_invoice hrun
  have hi : (w₅.1.sessions.view p).mine b id = true := by
    rw [hv]
    exact Db.mine_eq_true.mpr ⟨_, (Table.find_put ..).trans (if_pos rfl), rfl⟩
  exact .bind (insert_line_items ⟨_, h₅⟩ (h₅.has hi)) fun _ _ h₆ => h₆

/-! ### States -/

theorem finalize_invoice {req : FinalizeInvoiceRequest} (h : Paired p b u none w) :
    Alike p b u (finalize_invoice i b req) w := by
  refine .bind (.transaction h fun t w₁ h₁ _ => ?_) fun r w₂ h₂ =>
    .seq (.spawn_dispatch h₂ fun _ h₃ => h₃)
  refine .seq (.query h₁ rfl rfl (fun _ _ _ _ hr => (Stmt.run_select_invoice hr).1)
    (fun _ _ o w₂ h₂ _ _ => ?_) fun _ h₂ => ⟨_, h₂⟩)
  refine .seq (.ok_or ⟨_, h₂⟩ fun r _ => .seq (.reject_if ⟨_, h₂⟩ ?_))
  refine .seq (.sql h₂ rfl rfl (fun _ _ _ o w₃ h₃ _ _ _ => ?_) fun _ h₃ => ⟨_, h₃⟩)
  exact .ok_or ⟨_, h₃⟩ fun _ _ => ⟨_, h₃⟩

theorem void_invoice {req : VoidInvoiceRequest} (h : Paired p b u none w) :
    Alike p b u (void_invoice i b req) w := by
  refine .transaction h fun t w₁ h₁ _ => ?_
  refine .seq (.query h₁ rfl rfl (fun _ _ _ _ hr => (Stmt.run_select_state_at_version hr).1)
    (fun _ _ o w₂ h₂ _ _ => ?_) fun _ h₂ => ⟨_, h₂⟩)
  refine .seq (.ok_or ⟨_, h₂⟩ fun r _ => .seq (.reject_if ⟨_, h₂⟩ ?_))
  refine .seq (.sql h₂ rfl rfl (fun _ _ _ o w₃ h₃ _ _ _ => ?_) fun _ h₃ => ⟨_, h₃⟩)
  exact .ok_or ⟨_, h₃⟩ fun _ _ => ⟨_, h₃⟩

/-- CORRECT: an owner-scoped request of `b` does the same in both worlds. -/
theorem request {q : Request} (hq : q.scoped = true) (hb : q.business = b)
    (h : Paired p b u none w) : Alike p b u q.program w := by
  subst hb
  cases q with
  | edit_invoice | pay_invoice => cases hq
  | create_invoice => exact .map (create_invoice h)
  | get_invoice => exact .map (get_invoice h)
  | list_invoices => exact .map (list_invoices h)
  | finalize_invoice => exact .map (finalize_invoice h)
  | void_invoice => exact .map (void_invoice h)
  | create_customer => exact .map (create_customer h)
  | get_customer => exact .map (get_customer h)
  | list_customers => exact .map (list_customers h)
  | create_endpoint => exact .map (create_endpoint h)
  | get_endpoint => exact .map (get_endpoint h)
  | list_endpoints => exact .map (list_endpoints h)
  | delete_endpoint => exact .map (delete_endpoint h)

end Alike

end Payman
