import Payman.Safety.Drafts
import Payman.Safety.Polls
import Payman.Safety.References

/-! What creating and editing an invoice has checked when it commits.

    A new invoice has a customer of its business. The items that a call brings have been checked one
    by one and in total: an edit checks each before its first statement and their total in its
    transaction, a creation checks the total first and each item when it inserts it. -/

namespace Payman
open Schemes

attribute [local irreducible] trim

/-- The items that a call brings. -/
def Job.line_items : Job → Option (List CreateLineItemRequest)
  | .call (.create_invoice _ req) => some req.line_items
  | .call (.edit_invoice _ _ req) => req.line_items
  | _ => none

/-- They may be billed. -/
def Job.Billable (j : Job) : Prop := ∀ items, j.line_items = some items → Payman.Billable items

/-- Where a call that writes items is: before its first statement, after it, in its transaction, or
    behind that. -/
inductive Checking where
  | asking
  | checked
  | writing
  | done

/-- The protocol of such a call. -/
inductive Checking.Step (j : Job) : Checking → (e : Eff) → e.Reply → Checking → Prop
  | find {b u : Uuid} {req : CreateInvoiceRequest} (hj : j = .call (.create_invoice b req)) :
      Step j .asking (.sql (.select_customer_id req.customer_id b)) (.ok (some u)) .checked
  | refuse {cu b : Uuid} {r : Except DbError (Option Uuid)} :
      Step j .asking (.sql (.select_customer_id cu b)) r .done
  | claim {i b : Uuid} {req : EditInvoiceRequest} {r : Except DbError ℕ}
      (hj : j = .call (.edit_invoice i b req)) :
      Step j .asking (.sql (.claim_draft i req.versioning)) r .checked
  | wait {t : DateTime} : Step j .checked .utc_now t .checked
  | begin : Step j .checked .begin (.ok ()) .writing
  | begin_failed {err : DbError} : Step j .checked .begin (.error err) .done
  | write {s : Stmt} {r : Except DbError s.Result} : Step j .writing (.sql s) r .writing
  | mint {u : Uuid} : Step j .writing .new_v4 u .writing
  | look {t : DateTime} : Step j .writing .utc_now t .writing
  | commit {r : Except DbError Unit} (h : j.Billable) : Step j .writing .commit r .done
  | drop {x : Checking} : Step j x .drop () .done

/-! ### The calls follow the protocol -/

section
variable {j : Job} {x : Checking} {α : Type}

theorem reject_if_checks {bad : Prop} [Decidable bad] {e : AppError} :
    Follows (Checking.Step j) (Follows.Ensures x ¬bad) (reject_if bad e).run x := by
  unfold reject_if
  split
  · exact trivial
  · rename_i hgood
    exact ⟨rfl, hgood⟩

theorem check_line_item_checks {item : CreateLineItemRequest} :
    Follows (Checking.Step j) (Follows.Ensures x item.Positive) (check_line_item item).run x := by
  refine .checkE reject_if_checks fun hquantity _ => ?_
  refine .ensures (fun hamount => ?_) reject_if_checks
  exact ⟨Int32.not_le.mp hquantity, Int64.not_le.mp hamount⟩

theorem check_line_items_checks : ∀ items : List CreateLineItemRequest,
    Follows (Checking.Step j) (Follows.Ensures x (∀ item ∈ items, item.Positive))
      (check_line_items items).run x
  | [] => ⟨rfl, nofun⟩
  | _ :: items => by
    refine .checkE check_line_item_checks fun hitem _ => ?_
    refine .ensures (fun hitems => ?_) (check_line_items_checks items)
    exact List.forall_mem_cons.mpr ⟨hitem, hitems⟩

theorem check_edit_items_checks {items : Option (List CreateLineItemRequest)} :
    Follows (Checking.Step j) (Follows.Ensures x (EditChecked items))
      (check_edit_items items).run x := by
  cases items with
  | none => exact ⟨rfl, nofun⟩
  | some items =>
    refine .checkE reject_if_checks fun hne _ => ?_
    refine .ensures (fun hall l hl => ?_) (check_line_items_checks items)
    cases hl
    exact ⟨hne, hall⟩

/-- The clock may be read before the transaction and in it. -/
theorem check_due_date_checks {due_date : NaiveDate} (hx : ∀ t, Checking.Step j x .utc_now t x) :
    Follows (Checking.Step j) (Follows.Ensures x True) (check_due_date due_date).run x := by
  refine .seqE fun t => ⟨_, hx t, ?_⟩
  exact .ensures (fun _ => trivial) reject_if_checks

theorem write_checks {s : Stmt} :
    Follows (Checking.Step j) (Follows.Ensures .writing True) (sql s).run .writing := by
  intro r
  cases r with
  | ok a => exact ⟨_, .write, rfl, trivial⟩
  | error e => exact ⟨_, .write, trivial⟩

/-- The loop makes sure of what its check makes sure of. -/
theorem insert_line_items_checks {check : CreateLineItemRequest → App Unit}
    {φ : CreateLineItemRequest → Prop} {i : Uuid}
    (hcheck : ∀ item, Follows (Checking.Step j) (Follows.Ensures .writing (φ item))
      (check item).run .writing) : ∀ items : List CreateLineItemRequest,
    Follows (Checking.Step j) (Follows.Ensures .writing (∀ item ∈ items, φ item))
      (insert_line_items check i items).run .writing
  | [] => ⟨rfl, nofun⟩
  | item :: items => by
    refine .checkE (hcheck item) fun hitem _ => ?_
    refine .checkE write_checks fun _ line_item => ?_
    refine .checkE (insert_line_items_checks hcheck items) fun hitems _ => ?_
    exact ⟨rfl, List.forall_mem_cons.mpr ⟨hitem, hitems⟩⟩

theorem transaction_checks {body : App α}
    (hbody : Follows (Checking.Step j) (Follows.Ensures .writing j.Billable) body.run .writing) :
    Follows (Checking.Step j) (Safe.Either (fun _ _ => True) fun _ => True)
      (transaction body).run .checked := by
  refine .seqE fun r => ?_
  cases r with
  | error err => exact ⟨_, .begin_failed, trivial⟩
  | ok u =>
    have hcommit : Follows (Checking.Step j) (Safe.Either (fun _ _ => True) fun _ => True) (do
        let a ← body
        commit_tx
        pure a : App α).run .writing := by
      refine .checkE hbody fun hbill a r => ?_
      cases r with
      | ok u => exact ⟨_, .commit hbill, trivial⟩
      | error err => exact ⟨_, .commit hbill, trivial⟩
    refine ⟨_, .begin, or_drop_follows (hcommit.imp fun r y _ => ?_)⟩
    cases r with
    | ok a => trivial
    | error e => exact ⟨_, .drop, trivial⟩

theorem create_invoice_checks {b : Uuid} {req : CreateInvoiceRequest}
    (hj : j = .call (.create_invoice b req)) : Follows (Checking.Step j) (fun _ _ => True)
      (Handlers.create_invoice b req).run .asking := by
  have hboth : Follows (Checking.Step j) (Safe.Either (fun _ _ => True) fun _ => True)
      (Handlers.create_invoice b req).run .asking := by
    refine .checkE reject_if_checks fun hne _ => ?_
    refine .seqE fun r => ?_
    cases r with
    | error err => exact ⟨_, .refuse, trivial⟩
    | ok customer =>
      cases customer with
      | none => exact ⟨_, .refuse, trivial⟩
      | some u =>
        refine ⟨_, .find hj, ?_⟩
        refine .thenE (y := .checked) rfl trivial fun _ => ?_
        refine .checkE reject_if_checks fun htotal _ => ?_
        refine .checkE (check_due_date_checks fun t => .wait) fun _ _ => ?_
        refine transaction_checks ?_
        refine .seqE fun invoice_id => ⟨_, .mint, ?_⟩
        refine .checkE write_checks fun _ invoice => ?_
        have hcheck : ∀ item, Follows (Checking.Step j) (Follows.Ensures .writing item.Positive)
            (check_line_item item).run .writing := fun _ => check_line_item_checks
        refine .checkE (insert_line_items_checks hcheck req.line_items) fun hall line_items => ?_
        subst hj
        refine ⟨rfl, fun items hitems => ?_⟩
        cases hitems
        exact ⟨hne, hall, Int64.not_le.mp htotal⟩
  exact hboth.imp fun _ _ _ => trivial

theorem set_due_date_checks {i : Uuid} {due_date : Option NaiveDate} :
    Follows (Checking.Step j) (Follows.Ensures .writing True)
      (set_due_date i due_date).run .writing := by
  cases due_date with
  | none => exact ⟨rfl, trivial⟩
  | some d =>
    refine .checkE (check_due_date_checks fun _ => .look) fun _ _ => ?_
    exact .checkE write_checks fun _ _ => ⟨rfl, trivial⟩

/-- The total is checked before anything is deleted. -/
theorem replace_line_items_checks {i : Uuid} : ∀ items : Option (List CreateLineItemRequest),
    Follows (Checking.Step j) (Follows.Ensures .writing (∀ l, items = some l → 0 < total_of l))
      (replace_line_items i items).run .writing
  | none => .ensures (fun _ => nofun) write_checks
  | some items => by
    have hdelete : Follows (Checking.Step j) (Follows.Ensures .writing True)
        (delete_line_items i).run .writing := .checkE write_checks fun _ scanned => write_checks
    have hcheck : CreateLineItemRequest → Follows (Checking.Step j) (Follows.Ensures .writing True)
        (pure () : App Unit).run .writing := fun _ => ⟨rfl, trivial⟩
    refine .checkE reject_if_checks fun htotal _ => ?_
    refine .checkE hdelete fun _ _ => ?_
    refine .checkE (insert_line_items_checks hcheck items) fun _ line_items => ?_
    refine .checkE write_checks fun _ _ => ⟨rfl, fun l hl => ?_⟩
    cases hl
    exact Int64.not_le.mp htotal

theorem edit_invoice_checks {i b : Uuid} {req : EditInvoiceRequest}
    (hj : j = .call (.edit_invoice i b req)) : Follows (Checking.Step j) (fun _ _ => True)
      (edit_invoice i b req).run .asking := by
  have hboth : Follows (Checking.Step j) (Safe.Either (fun _ _ => True) fun _ => True)
      (edit_invoice i b req).run .asking := by
    refine .checkE check_edit_items_checks fun hitems _ => ?_
    refine .seqE fun r => ⟨_, .claim hj, ?_⟩
    cases r with
    | error err => trivial
    | ok rows_affected =>
      change ℕ at rows_affected
      refine .checkE reject_if_checks fun _ _ => ?_
      refine transaction_checks ?_
      refine .checkE write_checks fun _ o => ?_
      cases o with
      | none => trivial
      | some state =>
        refine .thenE (y := .writing) rfl trivial fun _ => ?_
        refine .checkE reject_if_checks fun _ _ => ?_
        refine .checkE set_due_date_checks fun _ _ => ?_
        refine .checkE (replace_line_items_checks req.line_items) fun htotal line_items => ?_
        refine .checkE write_checks fun _ updated => ?_
        cases updated with
        | none => trivial
        | some invoice =>
          subst hj
          exact ⟨rfl, fun items h => ⟨(hitems items h).1, (hitems items h).2, htotal items h⟩⟩
  exact hboth.imp fun _ _ _ => trivial

end

/-! ### The watch -/

/-- The customer of a new invoice is the business's. -/
def Job.Served (j : Job) (db : Db) : Prop :=
  ∀ b req, j = .call (.create_invoice b req) → db.Serves b req.customer_id

/-- What such a call knows. -/
def Checking.Knows (p : Pid) (j : Job) : Checking → World → Prop
  | .asking, w => w.tx p = none
  | .checked, w => w.tx p = none ∧ j.Served w.db
  | .writing, w => (∃ t, w.tx p = some t) ∧ j.Served w.db
  | .done, _ => True

/-- The watch on the calls that write items. -/
def Checking.watches : Watches Checking
  | p, .call (.create_invoice b req) => ⟨Checking.Step (.call (.create_invoice b req)),
    fun _ _ => True, Checking.Knows p (.call (.create_invoice b req))⟩
  | p, .call (.edit_invoice i b req) => ⟨Checking.Step (.call (.edit_invoice i b req)),
    fun _ _ => True, Checking.Knows p (.call (.edit_invoice i b req))⟩
  | _, _ => .any

theorem Db.Serves.lasts {db db' : Db} {b cu : Uuid} (h : db.Serves b cu) (hl : Lasts db db') :
    db'.Serves b cu := by
  obtain ⟨r, hr, hb⟩ := h
  exact ⟨r, hl.customer cu r hr, hb⟩

theorem Job.Served.lasts {j : Job} {db db' : Db} (h : j.Served db) (hl : Lasts db db') :
    j.Served db' := fun b req hj => (h b req hj).lasts hl

/-- The commit is the claim of a draft: a version and a time, nothing else. -/
def Commit.Claims (c : Commit) : Prop := ∃ i r t, c.before.invoice i = some r ∧
  c.writes = [.put_invoice { r with updated_at := t, versioning := r.versioning + 1 }]

namespace Checking
variable {σ : Sys} {p : Pid} {j : Job} {x x' : Checking} {c : Choice} {w w' : World}

/-- An operation of the call itself. -/
theorem Knows.exec {e : Eff} {r : e.Reply} (h : x.Knows p j w) (hx : w.exec p e c = some (w', r))
    (hl : Lasts w.db w'.db) (hstep : Checking.Step j x e r x') : x'.Knows p j w' := by
  cases hstep with
  | find hj =>
    obtain ⟨htx, ⟨err, hr, -⟩ | ⟨ws, o, now, hr, hrun, -⟩⟩ := World.sql_idle hx h
    · cases hr
    · cases hr
      refine ⟨htx, Job.Served.lasts (fun b req hj' => ?_) hl⟩
      cases hj.symm.trans hj'
      exact Db.serves_iff.mpr ((Prod.mk.inj (Except.ok.inj hrun)).2 ▸ nofun)
  | claim hj =>
    refine ⟨(World.sql_idle hx h).1, fun b req hj' => ?_⟩
    cases hj.symm.trans hj'
  | wait =>
    cases hx
    exact h
  | begin =>
    obtain ⟨⟨t, ht⟩, -⟩ := World.begin_ok hx
    exact ⟨⟨_, ht⟩, h.2.lasts hl⟩
  | write =>
    obtain ⟨⟨t, ht⟩, hserved⟩ := h
    obtain ⟨-, -, ⟨err, -, ht'⟩ | ⟨ws, a, -, -, ht'⟩⟩ := World.sql_inside hx ht
    · exact ⟨⟨_, ht'⟩, hserved.lasts hl⟩
    · exact ⟨⟨_, ht'⟩, hserved.lasts hl⟩
  | mint | look =>
    cases hx
    exact h
  | refuse | begin_failed | commit | drop => trivial

/-- The steps of others. -/
theorem Knows.passed (h : x.Knows p j w) (hp : Passed p w w') : x.Knows p j w' := by
  cases x with
  | asking => exact hp.tx.trans h
  | checked => exact ⟨hp.tx.trans h.1, h.2.lasts hp.lasts⟩
  | writing => exact ⟨h.1.imp fun t ht => hp.tx.trans ht, h.2.lasts hp.lasts⟩
  | done => trivial

/-- CORRECT (step): nobody disturbs the watch. -/
theorem upholds {l : Sys.Label} (h : Inv .any σ) : σ.Upholds watches l where
  start := fun p j _ _ hhead _ => by
    cases j with
    | call q =>
      cases q with
      | create_invoice => exact ⟨.asking, .map (create_invoice_checks rfl), h.idle p hhead⟩
      | edit_invoice => exact ⟨.asking, .map (edit_invoice_checks rfl), h.idle p hhead⟩
      | _ => exact Watch.any_sees .asking _ _
    | _ => exact Watch.any_sees .asking _ _
  own := fun p j e k c w r x x' hl hp hx hx' hstep => by
    subst hl
    have hlasts := (h.exec_keeps .any hp hx).1.1.lasts
    cases j with
    | call q =>
      cases q with
      | create_invoice | edit_invoice => exact Knows.exec hx' hx hlasts hstep
      | _ => trivial
    | _ => trivial
  other := fun q j w x hp hx => by
    cases j with
    | call q' =>
      cases q' with
      | create_invoice | edit_invoice => exact Knows.passed hx hp
      | _ => trivial
    | _ => trivial

/-- What is committed has been checked, but for the claim of a draft. -/
theorem Knows.checked {e : Eff} {r : e.Reply} {cm : Commit} (h : x.Knows p j w)
    (hx : w.exec p e c = some (w', r)) (hstep : Checking.Step j x e r x')
    (hh : w'.history = cm :: w.history) : j.Served w.db ∧ (cm.Claims ∨ j.Billable) := by
  have hsame : w'.history ≠ w.history := hh ▸ List.cons_ne_self _ _
  cases hstep with
  | find | refuse =>
    obtain ⟨-, ⟨err, -, -, hno⟩ | ⟨ws, o, now, -, hrun, -, hno, -⟩⟩ := World.sql_idle hx h
    · exact absurd hno hsame
    · exact absurd (hno (Prod.mk.inj (Except.ok.inj hrun)).1.symm) hsame
  | claim hj =>
    obtain ⟨-, ⟨err, -, -, hno⟩ | ⟨ws, n, now, -, hrun, -, hno, hyes⟩⟩ := World.sql_idle hx h
    · exact absurd hno hsame
    · rcases Stmt.run_claim_draft hrun with ⟨-, rfl⟩ | ⟨r, hr, -, -, -, rfl⟩
      · exact absurd (hno rfl) hsame
      · obtain rfl := (List.cons.inj (hh.symm.trans (hyes nofun))).1
        refine ⟨fun b req hj' => ?_, .inl ⟨_, r, now, hr, rfl⟩⟩
        cases hj.symm.trans hj'
  | write =>
    obtain ⟨⟨t, ht⟩, -⟩ := h
    exact absurd (World.sql_inside hx ht).2.1 hsame
  | commit hbill => exact ⟨h.2, .inr hbill⟩
  | begin => exact absurd (World.begin_ok hx).2.2 hsame
  | begin_failed => exact absurd (World.begin_error hx).2.2 hsame
  | drop => exact absurd (World.drop_ok hx).2.2 hsame
  | wait | mint | look =>
    cases hx
    exact absurd rfl hsame

/-- CORRECT: whoever commits items has checked them, and the customer they are for. -/
theorem commits_checked (h : σ.Watched watches) {e : Eff}
    {k : e.Reply → Prog payman (Except AppError Response)} {r : e.Reply} {cm : Commit}
    (hp : σ.procs p = some ⟨j, some (.op e k)⟩) (hx : σ.world.exec p e c = some (w, r))
    (hh : w.history = cm :: σ.world.history) : j.Served σ.db ∧ (cm.Claims ∨ j.Billable) := by
  obtain ⟨x, x', hknows, hstep⟩ := (h p _ _ hp).admits r
  cases j with
  | call q =>
    cases q with
    | create_invoice | edit_invoice => exact Knows.checked hknows hx hstep hh
    | _ => exact ⟨nofun, .inr nofun⟩
  | _ => exact ⟨nofun, .inr nofun⟩

end Checking

end Payman
