import Payman.Claims.Idempotency
import Payman.Safety.Polls
import Payman.Safety.Watches

/-! What stands behind the answers of a payment.

    Whatever the record of a key holds has been committed as the row of an attempt, in a transaction
    that wrote that record. A payment that returns an attempt has either found it in the record, or
    created one under the key itself, and then the record has what it returns. -/

namespace Payman
open Schemes

/-- The commit writes the row of an attempt, of which `a` is what the API shows, together with the
    record of the key `t`. -/
def Commit.Tells (c : Commit) (t : KeyIndex) (a : PaymentAttempt) : Prop :=
  ∃ row kr, Write.put_attempt row ∈ c.writes ∧ row.toPaymentAttempt = a ∧
    Write.put_key kr ∈ c.writes ∧ kr.index = t

/-- Some commit tells of `a` under the key `t`. -/
def Told (past : List Commit) (t : KeyIndex) (a : PaymentAttempt) : Prop :=
  ∃ c ∈ past, c.Tells t a

theorem Told.mono {past past' : List Commit} {t : KeyIndex} {a : PaymentAttempt}
    (h : Told past t a) (hsub : ∀ c ∈ past, c ∈ past') : Told past' t a :=
  let ⟨c, hc, ht⟩ := h; ⟨c, hsub c hc, ht⟩

/-- The first transaction of a payment tells of its attempt. -/
theorem Started.told {past : List Commit} {T : Pid} {t : KeyIndex} {a : PaymentAttempt}
    (h : Started past T t a) : Told past t a := by
  obtain ⟨c, hc, -, hs⟩ := h
  obtain ⟨r, row, kr, hws, hrow, hkr⟩ := hs.writes
  exact ⟨c, hc, row, kr, by simp [hws], hrow, by simp [hws], hkr⟩

/-! ### Records -/

section
variable {K : Setting} {T : Pid} {past : List Commit} {db : Db} {j : Job} {ws : List Write}

/-- The writes leave the record of a key as it is, or one of them is the record afterwards. -/
theorem Db.key_applyAll_cases (t : KeyIndex) : ∀ (ws : List Write) (db : Db),
    (applyAll db ws).idempotency_key t = db.idempotency_key t ∨
      ∃ kr, Write.put_key kr ∈ ws ∧ kr.index = t ∧ (applyAll db ws).idempotency_key t = some kr
  | [], _ => .inl rfl
  | w :: ws, db => by
    rcases Db.key_applyAll_cases t ws (RowWrite.apply db w) with heq | ⟨kr, hkr, ht, h⟩
    · by_cases hw : ∃ kr, w = .put_key kr ∧ kr.index = t
      · obtain ⟨kr, rfl, ht⟩ := hw
        exact .inr ⟨kr, List.mem_cons_self .., ht, heq.trans ((Table.find_put ..).trans (if_pos ht))⟩
      · refine .inl (heq.trans ?_)
        cases w with
        | put_key kr => exact Table.find_put_ne _ fun ht => hw ⟨kr, rfl, ht⟩
        | _ => rfl
    · exact .inr ⟨kr, List.mem_cons_of_mem _ hkr, ht, h⟩

/-- A record is written with the answer of an attempt that is written with it or has been before. -/
theorem Effect.tells (h : Effect K T past db j ws) {kr : IdempotencyKey}
    (hkr : Write.put_key kr ∈ ws) :
    ∃ a, kr.response_body = a.to_value ∧ Told (⟨T, db, ws⟩ :: past) kr.index a := by
  cases h with
  | @pay_start b i a k req r row kr' t _ _ _ hkr' =>
    obtain rfl : kr = kr' := by simpa using hkr
    refine ⟨row.toPaymentAttempt, by rw [hkr'], _, List.mem_cons_self .., row, kr, ?_, rfl, ?_, rfl⟩
    · simp
    · simp
  | @pay_record b i k req a row r kr' o ans t _ _ _ _ hkr' =>
    obtain rfl : kr = _ := by simpa using hkr
    refine ⟨(o.record t row).toPaymentAttempt, rfl, _, List.mem_cons_self .., o.record t row, _, ?_,
      rfl, ?_, rfl⟩
    · simp
    · simp
  | @pay_leave b i k req a kr' t hb hkr' =>
    obtain rfl : kr = _ := by simpa using hkr
    have hindex : kr'.index = (k, b, i) := Db.index_of_key hkr'
    have hold : Told past kr'.index a := hindex ▸ hb.started.told
    exact ⟨a, rfl, hold.mono fun _ hc => List.mem_cons_of_mem _ hc⟩
  | edit_items _ _ _ hpre =>
    rcases hpre with ⟨rfl, -⟩ | ⟨rfl, -⟩ <;> simp at hkr
  | _ => simp at hkr

/-- CORRECT (history): in every committed state the records tell of committed attempts. -/
theorem History.tells {job : Pid → Option Job} (h : History K job past db) {t : KeyIndex}
    {kr : IdempotencyKey} (hkr : db.idempotency_key t = some kr) :
    ∃ a, kr.response_body = a.to_value ∧ Told past t a := by
  induction h generalizing kr with
  | nil => cases hkr
  | @cons past db p j ws h hp he ih =>
    rcases Db.key_applyAll_cases t ws db with heq | ⟨kr', hput, ht, heq⟩
    · obtain ⟨a, hbody, hold⟩ := ih (heq ▸ hkr)
      exact ⟨a, hbody, hold.mono fun _ hc => List.mem_cons_of_mem _ hc⟩
    · obtain rfl := Option.some.inj (heq.symm.trans hkr)
      exact ht ▸ he.tells hput

/-- Whatever a payment commits, it has taken its key by then. -/
theorem Effect.started {t : KeyIndex} {req : PayInvoiceRequest}
    (h : Effect K T past db (.call (.pay_invoice t.2.2 t.2.1 (some t.1) req)) ws) :
    ∃ a, Started (⟨T, db, ws⟩ :: past) T t a := by
  have hold : ∀ {a}, Started past T t a → ∃ a, Started (⟨T, db, ws⟩ :: past) T t a :=
    fun h => ⟨_, h.mono fun _ hc => List.mem_cons_of_mem _ hc⟩
  cases h with
  | pay_record hb => exact hold hb.started
  | pay_leave hb => exact hold hb.started
  | @pay_start b i a k req r row kr now hr hrow hfresh hkr =>
    refine ⟨row.toPaymentAttempt, _, List.mem_cons_self .., rfl, hr.2.2.2.2, ?_, _, row, kr, rfl, rfl,
      ?_⟩
    · rw [hrow]; exact hfresh
    · rw [hkr]; rfl

end

/-! ### The calls -/

/-- Where a payment is: before its lookup, with the record's answer, past the lookup without one, in
    its first transaction before and after the invoice is claimed, past it, or failing. -/
inductive Paying where
  | asking
  | replaying (body : Json)
  | missed
  | opened
  | claimed
  | started
  | failing

/-- The protocol of a payment under the key `t`. -/
inductive Paying.Step (t : KeyIndex) : Paying → (e : Eff) → e.Reply → Paying → Prop
  | replay {body : Json} :
      Step t .asking (.sql (.select_response t)) (.ok (some body)) (.replaying body)
  | miss : Step t .asking (.sql (.select_response t)) (.ok none) .missed
  | begin : Step t .missed .begin (.ok ()) .opened
  | claim {i : Uuid} {v : Int32} {n : ℕ} (hn : n ≠ 0) :
      Step t .opened (.sql (.claim_open i v)) (.ok n) .claimed
  | mint {u : Uuid} : Step t .claimed .new_v4 u .claimed
  | stage {s : Stmt} {a : s.Result} : Step t .claimed (.sql s) (.ok a) .claimed
  | commit : Step t .claimed .commit (.ok ()) .started
  | settle {e : Eff} {r : e.Reply} : Step t .started e r .started
  | fail {x : Paying} {e : Eff} {r : e.Reply} : Step t x e r .failing

/-- An attempt is returned from the record, or by a payment that has started. -/
def Paying.Fin (a : PaymentAttempt) (x : Paying) : Prop :=
  (∃ body, x = .replaying body ∧ PaymentAttempt.from_value body = some a) ∨ x = .started

section
variable {t : KeyIndex} {α : Type}

/-- A statement of the first transaction. -/
theorem stage_pays {s : Stmt} :
    Follows (Paying.Step t) (Safe.Either (fun _ x => x = .claimed) fun x => x = .failing)
      (sql s).run .claimed := by
  intro r
  cases r with
  | ok a => exact ⟨_, .stage, rfl⟩
  | error err => exact ⟨_, .fail, rfl⟩

theorem reject_if_refuses {bad : Prop} [Decidable bad] {e : AppError} {x : Paying}
    {err : Paying → Prop} (hbad : bad) (herr : err x) :
    Follows (Paying.Step t) (Safe.Either (fun _ _ => False) err) (reject_if bad e).run x := by
  rw [reject_if, if_pos hbad]
  exact herr

theorem reject_if_passes {bad : Prop} [Decidable bad] {e : AppError} {x : Paying}
    {err : Paying → Prop} (hbad : ¬bad) :
    Follows (Paying.Step t) (Safe.Either (fun _ y => y = x) err) (reject_if bad e).run x := by
  rw [reject_if, if_neg hbad]
  exact rfl

theorem start_attempt_pays {index : KeyIndex} {req : PayInvoiceRequest} :
    Follows (Paying.Step t) (Safe.Either (fun _ x => x = .started) fun x => x = .failing)
      (start_attempt index req).run .missed := by
  have hdrop : ∃ x, Paying.Step t .failing .drop () x ∧ x = .failing := ⟨_, .fail, rfl⟩
  refine .seqE fun r => ?_
  cases r with
  | error err => exact ⟨_, .fail, rfl⟩
  | ok u =>
    refine ⟨_, .begin, or_drop_follows (.bindE ?_ fun p x (hx : x = .claimed) => hx ▸ fun r => ?_)⟩
    · refine .seqE fun r => ?_
      cases r with
      | error err => exact ⟨_, .fail, hdrop⟩
      | ok n =>
        change ℕ at n
        by_cases hn : n = 0
        · exact ⟨_, .fail, .bindE (reject_if_refuses hn hdrop) fun _ _ h => h.elim⟩
        · refine ⟨_, .claim hn, .elseE (reject_if_passes hn) hdrop fun _ => .seqE fun a => ?_⟩
          refine ⟨_, .mint, .elseE stage_pays hdrop fun attempt => ?_⟩
          exact .elseE stage_pays hdrop fun _ => rfl
    · cases r with
      | error err => exact ⟨_, .fail, hdrop⟩
      | ok u => exact ⟨_, .commit, rfl⟩

/-- CORRECT: a payment follows the protocol. -/
theorem pay_invoice_pays {i b : Uuid} {k : String} {req : PayInvoiceRequest} :
    Follows (Paying.Step (k, b, i)) (Safe.Either Paying.Fin fun _ => True)
      (pay_invoice i b k req).run .asking := by
  refine .seqE fun r => ?_
  cases r with
  | error err => exact ⟨_, .fail, trivial⟩
  | ok existing =>
    change Option Json at existing
    cases existing with
    | some body =>
      refine ⟨_, .replay, ?_⟩
      show Follows _ _ (ok_or (PaymentAttempt.from_value body) .Internal).run _
      cases hvalue : PaymentAttempt.from_value body with
      | none => trivial
      | some a => exact .inl ⟨body, rfl, hvalue⟩
    | none =>
      have hstart : Follows (Paying.Step (k, b, i))
          (Safe.Either (fun _ x => x = .started) fun _ => True) (start_attempt (k, b, i) req).run
          .missed := start_attempt_pays.imp fun r x hx => by
        cases r with
        | ok p => exact hx
        | error err => trivial
      refine ⟨_, .miss, hstart.bindE fun p x hx => ?_⟩
      · obtain rfl : x = .started := hx
        refine .imp (fun r x hx => ?_) (.stays (fun _ _ => .settle) _)
        cases r with
        | ok a => exact .inr hx
        | error err => trivial

end

/-! ### The watch -/

/-- What a payment knows. -/
def Paying.Knows (p : Pid) (t : KeyIndex) : Paying → World → Prop
  | .asking, w => w.tx p = none
  | .replaying body, w => ∃ a, body = PaymentAttempt.to_value a ∧ Told w.history t a
  | .opened, w | .claimed, w => ∃ x, w.tx p = some x
  | .started, w => ∃ a, Started w.history p t a
  | .missed, _ | .failing, _ => True

/-- The watch on the payments that bring a key. -/
def Paying.watches : Watches Paying
  | p, .call (.pay_invoice i b (some k) _) =>
    ⟨Paying.Step (k, b, i), fun r x => ∀ a, r = .ok (.attempt a) → x.Fin a, Paying.Knows p (k, b, i)⟩
  | _, _ => .any

namespace Paying
variable {σ : Sys} {p : Pid} {t : KeyIndex} {x x' : Paying} {c : Choice} {w w' : World}

/-- An operation of the payment itself. -/
theorem Knows.exec (h : x.Knows p t σ.world) (hinv : Inv .any σ) {req : PayInvoiceRequest} {e : Eff}
    {k : e.Reply → Prog payman (Except AppError Response)} {r : e.Reply}
    (hp : σ.procs p = some ⟨.call (.pay_invoice t.2.2 t.2.1 (some t.1) req), some (.op e k)⟩)
    (hx : σ.world.exec p e c = some (w, r)) (hstep : Paying.Step t x e r x') : x'.Knows p t w := by
  have hguar := (hinv.exec_keeps .any hp hx).1.1
  cases hstep with
  | @replay body =>
    obtain ⟨-, ⟨err, hr, -⟩ | ⟨ws, o, now, hr, hrun, -, hno, -⟩⟩ := World.sql_idle hx h
    · cases hr
    · cases hr
      obtain ⟨hws, hfound⟩ := Prod.mk.inj (Except.ok.inj hrun)
      obtain ⟨kr, hkr, rfl⟩ := Option.map_eq_some_iff.mp hfound
      rw [Knows, hno hws.symm]
      exact hinv.history.tells (Option.filter_eq_some_iff.mp hkr).1
  | miss | fail => trivial
  | begin =>
    obtain ⟨⟨x, hx⟩, -⟩ := World.begin_ok hx
    exact ⟨_, hx⟩
  | claim hn =>
    obtain ⟨tx, htx⟩ := h
    obtain ⟨-, -, ⟨err, -, htx'⟩ | ⟨ws, n', -, -, htx'⟩⟩ := World.sql_inside hx htx
    · exact ⟨_, htx'⟩
    · exact ⟨_, htx'⟩
  | mint =>
    cases hx
    exact h
  | stage =>
    obtain ⟨tx, htx⟩ := h
    obtain ⟨-, -, ⟨err, -, htx'⟩ | ⟨ws, a, -, -, htx'⟩⟩ := World.sql_inside hx htx
    · exact ⟨_, htx'⟩
    · exact ⟨_, htx'⟩
  | commit =>
    obtain ⟨tx, htx⟩ := h
    obtain ⟨tx', htx', -, -, hh⟩ := World.commit_ok hx
    cases htx.symm.trans htx'
    cases hguar with
    | quiet _ hh' _ => exact absurd (hh.symm.trans hh') (List.cons_ne_self _ _)
    | send _ _ _ hh' _ _ => exact absurd (hh.symm.trans hh') (List.cons_ne_self _ _)
    | commit ws _ hh' _ he =>
      obtain rfl : tx.writes = ws := (Commit.mk.inj (List.cons.inj (hh.symm.trans hh')).1).2.2
      rw [Knows, hh']
      exact he.started
  | settle => exact h.imp fun a ha => ha.mono hguar.history

/-- The steps of others. -/
theorem Knows.passed (h : x.Knows p t w) (hp : Passed p w w') : x.Knows p t w' := by
  cases x with
  | asking => exact hp.tx.trans h
  | replaying => exact h.imp fun a ha => ⟨ha.1, ha.2.mono hp.history⟩
  | opened | claimed => exact h.imp fun x hx => hp.tx.trans hx
  | started => exact h.imp fun a ha => ha.mono hp.history
  | missed | failing => trivial

/-- What a payment returns it has found, or it has started. -/
theorem sees_start {i b : Uuid} {k : String} {req : PayInvoiceRequest} (hidle : w.tx p = none) :
    (watches p (.call (.pay_invoice i b (some k) req))).Sees
      (some (Job.call (.pay_invoice i b (some k) req)).program.run) w := by
  refine ⟨.asking, ?_, hidle⟩
  have hmap : Follows (Paying.Step (k, b, i))
      (Safe.Either (fun r x => ∀ a, r = .attempt a → Paying.Fin a x) fun _ => True)
      (Response.attempt <$> pay_invoice i b k req).run .asking := .mapE <| pay_invoice_pays.imp
    fun r x hx => by
      cases r with
      | ok a => exact fun a' ha' => Response.attempt.inj ha' ▸ hx
      | error err => trivial
  refine Follows.imp (fun r x hx a ha => ?_) hmap
  subst ha
  exact hx a rfl

/-- CORRECT (step): nobody disturbs the watch. -/
theorem upholds {l : Sys.Label} (h : Inv .any σ) : σ.Upholds watches l where
  start := fun p j _ _ hhead _ => by
    cases j with
    | call q =>
      cases q with
      | pay_invoice i b k req =>
        cases k with
        | some k => exact sees_start (h.idle p hhead)
        | none => exact Watch.any_sees .asking _ _
      | _ => exact Watch.any_sees .asking _ _
    | _ => exact Watch.any_sees .asking _ _
  own := fun p j e k c w r x x' hl hp hx hx' hstep => by
    subst hl
    cases j with
    | call q =>
      cases q with
      | pay_invoice i b key req =>
        cases key with
        | some key => exact Knows.exec (t := (key, b, i)) hx' h hp hx hstep
        | none => trivial
      | _ => trivial
    | _ => trivial
  other := fun q j w x hp hx => by
    cases j with
    | call q' =>
      cases q' with
      | pay_invoice i b key req =>
        cases key with
        | some key => exact Knows.passed hx hp
        | none => trivial
      | _ => trivial
    | _ => trivial

end Paying

/-- CORRECT: the attempt that a payment returns has been committed, with the record of its key. -/
theorem Sys.Reachable.answered {σ : Sys} (h : σ.Reachable) {p : Pid} {i b : Uuid} {k : String}
    {req : PayInvoiceRequest} {a : PaymentAttempt}
    (hp : σ.procs p = some ⟨.call (.pay_invoice i b (some k) req), some (.ret (.ok (.attempt a)))⟩) :
    Told σ.world.history (k, b, i) a := by
  have hinv := h.inv
  obtain ⟨x, hfin, hknows⟩ := (h.watched (fun _ _ => Paying.upholds) p _ _ hp).returned
  rcases hfin a rfl with ⟨body, rfl, hvalue⟩ | rfl
  · obtain ⟨a', rfl, htold⟩ := hknows
    rw [PaymentAttempt.from_to_value] at hvalue
    exact Option.some.inj hvalue ▸ htold
  · obtain ⟨a₀, hstarted⟩ := hknows
    obtain ⟨kr, hkr, hbody⟩ := (hinv.safe _ _ _ hp).2 a₀ hstarted
    obtain ⟨a', hbody', htold⟩ := hinv.history.tells hkr
    have hsame := hbody.symm.trans hbody'
    have hvalue := congrArg PaymentAttempt.from_value hsame
    rw [PaymentAttempt.from_to_value, PaymentAttempt.from_to_value] at hvalue
    exact Option.some.inj hvalue ▸ htold

end Payman
