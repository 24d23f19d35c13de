import Payman.Claims.Heralds
import Payman.Safety.Watches

/-! What an announcement rests on.

    Whoever spawns a dispatch has committed before what its event tells: a finalization of the
    invoice, or an outcome of an attempt that pays it. The heralds of a payment and of the worker are
    watched here in any run, crashes and double outcomes included; a call that finalizes has a
    protocol of its own. -/

namespace Payman
open Schemes

/-- The commit moves the invoice `i` of the business `b` to Open, one version on, and does nothing
    else. -/
def Commit.Finalizes (c : Commit) (i b : Uuid) : Prop :=
  ∃ r t, c.before.invoice i = some r ∧ r.business_id = b ∧ c.writes = [.put_invoice { r with
    state := .Open, updated_at := t, versioning := r.versioning + 1 }]

/-- The commit gives the attempt `a` at the invoice `i` the outcome `v`. -/
def Commit.Settles (c : Commit) (a i : Uuid) (v : Verdict) : Prop :=
  ∃ row, .put_attempt row ∈ c.writes ∧ row.id = a ∧ row.invoice_id = i ∧ row.status = v.status

/-! ### Outcomes -/

/-- What a process in phase `x` can vouch for. -/
structure Herald.Vouches (p : Pid) (x : Herald) (w : World) : Prop where
  tx : x.Owns (fun _ => none) w.db (w.tx p)
  known : w.db.Knows x.known
  news : ∀ n, x.news = some n → (n.attempt, n.invoice) ∈ x.known
  owes : ∀ n, x.owes = some n →
    (∃ c ∈ w.history, c.pid = p ∧ c.Settles n.attempt n.invoice n.verdict) ∧
      ∀ b, x.business = some b → w.db.Belongs n.invoice b

/-- The watch on the processes that announce outcomes. -/
def Herald.watches : Watches Herald
  | p, .call (.pay_invoice i b _ _) =>
    ⟨Herald.Step (some (i, b)), fun _ _ => True, Herald.Vouches p⟩
  | p, .tick => ⟨Herald.Step none, fun _ _ => True, Herald.Vouches p⟩
  | _, _ => .any

namespace Herald
variable {σ : Sys} {p : Pid} {x x' : Herald} {c : Choice} {w : World}

/-- The commit of an answer. -/
theorem settles_of_commit {db : Db} {n : News} {cm : Commit} {ws : List Write} (hcw : cm.writes = ws)
    (hsome : ∃ row, Write.put_attempt row ∈ ws)
    (hall : ∀ row, Write.put_attempt row ∈ ws → row.id = n.attempt ∧ row.status = n.verdict.status)
    (hknown : ∃ row, (applyAll db ws).attempt n.attempt = some row ∧ row.invoice_id = n.invoice) :
    cm.Settles n.attempt n.invoice n.verdict := by
  obtain ⟨row, hrow, hi⟩ := hknown
  rcases Db.attempt_applyAll_cases n.attempt ws db with ⟨-, hno⟩ | ⟨row', hrow', -, h⟩
  · obtain ⟨row₁, hrow₁⟩ := hsome
    exact absurd (hall row₁ hrow₁).1 (hno row₁ hrow₁)
  · cases hrow.symm.trans h
    exact ⟨row, hcw ▸ hrow', (hall row hrow').1, hi, (hall row hrow').2⟩

/-- An operation of the process itself. -/
theorem Vouches.exec (h : x.Vouches p σ.world) (hinv : Inv .any σ) {j : Job} {e : Eff}
    {k : e.Reply → Prog payman (Except AppError Response)} {r : e.Reply}
    (hp : σ.procs p = some ⟨j, some (.op e k)⟩) (hx : σ.world.exec p e c = some (w, r))
    (hstep : Herald.Step j.pays x e r x') : x'.Vouches p w := by
  have hguar := (hinv.exec_keeps .any hp hx).1.1
  have hknown := h.known.grows hguar.grows
  have hnews := h.news
  have htx := h.tx
  -- most phases owe nothing, and the quiet ones have no news either
  have htold : ∀ {y : Herald}, y.Owns (fun _ => none) w.db (w.tx p) → w.db.Knows y.known →
      (∀ n, y.news = some n → (n.attempt, n.invoice) ∈ y.known) → y.owes = none →
      y.Vouches p w := fun htx hknown hnews ho =>
    ⟨htx, hknown, hnews, fun n hn => by cases ho.symm.trans hn⟩
  have hquiet : ∀ {y : Herald}, y.Owns (fun _ => none) w.db (w.tx p) → w.db.Knows y.known →
      y.news = none → y.Vouches p w := fun htx hknown hn => by
    refine ⟨htx, hknown, fun n hn' => ?_, fun n ho => ?_⟩
    · cases hn.symm.trans hn'
    · cases hn.symm.trans (Herald.news_of_owes ho)
  have hempty : ∀ {t : DateTime}, w.tx p = some ⟨t, []⟩ →
      ∃ t, w.tx p = some t ∧ ∀ row, Write.put_attempt row ∉ t.writes := fun ht =>
    ⟨_, ht, fun _ hrow => by cases hrow⟩
  cases hstep with
  | outside he => exact hquiet (he.exec hx htx).1 hknown rfl
  | select =>
    obtain ⟨htx', ⟨err, hr, -⟩ | ⟨ws, rows', now, hr, hrun, hdb, -⟩⟩ := World.sql_idle hx htx
    · cases hr
    · cases hr
      have hws : ws = [] := by cases hrun; rfl
      subst hws
      refine hquiet htx' (fun y hy => ?_) rfl
      obtain ⟨row, hrow, rfl⟩ := List.mem_map.mp hy
      exact ⟨row, hdb ▸ ((Stmt.run_select_pending hrun).2 row hrow).1, rfl⟩
  | @charge k a i b card hi =>
    cases hx
    refine hquiet htx (fun y hy => ?_) rfl
    obtain rfl := List.mem_singleton.mp hy
    cases hguar with
    | quiet _ _ hc => exact absurd hc (List.cons_ne_self _ _)
    | commit _ _ _ hc _ => exact absurd hc (List.cons_ne_self _ _)
    | send a' card' _ _ hc hs =>
      have hc := (Charge.mk.inj (List.cons.inj hc).1).2
      obtain ⟨t, req, rfl, hrow, -⟩ := hs.committed
      obtain ⟨rfl, -⟩ := Prod.mk.inj (Option.some.inj hi)
      exact hc.1 ▸ hrow
  | posted hmem ho =>
    cases hx
    refine htold htx hknown (fun n hn => ?_) rfl
    cases hn
    exact hmem
  | unposted => cases hx; exact hquiet htx hknown rfl
  | polled hmem hok ho =>
    obtain ⟨rfl, -⟩ := Prod.mk.inj (Option.some.inj hx)
    refine htold htx hknown (fun n hn => ?_) rfl
    cases hn
    exact hmem
  | unpolled => cases hx; exact hquiet htx hknown rfl
  | open_ =>
    obtain ⟨⟨t, ht⟩, -⟩ := World.begin_ok hx
    exact hquiet ⟨_, ht, fun row hrow => by cases hrow⟩ hknown rfl
  | open_failed => exact hquiet ((World.begin_error hx).1.trans htx) hknown rfl
  | inside he =>
    obtain ⟨t, ht, hsil⟩ := htx
    obtain ⟨ht', hdb⟩ := he.exec hx ht hsil nofun
    exact hquiet (hdb ▸ ht') hknown rfl
  | close => exact hquiet (World.commit_ok hx).choose_spec.2.1 hknown rfl
  | close_failed =>
    obtain ⟨t, ht, hsil⟩ := htx
    obtain ⟨ht', hdb, -⟩ := World.commit_error hx
    exact hquiet ⟨t, ht'.trans ht, hdb ▸ hsil⟩ hknown rfl
  | drop | abandon | undo => exact hquiet (World.drop_ok hx).1 hknown rfl
  | begin =>
    obtain ⟨⟨t, ht⟩, -⟩ := World.begin_ok hx
    exact htold (hempty ht) hknown hnews rfl
  | begin_failed => exact hquiet ((World.begin_error hx).1.trans htx) hknown rfl
  | @record n k s r hs =>
    obtain ⟨t, ht, hno⟩ := htx
    obtain ⟨-, -, ⟨err, hr, -⟩ | ⟨ws, r', hr, hrun, ht'⟩⟩ := World.sql_inside hx ht
    · cases hr
    · obtain ⟨row₀, hrow₀, -⟩ := h.known _ (hnews n rfl)
      obtain ⟨row, rfl, hid, hst⟩ := hs.writes hrun ((Db.attempt_of_no_write hno _).trans hrow₀)
      refine htold ⟨_, ht', ⟨row, by simp⟩, fun row' hrow' => ?_⟩ hknown hnews rfl
      rcases List.mem_append.mp hrow' with hrow' | hrow'
      · exact absurd hrow' (hno row')
      · obtain rfl : row' = row := by simpa using hrow'
        exact ⟨hid, hst⟩
  | record_failed hs =>
    obtain ⟨t, ht, hno⟩ := htx
    obtain ⟨-, -, ⟨err, -, ht'⟩ | ⟨ws, r', hr, -⟩⟩ := World.sql_inside hx ht
    · exact htold ⟨t, ht', hno⟩ hknown hnews rfl
    · cases hr
  | follow hs =>
    obtain ⟨t, ht, ⟨row, hrow⟩, hall⟩ := htx
    obtain ⟨-, -, ⟨err, -, ht'⟩ | ⟨ws, r', -, hrun, ht'⟩⟩ := World.sql_inside hx ht
    · exact htold ⟨t, ht', ⟨row, hrow⟩, hall⟩ hknown hnews rfl
    · refine htold ⟨_, ht', ⟨row, List.mem_append_left _ hrow⟩, fun row' hrow' => ?_⟩ hknown hnews
        rfl
      rcases List.mem_append.mp hrow' with hrow' | hrow'
      · exact hall row' hrow'
      · exact absurd hrow' (hs.writes hrun row')
  | rollback => exact hquiet (World.rollback_ok hx).1 hknown rfl
  | rollback_failed =>
    obtain ⟨t, ht, hrows⟩ := htx
    exact htold ⟨t, (World.rollback_error hx).1.trans ht, hrows⟩ hknown hnews rfl
  | @commit n k =>
    obtain ⟨t, ht, hsome, hall⟩ := htx
    obtain ⟨t', ht₁, ht', hdb, hh⟩ := World.commit_ok hx
    cases ht.symm.trans ht₁
    refine ⟨ht', hknown, hnews, fun m hm => ⟨?_, fun b hb => by cases hb⟩⟩
    cases hm
    exact ⟨_, hh ▸ List.mem_cons_self .., rfl,
      settles_of_commit rfl hsome hall (hdb ▸ hknown _ (hnews n rfl))⟩
  | commit_failed =>
    obtain ⟨t, ht, hrows⟩ := htx
    exact htold ⟨t, (World.commit_error hx).1.trans ht, hrows⟩ hknown hnews rfl
  | announce | announce_named => cases hx; exact hquiet htx hknown rfl
  | @business n k b =>
    obtain ⟨ht', ⟨err, hr, -⟩ | ⟨ws, r', now, hr, hrun, -⟩⟩ := World.sql_idle hx htx
    · cases hr
    · have hb : σ.db.Belongs n.invoice b := by
        cases hr
        exact Option.map_eq_some_iff.mp (Prod.mk.inj (Except.ok.inj hrun)).2
      refine ⟨ht', hknown, hnews, fun m hm => ⟨?_, fun b' hb' => ?_⟩⟩
      · cases hm
        obtain ⟨⟨cm, hcm, hsettles⟩, -⟩ := h.owes n rfl
        exact ⟨cm, hguar.history cm hcm, hsettles⟩
      · cases hm
        cases hb'
        exact hb.grows hguar.grows
  | business_failed => exact hquiet (World.sql_idle hx htx).1 hknown rfl

/-- The steps of others. -/
theorem Vouches.passed {w w' : World} (h : x.Vouches p w) (hp : Passed p w w') :
    x.Vouches p w' where
  tx := by
    rw [hp.tx]
    cases x with
    | busy k =>
      obtain ⟨t, ht, hsil⟩ := h.tx
      refine ⟨t, ht, fun row hrow =>
        (hsil row hrow).imp_left fun hs => hs.imp_right fun hnone => ?_⟩
      have hlock : LockKey.attempt row.id ∈ lockSet t.writes :=
        List.mem_flatMap.mpr ⟨_, hrow, by simp⟩
      exact (hp.frame.locked t ht _ hlock _ (Db.readsOnly_attempt row.id)).trans hnone
    | _ => exact h.tx
  known := h.known.grows hp.lasts.toGrows
  news := h.news
  owes := fun n hn => by
    obtain ⟨⟨c, hc, hsettles⟩, hb⟩ := h.owes n hn
    exact ⟨⟨c, hp.history c hc, hsettles⟩, fun b hx => (hb b hx).grows hp.lasts.toGrows⟩

/-- A process that is about to start. -/
theorem Vouches.start {w : World} (htx : w.tx p = none) : (quiet []).Vouches p w where
  tx := htx
  known := nofun
  news := nofun
  owes := nofun

/-- CORRECT (step): nobody disturbs the watch. -/
theorem upholds {l : Sys.Label} (h : Inv .any σ) : σ.Upholds watches l where
  start := fun p j _ _ hhead _ => by
    have hfin : ∀ {pays : Option (Uuid × Uuid)} {q : Prog payman (Except AppError Response)},
        Follows (Herald.Step pays) (fun _ y => y.Done) q (.quiet []) →
        Follows (Herald.Step pays) (fun _ _ => True) q (.quiet []) := fun hq =>
      hq.imp fun _ _ _ => trivial
    have htells : (hj : j.Tells) → _ := fun hj => hfin (Job.tells_follows hj)
    cases j with
    | call q =>
      cases q with
      | pay_invoice => exact ⟨.quiet [], htells trivial, .start (h.idle p hhead)⟩
      | _ => exact Watch.any_sees (.quiet []) _ _
    | tick => exact ⟨.quiet [], htells trivial, .start (h.idle p hhead)⟩
    | _ => exact Watch.any_sees (.quiet []) _ _
  own := fun p j e k c w r x x' hl hp hx hx' hstep => by
    subst hl
    cases j with
    | call q =>
      cases q with
      | pay_invoice => exact Vouches.exec hx' h hp hx hstep
      | _ => trivial
    | tick => exact Vouches.exec hx' h hp hx hstep
    | _ => trivial
  other := fun q j w x hp hx => by
    cases j with
    | call q' =>
      cases q' with
      | pay_invoice => exact hx.passed hp
      | _ => trivial
    | tick => exact hx.passed hp
    | _ => trivial

end Herald

/-! ### Finalizations -/

/-- Where a call that finalizes an invoice is: before or after its transaction, in it before and
    after the update, or with the commit behind it. -/
inductive Opening where
  | outside
  | looking
  | staged
  | committed

/-- The protocol of such a call. -/
inductive Opening.Step (i b : Uuid) : Opening → (e : Eff) → e.Reply → Opening → Prop
  | outside {e : Eff} {r : e.Reply} (he : e.task = none) : Step i b .outside e r .outside
  | begin : Step i b .outside .begin (.ok ()) .looking
  | look {s : Stmt} {r : Except DbError s.Result} : Step i b .looking (.sql s) r .looking
  | stage {v : Int32} {r : Invoice} :
      Step i b .looking (.sql (.update_state .Open i b v)) (.ok (some r)) .staged
  | drop {x : Opening} : Step i b x .drop () .outside
  | commit : Step i b .staged .commit (.ok ()) .committed
  | commit_failed {err : DbError} : Step i b .staged .commit (.error err) .outside
  | announce : Step i b .committed (.spawn_dispatch ⟨b, i, "invoice.finalized"⟩) () .outside

theorem finalize_invoice_opens {i b : Uuid} {req : FinalizeInvoiceRequest} :
    Follows (Opening.Step i b) (fun _ _ => True) (finalize_invoice i b req).run .outside := by
  have hdrop : ∀ {x : Opening}, ∃ y, Opening.Step i b x .drop () y ∧ True :=
    ⟨_, .drop, trivial⟩
  have hboth : ∀ {m : App Invoice} {x : Opening}, Follows (Opening.Step i b)
      (Safe.Either (fun _ _ => True) fun _ => True) m.run x →
      Follows (Opening.Step i b) (fun _ _ => True) m.run x := fun h => h.imp fun _ _ _ => trivial
  refine hboth (.bindE ?_ fun updated y (hy : y = .committed) => ?_)
  · intro r
    cases r with
    | error err => exact ⟨_, .outside rfl, trivial⟩
    | ok u =>
      refine ⟨_, .begin, or_drop_follows (.bindE ?_ fun updated y (hy : y = .staged) => ?_)⟩
      · refine .seqE fun r => ?_
        cases r with
        | error err => exact ⟨_, .look, hdrop⟩
        | ok o =>
          refine ⟨_, .look, ?_⟩
          cases o with
          | none => exact hdrop
          | some invoice =>
            refine .thenE (y := .looking) rfl hdrop fun invoice => ?_
            refine .thenE (y := .looking) ?_ hdrop fun _ => .seqE fun r => ?_
            · unfold check_transition reject_if
              split <;> exact rfl
            · cases r with
              | error err => exact ⟨_, .look, hdrop⟩
              | ok o =>
                cases o with
                | none => exact ⟨_, .look, hdrop⟩
                | some updated => exact ⟨_, .stage, rfl⟩
      · subst hy
        intro r
        cases r with
        | error err => exact ⟨_, .commit_failed, hdrop⟩
        | ok u => exact ⟨_, .commit, rfl⟩
  · subst hy
    exact .seqE fun _ => ⟨_, .announce, trivial⟩

/-- What such a call can vouch for. -/
def Opening.Vouches (p : Pid) (i b : Uuid) : Opening → World → Prop
  | .outside, _ => True
  | .looking, w | .staged, w => ∃ t, w.tx p = some t
  | .committed, w => (∃ c ∈ w.history, c.Finalizes i b) ∧ w.db.Belongs i b

/-- The watch on the calls that finalize. -/
def Opening.watches : Watches Opening
  | p, .call (.finalize_invoice i b _) =>
    ⟨Opening.Step i b, fun _ _ => True, Opening.Vouches p i b⟩
  | _, _ => .any

namespace Opening
variable {σ : Sys} {p : Pid} {i b : Uuid} {x x' : Opening} {c : Choice} {w : World}

/-- An operation of the call itself. -/
theorem Vouches.exec (h : x.Vouches p i b σ.world) (hinv : Inv .any σ) {e : Eff}
    {req : FinalizeInvoiceRequest} {k : e.Reply → Prog payman (Except AppError Response)}
    {r : e.Reply} (hp : σ.procs p = some ⟨.call (.finalize_invoice i b req), some (.op e k)⟩)
    (hx : σ.world.exec p e c = some (w, r)) (hstep : Opening.Step i b x e r x') :
    x'.Vouches p i b w := by
  cases hstep with
  | outside | drop | commit_failed | announce => trivial
  | begin =>
    obtain ⟨⟨t, ht⟩, -⟩ := World.begin_ok hx
    exact ⟨_, ht⟩
  | look | stage =>
    obtain ⟨t, ht⟩ := h
    obtain ⟨-, -, ⟨err, -, ht'⟩ | ⟨ws, a, -, -, ht'⟩⟩ := World.sql_inside hx ht
    · exact ⟨_, ht'⟩
    · exact ⟨_, ht'⟩
  | commit =>
    obtain ⟨t, ht⟩ := h
    obtain ⟨t', ht', -, -, hh⟩ := World.commit_ok hx
    cases ht.symm.trans ht'
    have hguar := (hinv.exec_keeps .any hp hx).1.1
    have hgrows := hguar.grows
    cases hguar with
    | quiet _ hh' _ => exact absurd (hh.symm.trans hh') (List.cons_ne_self _ _)
    | send _ _ _ hh' _ _ => exact absurd (hh.symm.trans hh') (List.cons_ne_self _ _)
    | commit ws' _ hh' _ he =>
      obtain rfl : t.writes = ws' := by
        rw [hh, List.cons.injEq, Commit.mk.injEq] at hh'
        exact hh'.1.2.2
      have hmem : (⟨p, σ.db, t.writes⟩ : Commit) ∈ w.history := hh ▸ List.mem_cons_self ..
      generalize t.writes = ws at he hmem
      cases he with
      | finalize hr hb _ _ _ _ =>
        exact ⟨⟨_, hmem, _, _, hr, hb, rfl⟩, Db.Belongs.grows ⟨_, hr, hb⟩ hgrows⟩

/-- The steps of others. -/
theorem Vouches.passed {w w' : World} (h : x.Vouches p i b w) (hp : Passed p w w') :
    x.Vouches p i b w' := by
  cases x with
  | outside => trivial
  | looking | staged => exact h.imp fun t ht => hp.tx.trans ht
  | committed =>
    obtain ⟨⟨c, hc, hf⟩, hb⟩ := h
    exact ⟨⟨c, hp.history c hc, hf⟩, hb.grows hp.lasts.toGrows⟩

/-- CORRECT (step): nobody disturbs the watch. -/
theorem upholds {l : Sys.Label} (h : Inv .any σ) : σ.Upholds watches l where
  start := fun p j _ _ hhead _ => by
    cases j with
    | call q =>
      cases q with
      | finalize_invoice => exact ⟨.outside, .map finalize_invoice_opens, trivial⟩
      | _ => exact Watch.any_sees .outside _ _
    | _ => exact Watch.any_sees .outside _ _
  own := fun p j e k c w r x x' hl hp hx hx' hstep => by
    subst hl
    cases j with
    | call q =>
      cases q with
      | finalize_invoice => exact Vouches.exec hx' h hp hx hstep
      | _ => trivial
    | _ => trivial
  other := fun q j w x hp hx => by
    cases j with
    | call q' =>
      cases q' with
      | finalize_invoice => exact Vouches.passed hx hp
      | _ => trivial
    | _ => trivial

end Opening

end Payman
