import Payman.Claims.Drafts
import Payman.Safety.Starts

/-! A payment under a key whose record is no longer live.

    The lookup of a record ends after a day, the unique index on it does not. A key that has ever been
    used for the invoice is neither replayed nor accepted then: the INSERT is refused. -/

namespace Payman
open Schemes

variable {p : Pid} {w : World} {b i : Uuid} {k : String} {req : PayInvoiceRequest}

/-- The database works, and the UUID is new. -/
def Fair (p : Pid) (c : Choice) (w : World) : Prop :=
  c.fail = false ∧ Unseen p c w ∧ (w.sessions.view p).attempt c.uuid = none

instance (p : Pid) (c : Choice) (w : World) : Decidable (Fair p c w) :=
  inferInstanceAs (Decidable (_ ∧ _ ∧ _))

/-- So it goes for a request that runs alone. -/
def Fairly {α : Type} (p : Pid) (x : App α) (cs : List Choice) (w : World) : Prop :=
  x.run.Along (World.exec p) (Fair p) cs w

instance {α : Type} (p : Pid) (x : App α) (cs : List Choice) (w : World) :
    Decidable (Fairly p x cs w) := Prog.decidableAlong ..

theorem Fair.calm : Calm (Fair p) := fun _ _ h => h.1

theorem Fair.draws : Draws p (Fair p) := fun _ _ h => h.2.1

theorem Fair.draws_attempts : DrawsAttempts p (Fair p) := fun _ _ h => h.2.2

/-- From `w` to `w'` the call has committed Processing, a new pending attempt and a record for it of
    this moment, and has sent the charge to the PSP. -/
def Pays (p : Pid) (w w' : World) (index : KeyIndex) (card_token : String) : Prop :=
  ∃ r a t, w.db.invoice index.2.2 = some r ∧ w.db.attempt a = none ∧ w.now ≤ t ∧
    (⟨p, w.db, start_writes index card_token r a t⟩ :: w.history) <:+ w'.history ∧
    (⟨p, a, card_token⟩ :: w.charges) <:+ w'.charges

theorem Launched.pays {w' : World} {index : KeyIndex}
    (h : Launched p w.durable w.now index req w'.durable) :
    Pays p w w' index req.card_token ∧ ∃ r, Payable index req.versioning w.db r := by
  obtain ⟨r, t, a, hr, hnew, ht, hgrown⟩ := h.payable
  exact ⟨⟨r, a, t, hr.1, hnew, ht, hgrown.history, hgrown.charges⟩, r, hr⟩

/-- A call that has left no trace has not paid. -/
theorem Pays.moved {w' : World} {index : KeyIndex} {card_token : String}
    (h : Pays p w w' index card_token) : w'.history ≠ w.history := by
  intro heq
  obtain ⟨r, a, t, -, -, -, hh, -⟩ := h
  have hle := hh.length_le
  rw [heq, List.length_cons] at hle
  omega

/-- CORRECT (a key after its window): let the caller's invoice be open at the current version, and
    no record of its key be younger than a day. A payment on its own, with a database that works,
    has an answer wherever nobody is in a transaction; and it pays exactly if there is no record of
    the key at all and the version is not the last one. -/
theorem key_usable_iff {r : Invoice} (htx : w.tx p = none) (hr : w.db.own b i = some r)
    (hs : r.state = .Open) (hv : r.versioning = req.versioning)
    (hold : ∀ kr, w.db.idempotency_key (k, b, i) = some kr → kr.created_at ≤ w.now - hours24) :
    (w.Quiet → ∀ f : ℕ → Choice, ∃ n w' answer, (pay_invoice i b k req).run.run (World.exec p)
      ((List.range n).map f) w = some (w', answer)) ∧
    ∀ cs w' answer, Fairly p (pay_invoice i b k req) cs w →
      (pay_invoice i b k req).run.run (World.exec p) cs w = some (w', answer) →
      (Pays p w w' (k, b, i) req.card_token ↔
        w.db.idempotency_key (k, b, i) = none ∧ r.versioning ≠ Int32.maxValue) := by
  refine ⟨fun h f => h.returns _ f, fun cs w' answer hcs hrun => ?_⟩
  have hrow : w.db.invoice i = some r := (Db.own_eq_some.mp hr).1
  have hpaid : Launched p w.durable w.now (k, b, i) req w'.durable →
      (Pays p w w' (k, b, i) req.card_token ↔
        w.db.idempotency_key (k, b, i) = none ∧ r.versioning ≠ Int32.maxValue) := fun h => by
    obtain ⟨hpays, r', hr', -, hv', hmax, hkey⟩ := h.pays
    exact ⟨fun _ => ⟨hkey, hv ▸ hmax⟩, fun _ => hpays⟩
  have h := Leaves.of_run (pay_invoice_leaves (World.staged htx) hold) hcs hrun
  cases answer with
  | ok a => exact hpaid h
  | error e =>
    rcases h with ⟨hbad, h'⟩ | ⟨-, h⟩
    · refine ⟨fun hpays => absurd h'.history hpays.moved, fun ⟨hkey, hmax⟩ => ?_⟩
      obtain ⟨hno, -⟩ | ⟨⟨r', hr', hmax'⟩, -⟩ | hused := hbad Fair.calm Fair.draws_attempts
      · exact absurd ⟨hs, hv⟩ (hno r hrow)
      · exact absurd (Option.some.inj (hrow.symm.trans hr') ▸ hmax') hmax
      · exact absurd hkey hused
    · exact hpaid h

/-- A first payment. -/
theorem key_usable_iff_first : ∃ σ ∈ Sys.initial.steps Sys.opened,
    ∃ x ∈ (pay_invoice 20 1 "k" ⟨"card", 2⟩).run.run (World.exec (.call 9)) (apart 10) σ.world,
    Pays (.call 9) σ.world x.1 ("k", 1, 20) "card" := by
  obtain ⟨σ, hσ, htx, ⟨r, hr, hs, hv, hmax⟩, hkey, ⟨x, hx⟩, hcs⟩ :
    ∃ σ ∈ Sys.initial.steps Sys.opened, (σ.world.tx (.call 9)).isNone ∧
    (∃ r ∈ σ.db.own 1 20, r.state = .Open ∧ r.versioning = 2 ∧ r.versioning ≠ Int32.maxValue) ∧
    (σ.db.idempotency_key ("k", 1, 20)).isNone ∧
    (∃ x ∈ (pay_invoice 20 1 "k" ⟨"card", 2⟩).run.run (World.exec (.call 9)) (apart 10) σ.world,
      x.2.toOption.isSome) ∧
    Fairly (.call 9) (pay_invoice 20 1 "k" ⟨"card", 2⟩) (apart 10) σ.world := by decide +kernel
  have hkey := Option.isNone_iff_eq_none.mp hkey
  exact ⟨σ, hσ, x, hx.1, ((key_usable_iff (Option.isNone_iff_eq_none.mp htx) hr hs hv
    fun kr hkr => by cases hkey.symm.trans hkr).2 _ _ _ hcs hx.1).mpr ⟨hkey, hmax⟩⟩

/-- A payment with key "k" is declined; a day and an hour later somebody looks at the invoice. -/
def declined_yesterday : List Sys.Label :=
  Sys.opened ++ Sys.pays 3 "k" 2 40 ++
  Sys.answered (.call 3) (.response 200 (some ⟨"failed", none, some "card_declined"⟩)) ++
  Sys.go (.call 3) 6 ++
  [.arrive 4 (.get_invoice 20 1), .exec (.call 4) { Sys.calm with elapsed := 90000000000 }]

/-- The next payment with this key is refused, a day after the record has ended. -/
theorem key_not_usable : ¬∀ (σ : Sys), σ.Reachable → ∀ (p : Pid) (b i : Uuid) (k : String)
    (req : PayInvoiceRequest) (r : Invoice), σ.world.tx p = none → σ.db.own b i = some r →
    r.state = .Open → r.versioning = req.versioning → r.versioning ≠ Int32.maxValue →
    (∀ kr, σ.db.idempotency_key (k, b, i) = some kr → kr.created_at ≤ σ.world.now - hours24) →
    ∀ cs w' answer, Fairly p (pay_invoice i b k req) cs σ.world →
      (pay_invoice i b k req).run.run (World.exec p) cs σ.world = some (w', answer) →
      Pays p σ.world w' (k, b, i) req.card_token := by
  obtain ⟨σ, hσ, htx, ⟨r, hr, hs, hv, hmax⟩, ⟨kr, hkr, hold⟩, ⟨x, hx, hlen⟩, hcs⟩ :
    ∃ σ ∈ Sys.initial.steps declined_yesterday, (σ.world.tx (.call 9)).isNone ∧
    (∃ r ∈ σ.db.own 1 20, r.state = .Open ∧ r.versioning = 4 ∧ r.versioning ≠ Int32.maxValue) ∧
    (∃ kr ∈ σ.db.idempotency_key ("k", 1, 20), kr.created_at ≤ σ.world.now - hours24) ∧
    (∃ x ∈ (pay_invoice 20 1 "k" ⟨"card", 4⟩).run.run (World.exec (.call 9)) (apart 10) σ.world,
      x.1.history.length = σ.world.history.length) ∧
    Fairly (.call 9) (pay_invoice 20 1 "k" ⟨"card", 4⟩) (apart 10) σ.world := by decide +kernel
  intro h
  obtain ⟨r', a, t, -, -, -, hh, -⟩ := h σ (Sys.reachable_of_steps hσ) (.call 9) 1 20 "k" ⟨"card", 4⟩
    r (Option.isNone_iff_eq_none.mp htx) hr hs hv hmax
    (fun kr' hkr' => Option.some.inj (hkr.symm.trans hkr') ▸ hold) _ _ _ hcs hx
  have hle := hh.length_le
  rw [hlen, List.length_cons] at hle
  omega

end Payman
