import Payman.Safety.Gateway

/-! What the two limiters guarantee to the calls of the API.

    While Redis answers and forgets nothing that still counts, no address and no business gets more
    through than the limit. Whatever Redis does, who is sent away has used up a log of its own:
    no client can fill another one's, and no address a business's. -/

namespace Payman.Registry
open Schemes

namespace Gateway
variable {sha256 : String → List UInt8} {g g' : Gateway} {l : Label} {layer : Layer}

/-! ### Refusals -/

/-- Who has passed the limiter under the key of an address comes from that address. -/
theorem Inv.from_address (h : g.Inv) {r : RateRequest} {ip : Ipv4Addr} {n : ℕ}
    (hr : g.check .ip n = .passed r) (hkey : r.key = ip.to_string) :
    ∃ p, g.requests n = some p ∧ p.ip = ip ∧ p.checks .ip = .passed r := by
  obtain ⟨p, hp, hk⟩ := h.draws .ip n r (by rw [hr]; rfl)
  refine ⟨p, hp, Ipv4Addr.to_string_inj ?_, (check_of_requests hp).symm.trans hr⟩
  rw [Option.some.inj hk, hkey]

/-- CORRECT (who is sent away): a request that a limiter refuses comes after as many as the limit that
    this limiter let through for the same address, or the same business, and that are younger than a
    window; in any run, with any clocks and whatever becomes of the scripts. -/
theorem refused_only_when_full (h : Run sha256 Fresh .initial g) :
    (∀ n p r, g.requests n = some p → p.checks .ip = .refused r →
      ∃ ns : Finset ℕ, ns.card = MAX_REQUESTS ∧ ∀ m ∈ ns, ∃ p' r', g.requests m = some p' ∧
        p'.ip = p.ip ∧ p'.checks .ip = .passed r' ∧ (r.now : ℤ) - WINDOW_MS < r'.now) ∧
    ((∀ n biz, g.server.outcome n = some (.ok (.authenticated biz)) → biz.id < 2 ^ 128) →
      ∀ n r, g.check .business n = .refused r →
        ∃ biz, g.server.outcome n = some (.ok (.authenticated biz)) ∧
          ∃ ns : Finset ℕ, ns.card = MAX_REQUESTS ∧ ∀ m ∈ ns, ∃ biz' r',
            g.server.outcome m = some (.ok (.authenticated biz')) ∧ biz'.id = biz.id ∧
              g.check .business m = .passed r' ∧ (r.now : ℤ) - WINDOW_MS < r'.now) := by
  have hinv := h.inv fun _ _ hfresh => hfresh
  have hdraws : ∀ {layer n c r}, g.check layer n = c → c.request = some r → g.Draws layer n r.key :=
    fun {layer n c r} hc hr => hinv.draws layer n r (by rw [hc, hr])
  refine ⟨fun n p r hp hr => ?_, fun huuid n r hr => ?_⟩
  · have hcheck := (check_of_requests hp).trans hr
    obtain ⟨p₀, hp₀, hkey⟩ := hdraws hcheck rfl
    cases hp.symm.trans hp₀
    obtain ⟨ns, hcard, hns⟩ := hinv.refused _ n r hcheck
    refine ⟨ns, hcard, fun m hm => ?_⟩
    obtain ⟨r', hr', hk, hnow⟩ := hns m hm
    obtain ⟨p', hp', hip, hpassed⟩ := hinv.from_address hr' (hk.trans (Option.some.inj hkey).symm)
    exact ⟨p', r', hp', hip, hpassed, hnow⟩
  · obtain ⟨p, -, hkey⟩ := hdraws hr rfl
    obtain ⟨biz, hbiz, hk⟩ := key_business hkey
    obtain ⟨ns, hcard, hns⟩ := hinv.refused _ n r hr
    refine ⟨biz, hbiz, ns, hcard, fun m hm => ?_⟩
    obtain ⟨r', hr', hk', hnow⟩ := hns m hm
    obtain ⟨p', -, hkey'⟩ := hdraws hr' rfl
    obtain ⟨biz', hbiz', hk''⟩ := key_business hkey'
    have hid : hyphenated biz'.id = hyphenated biz.id := hk''.symm.trans (hk'.trans hk)
    exact ⟨biz', r', hbiz', hyphenated_inj (huuid m biz' hbiz') (huuid n biz hbiz) hid, hr', hnow⟩

/-- As many visits from one address as may pass, and one more. -/
def crowd : List Label :=
  (List.range 101).flatMap fun n =>
    [.connect n ⟨127, 0, 0, 1⟩ .health, .come .ip n (1000 + n) n,
      .script .ip n (1000 + n) .answered]

/-- The last one is sent away. -/
theorem crowd_refused : (initial.steps (fun _ => []) crowd).map
    (fun g => (g.check .ip 100, g.limiter.db.clock)) =
      some (.refused ⟨"127.0.0.1", 1100, log_member 1100 100⟩, 1100) := by decide +kernel

theorem crowd_in_time : Allowed (step fun _ => []) (InTime 0) initial crowd := by decide +kernel

theorem refused_only_when_full_crowd : ∃ g ∈ initial.steps (fun _ => []) crowd,
    ∃ ns : Finset ℕ, ns.card = 100 ∧ ∀ m ∈ ns, ∃ p' r', g.requests m = some p' ∧
      p'.ip = ⟨127, 0, 0, 1⟩ ∧ p'.checks .ip = .passed r' ∧ (1100 : ℤ) - WINDOW_MS < r'.now := by
  obtain ⟨g, hg, hlast⟩ := Option.map_eq_some_iff.mp crowd_refused
  have horderly : Run (fun _ => []) Orderly initial g :=
    (Run.punctual (run_of_steps hg crowd_in_time)).2
  obtain ⟨hcheck, -⟩ := Prod.mk.inj hlast
  have hrun : Run (fun _ => []) Fresh initial g :=
    Schemes.Run.weaken (fun _ _ hl => hl.fresh) horderly
  obtain ⟨p, hp, hkey⟩ := (hrun.inv fun _ _ h => h).draws .ip 100 _ (by rw [hcheck]; rfl)
  have hip : p.ip = ⟨127, 0, 0, 1⟩ := Ipv4Addr.to_string_inj (Option.some.inj hkey)
  obtain ⟨ns, hcard, hns⟩ := (refused_only_when_full hrun).1 100 p _ hp
    ((check_of_requests hp).symm.trans hcheck)
  exact ⟨g, hg, ns, hcard, hip ▸ hns⟩

/-! ### The limit -/

/-- CORRECT (the limit): while Redis answers and remembers, no window of a minute holds more calls of
    one business, nor more requests from one address that come past its limiter, than the limit. -/
theorem limit_never_exceeded (h : Run sha256 Orderly .initial g) (t : ℤ) (ns : Finset ℕ) :
    (∀ b, (∀ n ∈ ns, ∃ q r, g.server.billing.job (.call n) = some (.call q) ∧ q.business = b ∧
        g.check .business n = .passed r ∧ t ≤ r.now ∧ (r.now : ℤ) < t + WINDOW_MS) →
      ns.card ≤ MAX_REQUESTS) ∧
    ∀ ip, (∀ n ∈ ns, ∃ p r, g.requests n = some p ∧ p.ip = ip ∧ p.checks .ip = .passed r ∧
        t ≤ r.now ∧ (r.now : ℤ) < t + WINDOW_MS) → ns.card ≤ MAX_REQUESTS := by
  have hcomplete := h.complete
  have hdraws : ∀ {layer n r}, g.check layer n = .passed r → g.Draws layer n r.key :=
    fun {layer n r} hr => hcomplete.draws layer n r (by rw [hr]; rfl)
  refine ⟨fun b hns => ?_, fun ip hns => ?_⟩
  · have hpassed : ∀ n ∈ ns, ∃ r, g.check .business n = .passed r ∧ r.key = hyphenated b ∧
        t ≤ r.now ∧ (r.now : ℤ) < t + WINDOW_MS := fun n hn => by
      obtain ⟨q, r, hq, rfl, hr, hlo, hhi⟩ := hns n hn
      obtain ⟨biz, -, hbiz, hid, -⟩ := h.admits.handled n q hq
      obtain ⟨p, -, hkey⟩ := hdraws hr
      obtain ⟨biz', hbiz', hk⟩ := key_business hkey
      cases hbiz.symm.trans hbiz'
      exact ⟨r, hr, hid ▸ hk, hlo, hhi⟩
    exact hcomplete.card_le hpassed
  · have hpassed : ∀ n ∈ ns, ∃ r, g.check .ip n = .passed r ∧ r.key = ip.to_string ∧
        t ≤ r.now ∧ (r.now : ℤ) < t + WINDOW_MS := fun n hn => by
      obtain ⟨p, r, hp, rfl, hr, hlo, hhi⟩ := hns n hn
      have hcheck := (check_of_requests hp).trans hr
      obtain ⟨p', hp', hkey⟩ := hdraws hcheck
      cases hp.symm.trans hp'
      exact ⟨r, hcheck, (Option.some.inj hkey).symm, hlo, hhi⟩
    exact hcomplete.card_le hpassed

/-- A hundred visits of the crowd come past the limiter within a minute, and no more could. -/
theorem limit_never_exceeded_crowd : ∃ g ∈ initial.steps (fun _ => []) crowd,
    (∃ ns : Finset ℕ, ns.card = MAX_REQUESTS ∧ ∀ n ∈ ns, ∃ p r, g.requests n = some p ∧
      p.ip = ⟨127, 0, 0, 1⟩ ∧ p.checks .ip = .passed r ∧ (1101 : ℤ) - WINDOW_MS ≤ r.now ∧
      (r.now : ℤ) < 1101 - WINDOW_MS + WINDOW_MS) ∧
    ∀ ns : Finset ℕ, (∀ n ∈ ns, ∃ p r, g.requests n = some p ∧ p.ip = ⟨127, 0, 0, 1⟩ ∧
      p.checks .ip = .passed r ∧ (1101 : ℤ) - WINDOW_MS ≤ r.now ∧
      (r.now : ℤ) < 1101 - WINDOW_MS + WINDOW_MS) → ns.card ≤ MAX_REQUESTS := by
  obtain ⟨g, hg, hlast⟩ := Option.map_eq_some_iff.mp crowd_refused
  obtain ⟨hpunctual, horderly⟩ := Run.punctual (run_of_steps hg crowd_in_time)
  obtain ⟨hcheck, hclock⟩ := Prod.mk.inj hlast
  refine ⟨g, hg, ?_, fun ns => (limit_never_exceeded horderly _ ns).2 ⟨127, 0, 0, 1⟩⟩
  obtain ⟨ns, hcard, hns⟩ := hpunctual.refused .ip 100 _ hcheck
  refine ⟨ns, hcard, fun n hn => ?_⟩
  obtain ⟨r, hr, hkey, hlo⟩ := hns n hn
  have hkey : r.key = Ipv4Addr.to_string ⟨127, 0, 0, 1⟩ := hkey
  obtain ⟨p, hp, hip, hpassed⟩ := hpunctual.from_address hr hkey
  -- nobody has read a later time than the last one
  have hhi := hpunctual.agrees.past r ((Run.complete horderly).logged .ip n r hr)
  rw [hclock] at hhi
  have hlo : (1100 : ℤ) - WINDOW_MS < r.now := hlo
  exact ⟨p, r, hp, hip, hpassed, by omega, by omega⟩

end Gateway

end Payman.Registry
