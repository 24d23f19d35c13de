import Payman.Safety.Limits

/-! Requests on their way through the gateway.

    A request keeps what it has drawn at a limiter, and the key it drew it for. Every entry of a log
    is a request that has passed the limiter of that log, so a log is full only if so many have. -/

namespace Payman.Registry
open Schemes

/-- What a request has drawn, once it has come to the limiter. -/
def Check.request : Check → Option RateRequest
  | .unasked => none
  | .asking r => some r
  | .passed r => some r
  | .refused r => some r

namespace Gateway
variable {sha256 : String → List UInt8} {g g' : Gateway} {l : Label} {layer layer' : Layer}
  {n m : ℕ} {p : Passage} {k : String} {r r' : RateRequest}

/-- Where request `n` is with a limiter. -/
def check (g : Gateway) (layer : Layer) (n : ℕ) : Check :=
  match g.requests n with
  | some p => p.checks layer
  | none => .unasked

/-- The key of request `n` at a limiter is `k`. -/
def Draws (g : Gateway) (layer : Layer) (n : ℕ) (k : String) : Prop :=
  ∃ p, g.requests n = some p ∧ g.key n p layer = some k

theorem check_of_requests (h : g.requests n = some p) : g.check layer n = p.checks layer := by
  rw [check, h]

theorem key_business (h : g.key n p .business = some k) : ∃ biz,
    g.server.outcome n = some (.ok (.authenticated biz)) ∧ k = hyphenated biz.id := by
  simp only [key] at h
  split at h
  · rename_i biz hout
    exact ⟨biz, hout, (Option.some.inj h).symm⟩
  · cases h

/-- The two limiters do not share a key. -/
theorem Draws.layer_eq (h : g.Draws layer n k) (h' : g.Draws layer' m k) : layer = layer' := by
  obtain ⟨p, -, hk⟩ := h
  obtain ⟨p', -, hk'⟩ := h'
  cases layer with
  | ip =>
    cases layer' with
    | ip => rfl
    | business =>
      obtain ⟨biz, -, rfl⟩ := key_business hk'
      exact absurd (Option.some.inj hk) (Ipv4Addr.to_string_ne _ _)
  | business =>
    cases layer' with
    | ip =>
      obtain ⟨biz, -, rfl⟩ := key_business hk
      exact absurd (Option.some.inj hk') (Ipv4Addr.to_string_ne _ _)
    | business => rfl

/-! ### What a step can do -/

/-- A step lets a request in, brings it to a limiter, runs its script, or is one of the server. -/
inductive Moves (sha256 : String → List UInt8) (g : Gateway) : Label → Gateway → Prop
  | connect {n : ℕ} {ip : Ipv4Addr} {route : Route} (hn : g.requests n = none) :
      Moves sha256 g (.connect n ip route) (g.set n ⟨ip, route, fun _ => .unasked⟩)
  | come {layer : Layer} {n now : ℕ} {uuid : Uuid} {p : Passage} {k : String}
      (hp : g.requests n = some p) (hkey : g.key n p layer = some k)
      (hc : p.checks layer = .unasked) :
      Moves sha256 g (.come layer n now uuid) { g.set n
        (p.check layer (.asking ⟨k, now, log_member now uuid⟩)) with
        minted := uuid :: g.minted }
  | pass {layer : Layer} {n : ℕ} {time : ℤ} {fate : Fate} {p : Passage} {r : RateRequest}
      {limiter : Limiter} {server : Server} (hp : g.requests n = some p)
      (hc : p.checks layer = .asking r) (hask : Asked fate g.limiter ⟨time, r⟩ (limiter, true))
      (hserver : server = g.server ∨ layer = .ip ∧ ∃ entry, p.route.entry = some entry ∧
        g.server.step sha256 (.arrive n entry) = some server) :
      Moves sha256 g (.script layer n time fate)
        { g.set n (p.check layer (.passed r)) with limiter, server }
  | refuse {layer : Layer} {n : ℕ} {time : ℤ} {fate : Fate} {p : Passage} {r : RateRequest}
      {limiter : Limiter} (hp : g.requests n = some p) (hc : p.checks layer = .asking r)
      (hask : Asked fate g.limiter ⟨time, r⟩ (limiter, false)) :
      Moves sha256 g (.script layer n time fate)
        { g.set n (p.check layer (.refused r)) with limiter }
  | serve {l : Label} {ls : Server.Label} {server : Server}
      (hstep : g.server.step sha256 ls = some server)
      (harrive : ∀ n entry, ls ≠ .arrive n entry)
      (hhandle : ∀ n q, ls = .handle n q → ∃ r, g.check .business n = .passed r)
      (hcome : ∀ layer n now uuid, l ≠ .come layer n now uuid)
      (hscript : ∀ layer n time fate, l ≠ .script layer n time fate) :
      Moves sha256 g l { g with server }

theorem moves (h : g.step sha256 l = some g') : g.Moves sha256 l g' := by
  cases l with
  | connect n ip route =>
    simp only [step, Option.isNone_iff_eq_none] at h
    split at h <;> cases h
    rename_i hn
    exact .connect hn
  | come layer n now uuid =>
    obtain ⟨p, hp, h⟩ := Option.bind_eq_some_iff.mp h
    obtain ⟨k, hk, h⟩ := Option.bind_eq_some_iff.mp h
    split at h
    · rename_i hc
      cases h
      exact .come hp hk hc
    · cases h
  | script layer n time fate =>
    obtain ⟨p, hp, h⟩ := Option.bind_eq_some_iff.mp h
    split at h
    · rename_i r hc
      have hasked : Asked fate g.limiter ⟨time, r⟩ (ask fate g.limiter ⟨time, r⟩) := ask_asked
      generalize ask fate g.limiter ⟨time, r⟩ = answer at h hasked
      obtain ⟨limiter, allowed⟩ := answer
      cases allowed with
      | false =>
        cases h
        exact .refuse hp hc hasked
      | true =>
        simp only [if_true, next] at h
        split at h
        · rename_i hentry _
          obtain ⟨server, hstep, rfl⟩ := Option.map_eq_some_iff.mp h
          exact .pass hp hc hasked (.inr ⟨rfl, _, hentry, hstep⟩)
        · cases h
          exact .pass hp hc hasked (.inl rfl)
    · cases h
  | handle n q =>
    obtain ⟨p, hp, h⟩ := Option.bind_eq_some_iff.mp h
    split at h
    · rename_i r hc
      obtain ⟨server, hstep, h⟩ := Option.bind_eq_some_iff.mp h
      cases h
      refine .serve hstep nofun (fun n' q' heq => ?_) nofun nofun
      cases heq
      exact ⟨r, (check_of_requests hp).trans hc⟩
    · cases h
  | server l =>
    cases l with
    | arrive => cases h
    | handle => cases h
    | _ =>
      obtain ⟨server, hstep, rfl⟩ := Option.map_eq_some_iff.mp h
      exact .serve hstep nofun nofun nofun nofun

/-! ### What a step leaves and what it adds -/

theorem check_set (hp : g.requests n = some p) (layer layer' : Layer) (c : Check) (m : ℕ) :
    (g.set n (p.check layer c)).check layer' m =
      if m = n ∧ layer' = layer then c else g.check layer' m := by
  by_cases hm : m = n
  · subst hm
    have hset : (g.set m (p.check layer c)).requests m = some (p.check layer c) :=
      Function.update_self ..
    rw [check_of_requests hset, check_of_requests hp]
    by_cases hl : layer' = layer
    · subst hl
      rw [if_pos ⟨rfl, rfl⟩]
      exact Function.update_self ..
    · rw [if_neg fun h => hl h.2]
      exact Function.update_of_ne hl ..
  · rw [if_neg fun h => hm h.1, check, check]
    have hset : (g.set n (p.check layer c)).requests m = g.requests m := Function.update_of_ne hm ..
    rw [hset]

theorem check_connect {ip : Ipv4Addr} {route : Route} (hn : g.requests n = none) :
    (g.set n ⟨ip, route, fun _ => .unasked⟩).check layer m = g.check layer m := by
  by_cases hm : m = n
  · subst hm
    have hset : (g.set m ⟨ip, route, fun _ => .unasked⟩).requests m =
        some ⟨ip, route, fun _ => .unasked⟩ := Function.update_self ..
    rw [check_of_requests hset, check, hn]
  · have hset : (g.set n ⟨ip, route, fun _ => .unasked⟩).requests m = g.requests m :=
      Function.update_of_ne hm ..
    rw [check, check, hset]

namespace Moves

/-- What the server has returned stays returned. -/
theorem outcome_stays (h : g.Moves sha256 l g') {a : Except AppError Outcome}
    (ha : g.server.outcome n = some a) : g'.server.outcome n = some a := by
  cases h with
  | connect | come | refuse => exact ha
  | pass _ _ _ hserver =>
    rcases hserver with rfl | ⟨-, entry, -, hstep⟩
    · exact ha
    · exact Server.outcome_stays hstep ha
  | serve hstep => exact Server.outcome_stays hstep ha

/-- A request stays, with its address and its route. -/
theorem request (h : g.Moves sha256 l g') (hp : g.requests n = some p) :
    ∃ p', g'.requests n = some p' ∧ p'.ip = p.ip ∧ p'.route = p.route := by
  have hset : ∀ {m : ℕ} {p₀ : Passage} {layer : Layer} {c : Check}, g.requests m = some p₀ →
      ∃ p', (g.set m (p₀.check layer c)).requests n = some p' ∧ p'.ip = p.ip ∧
        p'.route = p.route := fun {m p₀ layer c} hp₀ => by
    by_cases hn : n = m
    · subst hn
      cases hp.symm.trans hp₀
      exact ⟨_, Function.update_self .., rfl, rfl⟩
    · exact ⟨p, (Function.update_of_ne hn ..).trans hp, rfl, rfl⟩
  cases h with
  | connect hm =>
    refine ⟨p, (Function.update_of_ne ?_ ..).trans hp, rfl, rfl⟩
    rintro rfl
    cases hm.symm.trans hp
  | come hp₀ | pass hp₀ | refuse hp₀ => exact hset hp₀
  | serve => exact ⟨p, hp, rfl, rfl⟩

/-- A request keeps its keys. -/
theorem draws (h : g.Moves sha256 l g') (hk : g.Draws layer n k) : g'.Draws layer n k := by
  obtain ⟨p, hp, hk⟩ := hk
  obtain ⟨p', hp', hip, -⟩ := h.request hp
  refine ⟨p', hp', ?_⟩
  cases layer with
  | ip =>
    rw [key, hip]
    exact hk
  | business =>
    obtain ⟨biz, hout, rfl⟩ := key_business hk
    simp only [key, h.outcome_stays hout]
    rfl

/-- A limiter decides once. -/
theorem decided (h : g.Moves sha256 l g') {c : Check} (hc : g.check layer n = c)
    (hdone : c = .passed r ∨ c = .refused r) : g'.check layer n = c := by
  have hset : ∀ {m : ℕ} {p₀ : Passage} {layer₀ : Layer} (c' : Check), g.requests m = some p₀ →
      (p₀.checks layer₀ = .unasked ∨ ∃ r₀, p₀.checks layer₀ = .asking r₀) →
      (g.set m (p₀.check layer₀ c')).check layer n = c := fun {m p₀ layer₀} c' hp₀ hopen => by
    rw [check_set hp₀, if_neg ?_, hc]
    rintro ⟨rfl, rfl⟩
    rw [check_of_requests hp₀] at hc
    rcases hopen with hopen | ⟨r₀, hopen⟩ <;> rcases hdone with rfl | rfl <;>
      cases hc.symm.trans hopen
  cases h with
  | connect hm => exact (check_connect hm).trans hc
  | come hp₀ _ hopen => exact hset _ hp₀ (.inl hopen)
  | pass hp₀ hopen | refuse hp₀ hopen => exact hset _ hp₀ (.inr ⟨_, hopen⟩)
  | serve => exact hc

theorem minted (h : g.Moves sha256 l g') {u : Uuid} (hu : u ∈ g.minted) : u ∈ g'.minted := by
  cases h with
  | come => exact List.mem_cons_of_mem _ hu
  | _ => exact hu

/-- Only who comes to a limiter draws a UUID. -/
theorem minted_before (h : g.Moves sha256 l g') {u : Uuid} (hu : u ∈ g'.minted) :
    u ∈ g.minted ∨ ∃ layer n now, l = .come layer n now u := by
  cases h with
  | come =>
    rcases List.mem_cons.mp hu with rfl | hu
    · exact .inr ⟨_, _, _, rfl⟩
    · exact .inl hu
  | _ => exact .inl hu

/-- A request has drawn before, or it has just come. -/
theorem request_before (h : g.Moves sha256 l g') (hr : (g'.check layer n).request = some r) :
    (g.check layer n).request = some r ∨ ∃ now uuid, l = .come layer n now uuid ∧
      r.member = log_member now uuid ∧ uuid ∈ g'.minted ∧ g.Draws layer n r.key := by
  cases h with
  | connect hm => exact .inl ((check_connect hm) ▸ hr)
  | @come layer₀ m now uuid p k hp hk hc =>
    change ((g.set m (p.check layer₀ _)).check layer n).request = some r at hr
    rw [check_set hp] at hr
    split at hr
    · rename_i heq
      obtain ⟨rfl, rfl⟩ := heq
      cases hr
      exact .inr ⟨now, uuid, rfl, rfl, List.mem_cons_self .., p, hp, hk⟩
    · exact .inl hr
  | @pass layer₀ m time fate p r₀ limiter server hp hc =>
    change ((g.set m (p.check layer₀ _)).check layer n).request = some r at hr
    rw [check_set hp] at hr
    split at hr
    · rename_i heq
      obtain ⟨rfl, rfl⟩ := heq
      rw [check_of_requests hp, hc]
      exact .inl hr
    · exact .inl hr
  | @refuse layer₀ m time fate p r₀ limiter hp hc =>
    change ((g.set m (p.check layer₀ _)).check layer n).request = some r at hr
    rw [check_set hp] at hr
    split at hr
    · rename_i heq
      obtain ⟨rfl, rfl⟩ := heq
      rw [check_of_requests hp, hc]
      exact .inl hr
    · exact .inl hr
  | serve => exact .inl hr

/-- The logs together grow by a request that passes. -/
theorem allowed (h : g.Moves sha256 l g') : g'.limiter.allowed = g.limiter.allowed ∨
    ∃ layer n r, g.check layer n = .asking r ∧ g'.check layer n = .passed r ∧
      g'.limiter.allowed = g.limiter.allowed ++ [r] := by
  cases h with
  | connect | come | serve => exact .inl rfl
  | @pass layer n time fate p r limiter server hp hc hask =>
    cases hask with
    | joined hjoin =>
      refine .inr ⟨layer, n, r, (check_of_requests hp).trans hc, ?_, hjoin⟩
      show (g.set n (p.check layer _)).check layer n = _
      rw [check_set hp, if_pos ⟨rfl, rfl⟩]
    | unanswered _ hsame => exact .inl hsame
  | refuse _ _ hask =>
    cases hask with
    | full hsame => exact .inl hsame

theorem known (h : g.Moves sha256 l g') (hk : g.limiter.Known) : g'.limiter.Known := by
  cases h with
  | connect | come | serve => exact hk
  | pass _ _ hask =>
    cases hask with
    | joined => exact hk.execute
    | unanswered _ _ hs =>
      rcases hs with rfl | rfl
      · exact hk
      · exact hk.execute
  | refuse _ _ hask =>
    cases hask with
    | full => exact hk.execute

/-- A request had passed before, or its script has just let it through. -/
theorem passed_before (h : g.Moves sha256 l g') (hr : g'.check layer n = .passed r) :
    g.check layer n = .passed r ∨ ∃ time fate, l = .script layer n time fate ∧
      g.check layer n = .asking r ∧ Asked fate g.limiter ⟨time, r⟩ (g'.limiter, true) := by
  cases h with
  | connect hm => exact .inl ((check_connect hm) ▸ hr)
  | @come layer₀ m now uuid p k hp hk hc =>
    change (g.set m (p.check layer₀ _)).check layer n = _ at hr
    rw [check_set hp] at hr
    split at hr
    · cases hr
    · exact .inl hr
  | @pass layer₀ m time fate p r₀ limiter server hp hc hask =>
    change (g.set m (p.check layer₀ _)).check layer n = _ at hr
    rw [check_set hp] at hr
    split at hr
    · rename_i heq
      obtain ⟨rfl, rfl⟩ := heq
      cases hr
      exact .inr ⟨time, fate, rfl, (check_of_requests hp).trans hc, hask⟩
    · exact .inl hr
  | @refuse layer₀ m time fate p r₀ limiter hp hc =>
    change (g.set m (p.check layer₀ _)).check layer n = _ at hr
    rw [check_set hp] at hr
    split at hr
    · cases hr
    · exact .inl hr
  | serve => exact .inl hr

/-- A request was sent away before, or it has just found its log full. -/
theorem refused_before (h : g.Moves sha256 l g') (hk : g.limiter.Known)
    (hr : g'.check layer n = .refused r) : g.check layer n = .refused r ∨
      g.check layer n = .asking r ∧
        MAX_REQUESTS ≤ (g.limiter.since r.key ((r.now : ℤ) - WINDOW_MS)).length := by
  cases h with
  | connect hm => exact .inl ((check_connect hm) ▸ hr)
  | @come layer₀ m now uuid p k hp hk hc =>
    change (g.set m (p.check layer₀ _)).check layer n = _ at hr
    rw [check_set hp] at hr
    split at hr
    · cases hr
    · exact .inl hr
  | @pass layer₀ m time fate p r₀ limiter server hp hc =>
    change (g.set m (p.check layer₀ _)).check layer n = _ at hr
    rw [check_set hp] at hr
    split at hr
    · cases hr
    · exact .inl hr
  | @refuse layer₀ m time fate p r₀ limiter hp hc hask =>
    change (g.set m (p.check layer₀ _)).check layer n = _ at hr
    rw [check_set hp] at hr
    split at hr
    · rename_i heq
      obtain ⟨rfl, rfl⟩ := heq
      cases hr
      cases hask with
      | full _ hcount =>
        exact .inr ⟨(check_of_requests hp).trans hc, Nat.le_trans hcount hk.count_le⟩
    · exact .inl hr
  | serve => exact .inl hr

/-- A call was there before, or its request has passed both limiters. -/
theorem job_before (h : g.Moves sha256 l g') {q : Request}
    (hq : g'.server.billing.job (.call n) = some (.call q)) :
    g.server.billing.job (.call n) = some (.call q) ∨ ∃ biz r,
      g.server.outcome n = some (.ok (.authenticated biz)) ∧ biz.id = q.business ∧
        g.check .business n = .passed r := by
  cases h with
  | connect | come | refuse => exact .inl hq
  | pass _ _ _ hserver =>
    rcases hserver with rfl | ⟨-, entry, -, hstep⟩
    · exact .inl hq
    · rcases Server.job_before hstep hq with hq | ⟨hl, -⟩
      · exact .inl hq
      · cases hl
  | serve hstep _ hhandle =>
    rcases Server.job_before hstep hq with hq | ⟨rfl, biz, hbiz, hid⟩
    · exact .inl hq
    · obtain ⟨r, hr⟩ := hhandle n q rfl
      exact .inr ⟨biz, r, hbiz, hid, hr⟩

/-- The server stands still or takes a step. -/
theorem server (h : g.Moves sha256 l g') :
    g'.server = g.server ∨ ∃ ls, g.server.step sha256 ls = some g'.server := by
  cases h with
  | connect | come | refuse => exact .inl rfl
  | pass _ _ _ hserver => exact hserver.imp_right fun ⟨_, _, _, hstep⟩ => ⟨_, hstep⟩
  | serve hstep => exact .inr ⟨_, hstep⟩

end Moves

/-! ### How a request comes to its handler -/

/-- Request `n` goes on as `entry` on the server, past the limiter of its address. -/
def Entered (g : Gateway) (n : ℕ) (entry : Entry) : Prop :=
  ∃ p r, g.requests n = some p ∧ p.route.entry = some entry ∧ g.check .ip n = .passed r

theorem Moves.entered_before (h : g.Moves sha256 l g') {entry : Entry}
    (he : g'.server.entry n = some entry) : g.server.entry n = some entry ∨ g'.Entered n entry := by
  cases h with
  | connect | come | refuse => exact .inl he
  | @pass layer m time fate p r limiter server hp hc hask hserver =>
    rcases hserver with rfl | ⟨rfl, entry', hentry, hstep⟩
    · exact .inl he
    · rcases Server.entry_before hstep he with he | heq
      · exact .inl he
      · cases heq
        refine .inr ⟨p.check .ip (.passed r), r, Function.update_self .., hentry, ?_⟩
        show (g.set n (p.check .ip (.passed r))).check .ip n = _
        rw [check_set hp, if_pos ⟨rfl, rfl⟩]
  | serve hstep harrive =>
    rcases Server.entry_before hstep he with he | heq
    · exact .inl he
    · exact absurd heq (harrive _ _)

theorem Entered.stays {entry : Entry} (h : g.Entered n entry) (hmoves : g.Moves sha256 l g') :
    g'.Entered n entry := by
  obtain ⟨p, r, hp, hentry, hr⟩ := h
  obtain ⟨p', hp', -, hroute⟩ := hmoves.request hp
  exact ⟨p', r, hp', hroute ▸ hentry, hmoves.decided hr (.inl rfl)⟩

/-- What is on the server has passed the limiter of its address, and what has come to a handler is
    authenticated and has passed the limiter of its business. -/
structure Admits (g : Gateway) : Prop where
  entered : ∀ n entry, g.server.entry n = some entry → g.Entered n entry
  handled : ∀ n q, g.server.billing.job (.call n) = some (.call q) → ∃ biz r,
    g.server.outcome n = some (.ok (.authenticated biz)) ∧ biz.id = q.business ∧
      g.check .business n = .passed r

/-- CORRECT (run): nobody gets around a layer. -/
theorem Run.admits {ok : Gateway → Label → Prop} (h : Run sha256 ok .initial g) : g.Admits := by
  induction h with
  | refl => exact ⟨nofun, nofun⟩
  | @tail g g' _ hs ih =>
    obtain ⟨l, -, hstep⟩ := hs
    have hmoves := moves hstep
    refine ⟨fun n entry he => ?_, fun n q hq => ?_⟩
    · rcases hmoves.entered_before he with he | hentered
      · exact (ih.entered n entry he).stays hmoves
      · exact hentered
    · have hbefore : ∃ biz r, g.server.outcome n = some (.ok (.authenticated biz)) ∧
          biz.id = q.business ∧ g.check .business n = .passed r :=
        (hmoves.job_before hq).elim (ih.handled n q) id
      obtain ⟨biz, r, hbiz, hid, hr⟩ := hbefore
      exact ⟨biz, r, hmoves.outcome_stays hbiz, hid, hmoves.decided hr (.inl rfl)⟩

/-- The server runs as it would on its own. -/
theorem Run.server {ok : Gateway → Label → Prop} (h : Run sha256 ok .initial g) :
    g.server.Reachable sha256 := by
  induction h with
  | refl => exact .refl
  | tail _ hs ih =>
    obtain ⟨l, -, hstep⟩ := hs
    rcases (moves hstep).server with heq | ⟨ls, hls⟩
    · exact heq ▸ ih
    · exact ih.tail ⟨ls, hls⟩

/-! ### Runs in which no UUID is drawn twice -/

/-- A request that comes to a limiter draws a new UUID, of 128 bits. -/
def Fresh (g : Gateway) : Label → Prop
  | .come _ _ _ uuid => uuid < 2 ^ 128 ∧ uuid ∉ g.minted
  | _ => True

/-- As many requests as the limit have passed the limiter on key `k` after time `t`. -/
def Full (g : Gateway) (layer : Layer) (k : String) (t : ℤ) : Prop :=
  ∃ ns : Finset ℕ, ns.card = MAX_REQUESTS ∧
    ∀ m ∈ ns, ∃ r, g.check layer m = .passed r ∧ r.key = k ∧ t < r.now

structure Inv (g : Gateway) : Prop where
  uuid : ∀ u ∈ g.minted, u < 2 ^ 128
  member : ∀ layer n r, (g.check layer n).request = some r →
    ∃ u ∈ g.minted, ∃ now, r.member = log_member now u
  draws : ∀ layer n r, (g.check layer n).request = some r → g.Draws layer n r.key
  apart : ∀ layer n r layer' m r', (g.check layer n).request = some r →
    (g.check layer' m).request = some r' → r.member = r'.member → layer = layer' ∧ n = m
  allowed : ∀ a ∈ g.limiter.allowed, ∃ layer n, g.check layer n = .passed a
  nodup : (g.limiter.allowed.map (·.member)).Nodup
  known : g.limiter.Known
  refused : ∀ layer n r, g.check layer n = .refused r → g.Full layer r.key ((r.now : ℤ) - WINDOW_MS)

theorem Full.mono {t : ℤ} (h : g.Full layer k t)
    (hsub : ∀ m r, g.check layer m = .passed r → g'.check layer m = .passed r) :
    g'.Full layer k t := by
  obtain ⟨ns, hcard, hns⟩ := h
  refine ⟨ns, hcard, fun m hm => ?_⟩
  obtain ⟨r, hr, hrest⟩ := hns m hm
  exact ⟨r, hsub m r hr, hrest⟩

/-- Different requests have passed with what is different in a list. -/
theorem exists_finset_of_passed {l : List RateRequest} (hnd : l.Nodup)
    (hl : ∀ a ∈ l, ∃ n, g.check layer n = .passed a) :
    ∃ ns : Finset ℕ, ns.card = l.length ∧ ∀ n ∈ ns, ∃ a ∈ l, g.check layer n = .passed a := by
  choose! f hf using hl
  have hinj : (l.map f).Nodup := hnd.map_on fun a ha b hb hab => by
    cases (hf a ha).symm.trans ((congrArg _ hab).trans (hf b hb))
    rfl
  refine ⟨(l.map f).toFinset, ?_, fun n hn => ?_⟩
  · rw [List.toFinset_card_of_nodup hinj, List.length_map]
  · obtain ⟨a, ha, rfl⟩ := List.mem_map.mp (List.mem_toFinset.mp hn)
    exact ⟨a, ha, hf a ha⟩

/-- A key on which as much has been allowed belongs to requests of one limiter. -/
theorem Inv.full (h : g.Inv) {t : ℤ} (hk : g.Draws layer n k)
    (hcount : MAX_REQUESTS ≤ (g.limiter.since k t).length) : g.Full layer k t := by
  have hnd : (g.limiter.since k t).Nodup := h.nodup.of_map.filter _
  have hpassed : ∀ a ∈ g.limiter.since k t, ∃ m, g.check layer m = .passed a := fun a ha => by
    obtain ⟨hmem, hin⟩ := List.mem_filter.mp ha
    obtain ⟨hkey, -⟩ := of_decide_eq_true hin
    obtain ⟨layer', m, hm⟩ := h.allowed a hmem
    have hdraws := h.draws layer' m a (by rw [hm]; rfl)
    rw [hkey] at hdraws
    exact ⟨m, hk.layer_eq hdraws ▸ hm⟩
  obtain ⟨ns, hcard, hns⟩ := exists_finset_of_passed hnd hpassed
  obtain ⟨ns', hsub, hcard'⟩ := Finset.exists_subset_card_eq (hcard ▸ hcount)
  refine ⟨ns', hcard', fun m hm => ?_⟩
  obtain ⟨a, ha, hpassed⟩ := hns m (hsub hm)
  obtain ⟨hkey, ht⟩ := of_decide_eq_true (List.mem_filter.mp ha).2
  exact ⟨a, hpassed, hkey, ht⟩

theorem Inv.initial : Inv Gateway.initial where
  uuid := nofun
  member := nofun
  draws := nofun
  apart := nofun
  allowed := nofun
  nodup := List.nodup_nil
  known := nofun
  refused := nofun

/-- CORRECT (step): the logs go on to hold what has passed and nothing else. -/
theorem Inv.step (h : g.Inv) (hfresh : g.Fresh l) (hstep : g.step sha256 l = some g') : g'.Inv := by
  have hmoves := moves hstep
  have hpassed : ∀ layer m r, g.check layer m = .passed r → g'.check layer m = .passed r :=
    fun _ _ r hm => hmoves.decided hm (.inl rfl)
  -- who has just come has drawn what nobody had drawn
  have hnew : ∀ {layer n r layer' m r'}, (g.check layer n).request = some r →
      (g'.check layer' m).request = some r' → r.member = r'.member →
      (g.check layer' m).request = some r' := fun hr hr' heq => by
    rcases hmoves.request_before hr' with hr' | ⟨now, uuid, rfl, hmem, -⟩
    · exact hr'
    · obtain ⟨u, hu, now', hmem'⟩ := h.member _ _ _ hr
      have huv := log_member_inj (h.uuid u hu) hfresh.1 (hmem'.symm.trans (heq.trans hmem))
      exact absurd (huv ▸ hu) hfresh.2
  refine ⟨fun u hu => ?_, fun layer n r hr => ?_, fun layer n r hr => ?_,
    fun layer n r layer' m r' hr hr' heq => ?_, fun a ha => ?_, ?_, hmoves.known h.known,
    fun layer n r hr => ?_⟩
  · rcases hmoves.minted_before hu with hu | ⟨layer, n, now, rfl⟩
    · exact h.uuid u hu
    · exact hfresh.1
  · rcases hmoves.request_before hr with hr | ⟨now, uuid, -, hmem, hminted, -⟩
    · obtain ⟨u, hu, hmem⟩ := h.member _ _ _ hr
      exact ⟨u, hmoves.minted hu, hmem⟩
    · exact ⟨uuid, hminted, now, hmem⟩
  · rcases hmoves.request_before hr with hr | ⟨now, uuid, -, -, -, hdraws⟩
    · exact hmoves.draws (h.draws _ _ _ hr)
    · exact hmoves.draws hdraws
  · rcases hmoves.request_before hr with hr | ⟨now, uuid, hl, -⟩
    · exact h.apart _ _ _ _ _ _ hr (hnew hr hr' heq) heq
    · rcases hmoves.request_before hr' with hr' | ⟨now', uuid', hl', -⟩
      · exact h.apart _ _ _ _ _ _ (hnew hr' hr heq.symm) hr' heq
      · cases hl.symm.trans hl'
        exact ⟨rfl, rfl⟩
  · rcases hmoves.allowed with heq | ⟨layer, n, r, -, hr, heq⟩
    · obtain ⟨layer, n, hn⟩ := h.allowed a (heq ▸ ha)
      exact ⟨layer, n, hpassed _ _ _ hn⟩
    · rw [heq, List.mem_append, List.mem_singleton] at ha
      rcases ha with ha | rfl
      · obtain ⟨layer, n, hn⟩ := h.allowed a ha
        exact ⟨layer, n, hpassed _ _ _ hn⟩
      · exact ⟨layer, n, hr⟩
  · rcases hmoves.allowed with heq | ⟨layer, n, r, hr, -, heq⟩
    · exact heq ▸ h.nodup
    · rw [heq, List.map_append, List.nodup_append]
      refine ⟨h.nodup, List.nodup_singleton _, ?_⟩
      rintro _ hmem _ hr' rfl
      obtain ⟨a, ha, hak⟩ := List.mem_map.mp hmem
      obtain ⟨layer', m, hm⟩ := h.allowed a ha
      obtain ⟨rfl, rfl⟩ := h.apart layer' m a layer n r (by rw [hm]; rfl) (by rw [hr]; rfl)
        (hak.trans (List.mem_singleton.mp hr'))
      cases hm.symm.trans hr
  · rcases hmoves.refused_before h.known hr with hr | ⟨hr, hcount⟩
    · exact (h.refused layer n r hr).mono (hpassed layer)
    · exact (h.full (h.draws layer n r (by rw [hr]; rfl)) hcount).mono (hpassed layer)

/-- CORRECT (run). -/
theorem Run.inv {ok : Gateway → Label → Prop} (h : Run sha256 ok .initial g)
    (hok : ∀ g l, ok g l → g.Fresh l) : g.Inv := by
  induction h with
  | refl => exact .initial
  | tail _ hs ih =>
    obtain ⟨l, hl, hstep⟩ := hs
    exact ih.step (hok _ l hl) hstep

/-! ### Runs in which Redis answers and remembers -/

/-- When the script of a request starts, Redis still holds every allowed request on its key that some
    window contains together with it. -/
def Recalls (g : Gateway) (time : ℤ) : Check → Prop
  | .asking r => g.limiter.Remembers WINDOW_MS MAX_REQUESTS ⟨time, r⟩
  | _ => True

instance (g : Gateway) (time : ℤ) : ∀ c, Decidable (g.Recalls time c)
  | .asking r => inferInstanceAs (Decidable (g.limiter.Remembers _ _ ⟨time, r⟩))
  | .unasked | .passed _ | .refused _ => isTrue trivial

/-- No UUID is drawn twice, and every script is answered by a Redis that remembers. -/
def Orderly (g : Gateway) : Label → Prop
  | .come layer n now uuid => g.Fresh (.come layer n now uuid)
  | .script layer n time fate => fate = .answered ∧ g.Recalls time (g.check layer n)
  | _ => True

instance (g : Gateway) : ∀ l, Decidable (g.Orderly l)
  | .come .. | .script .. => inferInstanceAs (Decidable (_ ∧ _))
  | .connect .. | .handle .. | .server _ => isTrue trivial

theorem Orderly.fresh (h : g.Orderly l) : g.Fresh l := by
  cases l with
  | come => exact h
  | _ => trivial

/-- Whoever has passed is on a log, and no window of a log has too many. -/
structure Complete (g : Gateway) : Prop extends Inv g where
  logged : ∀ layer n r, g.check layer n = .passed r → r ∈ g.limiter.allowed
  bounded : g.limiter.Bounded WINDOW_MS MAX_REQUESTS

theorem Complete.initial : Complete Gateway.initial where
  toInv := .initial
  logged := nofun
  bounded := fun _ _ => Nat.zero_le _

/-- CORRECT (step). -/
theorem Complete.step (h : g.Complete) (hl : g.Orderly l) (hstep : g.step sha256 l = some g') :
    g'.Complete := by
  have hmoves := moves hstep
  refine ⟨h.toInv.step hl.fresh hstep, fun layer n r hr => ?_, ?_⟩
  · rcases hmoves.passed_before hr with hr | ⟨time, fate, rfl, -, hask⟩
    · have hmem := h.logged layer n r hr
      rcases hmoves.allowed with heq | ⟨_, _, _, -, -, heq⟩
      · exact heq ▸ hmem
      · exact heq ▸ List.mem_append_left _ hmem
    · generalize g'.limiter = limiter at hask ⊢
      cases hask with
      | joined hjoin => exact hjoin ▸ List.mem_append_right _ (List.mem_singleton_self _)
      | unanswered hfate => exact absurd hl.1 hfate
  · cases hmoves with
    | connect | come | serve => exact h.bounded
    | pass hp hc hask =>
      obtain ⟨hfate, hrecalls⟩ := hl
      rw [check_of_requests hp, hc] at hrecalls
      cases hask with
      | joined => exact h.bounded.execute hrecalls h.nodup
      | unanswered hno => exact absurd hfate hno
    | refuse _ _ hask =>
      cases hask with
      | full hsame => exact fun k t => hsame ▸ h.bounded k t

/-- CORRECT (run). -/
theorem Run.complete (h : Run sha256 Orderly .initial g) : g.Complete := by
  induction h with
  | refl => exact .initial
  | tail _ hs ih =>
    obtain ⟨l, hl, hstep⟩ := hs
    exact ih.step hl hstep

/-- Different requests in one window are no more than the limit. -/
theorem Complete.card_le (h : g.Complete) {ns : Finset ℕ} {t : ℤ}
    (hns : ∀ n ∈ ns, ∃ r, g.check layer n = .passed r ∧ r.key = k ∧ t ≤ r.now ∧
      (r.now : ℤ) < t + WINDOW_MS) : ns.card ≤ MAX_REQUESTS := by
  have : Nonempty RateRequest := ⟨⟨k, 0, k⟩⟩
  choose! f hf using hns
  have hmaps : Set.MapsTo f ns
      ((policy WINDOW_MS MAX_REQUESTS).span g.limiter.allowed k (t - 1)).toFinset := fun n hn => by
    obtain ⟨hr, hkey, hlo, hhi⟩ := hf n hn
    refine List.mem_toFinset.mpr (List.mem_filter.mpr ⟨h.logged layer n _ hr, ?_⟩)
    show decide ((f n).key = k ∧ t - 1 < ((f n).now : ℤ) ∧ ((f n).now : ℤ) ≤ t - 1 + WINDOW_MS) = true
    exact decide_eq_true ⟨hkey, by omega, by omega⟩
  have hinj : Set.InjOn f ns := fun n hn m hm heq =>
    (h.apart layer n (f n) layer m (f m) (by rw [(hf n hn).1]; rfl) (by rw [(hf m hm).1]; rfl)
      (congrArg _ heq)).2
  exact (Finset.card_le_card_of_injOn f hmaps hinj).trans
    ((List.toFinset_card_le _).trans (h.bounded k (t - 1)))

/-! ### Runs in time order -/

/-- No UUID is drawn twice, and every script is answered by a Redis whose clock never goes back and is
    `skew` ahead of the one that the request has read. -/
def InTime (skew : ℤ) (g : Gateway) : Label → Prop
  | .come layer n now uuid => g.Fresh (.come layer n now uuid)
  | .script layer n time fate => fate = .answered ∧ g.limiter.db.clock ≤ time ∧
      ∀ r ∈ (g.check layer n).request, time = r.now + skew
  | _ => True

instance (skew : ℤ) (g : Gateway) : ∀ l, Decidable (g.InTime skew l)
  | .come .. | .script .. => inferInstanceAs (Decidable (_ ∧ _))
  | .connect .. | .handle .. | .server _ => isTrue trivial

/-- Redis agrees with the requests that have passed. -/
structure Punctual (skew : ℤ) (g : Gateway) : Prop extends Inv g where
  agrees : Agrees WINDOW_MS skew g.limiter.db g.limiter.allowed (g.limiter.db.clock - skew)

namespace Punctual
variable {skew : ℤ}

theorem initial : Punctual skew Gateway.initial where
  toInv := .initial
  agrees := by
    have hagrees : Agrees WINDOW_MS skew ((Redis.empty true).at_ (-skew + skew)) [] (-skew) :=
      .empty skew true (-skew)
    rwa [Int.add_left_neg, ← Int.zero_sub] at hagrees

/-- Redis remembers all that still counts. -/
theorem orderly (h : g.Punctual skew) (hl : g.InTime skew l) : g.Orderly l := by
  cases l with
  | come => exact hl
  | script layer n time fate =>
    obtain ⟨hfate, hclock, htime⟩ := hl
    refine ⟨hfate, ?_⟩
    cases hc : g.check layer n with
    | asking r =>
      obtain rfl := htime r (by rw [hc]; rfl)
      exact Limiter.remembers_of_agrees h.agrees (by omega)
    | unasked | passed | refused => trivial
  | connect | handle | server => trivial

/-- The script of a request that is in time. -/
theorem execute (h : g.Punctual skew) (hc : g.check layer n = .asking r)
    (hclock : g.limiter.db.clock ≤ r.now + skew) :
    Agrees WINDOW_MS skew (g.limiter.execute WINDOW_MS MAX_REQUESTS ⟨r.now + skew, r⟩).db
      (g.limiter.execute WINDOW_MS MAX_REQUESTS ⟨r.now + skew, r⟩).allowed
      ((g.limiter.execute WINDOW_MS MAX_REQUESTS ⟨r.now + skew, r⟩).db.clock - skew) := by
  -- who has passed is not who asks
  have hnew : ∀ a ∈ g.limiter.allowed, a.member ≠ r.member := fun a ha heq => by
    obtain ⟨layer', m, hm⟩ := h.allowed a ha
    obtain ⟨rfl, rfl⟩ := h.apart layer' m a layer n r (by rw [hm]; rfl) (by rw [hc]; rfl) heq
    cases hm.symm.trans hc
  have hnext := Limiter.agrees_execute h.agrees MAX_REQUESTS (by omega) hnew
  rwa [hnext.clock, Int.add_sub_cancel]

/-- CORRECT (step). -/
theorem step (h : g.Punctual skew) (hl : g.InTime skew l) (hstep : g.step sha256 l = some g') :
    g'.Punctual skew := by
  refine ⟨h.toInv.step (h.orderly hl).fresh hstep, ?_⟩
  cases moves hstep with
  | connect | come | serve => exact h.agrees
  | pass hp hc hask =>
    obtain ⟨hfate, hclock, htime⟩ := hl
    have hcheck := (check_of_requests hp).trans hc
    obtain rfl := htime _ (by rw [hcheck]; rfl)
    cases hask with
    | joined => exact h.execute hcheck hclock
    | unanswered hno => exact absurd hfate hno
  | refuse hp hc hask =>
    obtain ⟨hfate, hclock, htime⟩ := hl
    have hcheck := (check_of_requests hp).trans hc
    obtain rfl := htime _ (by rw [hcheck]; rfl)
    cases hask with
    | full => exact h.execute hcheck hclock

end Punctual

/-- CORRECT (run): in time order Redis need not be asked to remember. -/
theorem Run.punctual {skew : ℤ} (h : Run sha256 (InTime skew) .initial g) :
    g.Punctual skew ∧ Run sha256 Orderly .initial g := by
  induction h with
  | refl => exact ⟨.initial, .refl⟩
  | tail _ hs ih =>
    obtain ⟨l, hl, hstep⟩ := hs
    exact ⟨ih.1.step hl hstep, ih.2.tail ⟨l, ih.1.orderly hl, hstep⟩⟩

end Gateway

end Payman.Registry
