import Payman.Workers.Webhook

/-! What a receiver can check.

    The signature covers the second of sending and the body. The second is not on the wire, so the
    secret and the rest of the request determine the signature for one second only. -/

namespace Payman

/-- The signature that a request carries. -/
def HttpRequest.signature (r : HttpRequest) : Option String :=
  r.headers.lookup "X-Webhook-Signature"

/-- All of a request but its signature. -/
def HttpRequest.unsigned (r : HttpRequest) : HttpRequest :=
  { r with headers := r.headers.filter fun h => decide (h.1 ≠ "X-Webhook-Signature") }

/-! ### Printing is injective -/

theorem nat_repr_inj {m n : ℕ} (h : m.repr = n.repr) : m = n := by
  rw [Nat.repr_eq_ofList_toDigits, Nat.repr_eq_ofList_toDigits, String.ofList_inj] at h
  rw [← Nat.ofDigitChars_ten_toDigits (n := m), h, Nat.ofDigitChars_ten_toDigits]

theorem nat_repr_ne_minus (n : ℕ) (s : String) : n.repr ≠ "-" ++ s := by
  intro h
  have hdigit : ∀ c ∈ n.repr.toList, c.isDigit := by
    rw [Nat.repr_eq_ofList_toDigits, String.toList_ofList]
    exact fun c hc => Nat.isDigit_of_mem_toDigits (by decide) (by decide) hc
  rw [h] at hdigit
  have hminus : '-'.isDigit = true := hdigit '-' (by simp)
  cases hminus

theorem int_repr_inj : ∀ {t u : ℤ}, toString t = toString u → t = u
  | .ofNat m, .ofNat n, h => congrArg Int.ofNat (nat_repr_inj h)
  | .ofNat m, .negSucc n, h => absurd h (nat_repr_ne_minus m _)
  | .negSucc m, .ofNat n, h => absurd h.symm (nat_repr_ne_minus n _)
  | .negSucc m, .negSucc n, h => by
    have hrepr : (m + 1).repr = (n + 1).repr := by
      have h : "-" ++ (m + 1).repr = "-" ++ (n + 1).repr := h
      rw [← String.toList_inj, String.toList_append, String.toList_append] at h
      exact String.toList_inj.mp (List.append_cancel_left h)
    rw [Nat.succ.inj (nat_repr_inj hrepr)]

/-! ### Signatures -/

section
variable (to_string : Json → String) (hmac_sha256 : String → String → List UInt8)

/-- What is signed. -/
def Post.message (post : Post) : String :=
  toString post.timestamp ++ "." ++ to_string post.payload

variable {to_string hmac_sha256} {p q : Post}

/-- For one body, the message tells the second of sending. -/
theorem Post.message_inj (hbody : to_string p.payload = to_string q.payload) :
    p.message to_string = q.message to_string ↔ p.timestamp = q.timestamp := by
  rw [Post.message, Post.message, hbody]
  constructor
  · intro h
    rw [← String.toList_inj] at h
    simp only [String.toList_append] at h
    have hprint := List.append_cancel_right (List.append_cancel_right h)
    exact int_repr_inj (String.toList_inj.mp hprint)
  · intro h
    rw [h]

/-- Two requests carry the same signature iff their messages have the same tag. -/
theorem Post.signature_inj : (p.request to_string hmac_sha256).signature =
      (q.request to_string hmac_sha256).signature ↔
    hmac_sha256 p.secret (p.message to_string) = hmac_sha256 q.secret (q.message to_string) := by
  have hsig : ∀ post : Post, (post.request to_string hmac_sha256).signature =
      some ("sha256=" ++ hex_encode (hmac_sha256 post.secret (post.message to_string))) :=
    fun _ => rfl
  rw [hsig, hsig, Option.some.injEq]
  constructor
  · intro h
    rw [← String.toList_inj, String.toList_append, String.toList_append] at h
    exact hex_encode_inj (String.toList_inj.mp (List.append_cancel_left h))
  · intro h
    rw [h]

/-- CORRECT: for two POSTs under one secret whose requests agree on everything but the signature,
    the signatures are equal iff the POSTs were signed in the same second. -/
theorem signature_determined_iff (hsecret : p.secret = q.secret)
    (hreq : (p.request to_string hmac_sha256).unsigned = (q.request to_string hmac_sha256).unsigned)
    (hmac : p.message to_string ≠ q.message to_string →
      hmac_sha256 p.secret (p.message to_string) ≠ hmac_sha256 p.secret (q.message to_string)) :
    (p.request to_string hmac_sha256).signature = (q.request to_string hmac_sha256).signature ↔
      p.timestamp = q.timestamp := by
  have hbody : to_string p.payload = to_string q.payload := congrArg HttpRequest.body hreq
  rw [Post.signature_inj, ← hsecret, ← Post.message_inj hbody]
  constructor
  · intro htag
    by_contra hne
    exact hmac hne htag
  · intro h
    rw [h]

end

/-- The body of delivery 60, as `serde_json` prints it. -/
def finalized_body : String :=
  "\x7b\"business_id\":\"00000000-0000-0000-0000-000000000001\",\"event\":\"invoice.f" ++
    "inalized\",\"invoice_id\":\"00000000-0000-0000-0000-000000000014\",\"times" ++
    "tamp\":\"2026-01-01T00:00:00+00:00\"\x7d"

/-- HMAC-SHA256 of the two messages below under their secret. -/
def finalized_tag (secret message : String) : List UInt8 :=
  if secret = "whsec_0000000000000000000000000000002a" then
    if message = "1767225600." ++ finalized_body then
      [99, 31, 111, 73, 45, 249, 203, 247, 99, 251, 132, 159, 14, 115, 16, 147, 126, 157,
        107, 83, 237, 206, 6, 62, 184, 54, 161, 154, 54, 95, 51, 86]
    else if message = "1767225660." ++ finalized_body then
      [44, 22, 183, 159, 35, 55, 246, 65, 196, 33, 51, 114, 187, 51, 184, 84, 200, 235,
        223, 49, 1, 146, 246, 212, 251, 162, 40, 9, 141, 70, 90, 241]
    else []
  else []

/-- Delivery 60 of the finalized invoice 20, posted at a given second. -/
def finalized_post (second : ℤ) (answer : Answer) : Post :=
  ⟨60, "https://a.example", "whsec_0000000000000000000000000000002a",
    payload "invoice.finalized" 20 1 1767225600000000, second, answer⟩

/-- A retry one minute later: same secret, same body, another signature. -/
theorem signature_determined_iff_retry :
    ((finalized_post 1767225600 .timed_out).request (fun _ => finalized_body)
        finalized_tag).signature ≠
      ((finalized_post 1767225660 (.response 200 none)).request (fun _ => finalized_body)
        finalized_tag).signature := by
  intro h
  have hsecond := (signature_determined_iff (p := finalized_post 1767225600 .timed_out)
    (q := finalized_post 1767225660 (.response 200 none)) rfl (by decide +kernel)
    fun _ => by decide +kernel).mp h
  have hne : (1767225600 : ℤ) ≠ 1767225660 := by decide
  exact hne hsecond

theorem signature_not_determined : ¬∀ p q : Post, p.secret = q.secret →
    (p.request (fun _ => finalized_body) finalized_tag).unsigned =
      (q.request (fun _ => finalized_body) finalized_tag).unsigned →
    (p.request (fun _ => finalized_body) finalized_tag).signature =
      (q.request (fun _ => finalized_body) finalized_tag).signature := by
  intro h
  have hsig := h (finalized_post 1767225600 .timed_out)
    (finalized_post 1767225660 (.response 200 none)) rfl (by decide +kernel)
  revert hsig
  decide +kernel

end Payman
