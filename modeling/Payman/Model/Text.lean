import Mathlib.Data.List.Basic
import Mathlib.Data.Nat.Notation

/-! Text as the handlers and services treat it: `trim`, `starts_with`, `replace`, the printed form of
    a UUID, bytes in hexadecimal, and header values. -/

namespace Payman

/-- Unicode `White_Space`, which `str::trim` strips. -/
def is_whitespace (c : Char) : Bool :=
  let n := c.toNat
  (9 ≤ n && n ≤ 13) || n = 32 || n = 0x85 || n = 0xA0 || n = 0x1680 || (0x2000 ≤ n && n ≤ 0x200A) ||
    n = 0x2028 || n = 0x2029 || n = 0x202F || n = 0x205F || n = 0x3000

def trim (s : String) : String :=
  String.ofList ((s.toList.dropWhile is_whitespace).reverse.dropWhile is_whitespace).reverse

def starts_with (pre s : String) : Bool := pre.toList.isPrefixOf s.toList

/-- The 32 hexadecimal digits of a UUID: its printed form without hyphens. -/
def hex_digits (u : Nat) : String :=
  String.ofList ((List.range 32).reverse.map fun i => Nat.digitChar ((u >>> (4 * i)) % 16))

/-- The printed form of a UUID: its digits in groups of 8, 4, 4, 4 and 12. -/
def hyphenated (u : Nat) : String :=
  let d := (hex_digits u).toList
  String.ofList (d.take 8 ++ '-' :: ((d.drop 8).take 4 ++ '-' :: ((d.drop 12).take 4 ++
    '-' :: ((d.drop 16).take 4 ++ '-' :: d.drop 20))))

/-- `s.replace(c, "")`. -/
def remove (c : Char) (s : String) : String := String.ofList (s.toList.filter fun d => d != c)

/-- `s.strip_prefix(pre)`. -/
def strip_prefix (pre s : String) : Option String :=
  if starts_with pre s then some (String.ofList (s.toList.drop pre.toList.length)) else none

/-- `hex::encode`: two lower-case digits a byte. -/
def hex_encode (bytes : List UInt8) : String :=
  String.ofList (bytes.flatMap fun b =>
    [Nat.digitChar (b.toNat / 16), Nat.digitChar (b.toNat % 16)])

/-- The bytes of an HTTP header value. -/
abbrev HeaderValue := List UInt8

/-- A header value's bytes that `to_str` accepts: visible ASCII, blank and tab. -/
def is_visible_ascii (b : UInt8) : Bool := (32 ≤ b && b < 127) || b = 9

/-- `HeaderValue::to_str`. -/
def HeaderValue.to_str (v : HeaderValue) : Option String :=
  if v.all is_visible_ascii then some (String.ofList (v.map fun b => Char.ofNat b.toNat)) else none

/-- The bytes of a text of ASCII characters. -/
def ascii_bytes (s : String) : HeaderValue := s.toList.map fun c => UInt8.ofNat c.toNat

/-! ### Hexadecimal -/

theorem digitChar_inj : ∀ a < 16, ∀ b < 16, Nat.digitChar a = Nat.digitChar b → a = b := by
  decide

theorem hex_byte_inj {b b' : UInt8}
    (hhi : Nat.digitChar (b.toNat / 16) = Nat.digitChar (b'.toNat / 16))
    (hlo : Nat.digitChar (b.toNat % 16) = Nat.digitChar (b'.toNat % 16)) : b = b' := by
  have hb := b.toNat_lt
  have hb' := b'.toNat_lt
  have hdiv := digitChar_inj _ (by omega) _ (by omega) hhi
  have hmod := digitChar_inj _ (by omega) _ (by omega) hlo
  exact UInt8.toNat_inj.mp (by omega)

theorem hex_encode_inj {l l' : List UInt8} (h : hex_encode l = hex_encode l') : l = l' := by
  rw [hex_encode, hex_encode, String.ofList_inj] at h
  induction l generalizing l' with
  | nil =>
    cases l' with
    | nil => rfl
    | cons b l' => simp at h
  | cons b l ih =>
    cases l' with
    | nil => simp at h
    | cons b' l' =>
      simp only [List.flatMap_cons, List.cons_append, List.nil_append, List.cons.injEq] at h
      obtain ⟨hhi, hlo, hrest⟩ := h
      rw [hex_byte_inj hhi hlo, ih hrest]

theorem mem_hex_digits {u : ℕ} {c : Char} (h : c ∈ (hex_digits u).toList) :
    ∃ d < 16, c = Nat.digitChar d := by
  rw [hex_digits, String.toList_ofList] at h
  obtain ⟨i, -, rfl⟩ := List.mem_map.mp h
  exact ⟨_, Nat.mod_lt _ (by decide), rfl⟩

theorem length_hex_digits (u : ℕ) : (hex_digits u).toList.length = 32 := by simp [hex_digits]

/-- A printed UUID without its hyphens is its digits. -/
theorem remove_hyphens (u : ℕ) : remove '-' (hyphenated u) = hex_digits u := by
  have hdigit : ∀ d < 16, (Nat.digitChar d != '-') = true := by decide
  have hkeep : ∀ l : List Char, (∀ c ∈ l, c ∈ (hex_digits u).toList) →
      l.filter (fun c => c != '-') = l := by
    intro l hl
    rw [List.filter_eq_self]
    intro c hc
    obtain ⟨d, hd, rfl⟩ := mem_hex_digits (hl c hc)
    exact hdigit d hd
  have htake : ∀ m n, (((hex_digits u).toList.drop m).take n).filter (fun c => c != '-') =
      ((hex_digits u).toList.drop m).take n := fun m n =>
    hkeep _ fun c hc => List.mem_of_mem_drop (List.mem_of_mem_take hc)
  have hfirst := hkeep ((hex_digits u).toList.take 8) fun c hc => List.mem_of_mem_take hc
  have hlast := hkeep ((hex_digits u).toList.drop 20) fun c hc => List.mem_of_mem_drop hc
  have hhyphen : ('-' != '-') = false := by decide
  rw [remove, hyphenated, String.toList_ofList]
  simp only [List.filter_append, List.filter_cons, hhyphen, hfirst, hlast, htake]
  -- the groups are consecutive
  rw [← String.toList_inj, String.toList_ofList]
  have hstep : ∀ m n, ((hex_digits u).toList.drop m).take n ++ (hex_digits u).toList.drop (m + n) =
      (hex_digits u).toList.drop m := fun m n => by
    rw [← List.drop_drop, List.take_append_drop]
  simp only [Bool.false_eq_true, if_false]
  rw [hstep 16 4, hstep 12 4, hstep 8 4, List.take_append_drop]

/-! ### Prefixes -/

theorem starts_with_append (pre s : String) : starts_with pre (pre ++ s) = true := by
  simp [starts_with]

theorem strip_append (pre s : String) : strip_prefix pre (pre ++ s) = some s := by
  rw [ strip_prefix, if_pos (starts_with_append pre s)]
  simp

theorem append_of_strip {pre s t : String} (h : strip_prefix pre s = some t) : s = pre ++ t := by
  rw [ strip_prefix] at h
  split at h
  · rename_i hs
    cases h
    have hpre : pre.toList <+: s.toList := List.isPrefixOf_iff_prefix.mp hs
    rw [← String.toList_inj, String.toList_append, String.toList_ofList]
    exact (List.prefix_iff_eq_append.mp hpre).symm
  · cases h

/-! ### Header values -/

/-- A text that a header value can carry. -/
def Visible (s : String) : Prop := ∀ c ∈ s.toList, 32 ≤ c.toNat ∧ c.toNat < 127

instance (s : String) : Decidable (Visible s) :=
  List.decidableBAll (fun c : Char => 32 ≤ c.toNat ∧ c.toNat < 127) s.toList

theorem Visible.append {s t : String} (hs : Visible s) (ht : Visible t) : Visible (s ++ t) := by
  intro c hc
  rw [String.toList_append, List.mem_append] at hc
  rcases hc with hc | hc
  · exact hs c hc
  · exact ht c hc

theorem to_str_ascii_bytes {s : String} (h : Visible s) : (ascii_bytes s).to_str = some s := by
  have htoNat : ∀ c ∈ s.toList, (UInt8.ofNat c.toNat).toNat = c.toNat := fun c hc =>
    UInt8.toNat_ofNat_of_lt' (Nat.lt_trans (h c hc).2 (by decide))
  have hall : (ascii_bytes s).all is_visible_ascii = true := by
    rw [List.all_eq_true]
    intro b hb
    obtain ⟨c, hc, rfl⟩ := List.mem_map.mp hb
    have hvis := h c hc
    simp only [is_visible_ascii, UInt8.le_iff_toNat_le, UInt8.lt_iff_toNat_lt, htoNat c hc]
    simp [hvis]
  have hback : (ascii_bytes s).map (fun b => Char.ofNat b.toNat) = s.toList := by
    rw [ascii_bytes, List.map_map]
    conv_rhs => rw [← List.map_id s.toList]
    refine List.map_congr_left fun c hc => ?_
    rw [Function.comp_apply, htoNat c hc, Char.ofNat_toNat, id]
  rw [HeaderValue.to_str, if_pos hall, hback, String.ofList_toList]

theorem ascii_bytes_of_to_str {v : HeaderValue} {s : String} (h : v.to_str = some s) :
    v = ascii_bytes s := by
  rw [HeaderValue.to_str] at h
  split at h
  · cases h
    rw [ascii_bytes, String.toList_ofList, List.map_map]
    conv_lhs => rw [← List.map_id v]
    refine List.map_congr_left fun b _ => ?_
    have hlt := b.toNat_lt
    have hvalid : b.toNat.isValidChar := .inl (by omega)
    have hchar : (Char.ofNat b.toNat).toNat = b.toNat := by
      rw [Char.ofNat, dif_pos hvalid]
      rfl
    rw [Function.comp_apply, hchar, UInt8.ofNat_toNat, id]
  · cases h

/-- An ASCII text has as many bytes as characters. -/
theorem utf8ByteSize_of_visible : ∀ {l : List Char}, Visible (String.ofList l) →
    (String.ofList l).utf8ByteSize = l.length
  | [], _ => rfl
  | c :: l, h => by
    have hsize : c.utf8Size = 1 := by
      have hlt := (h c (by simp)).2
      exact Char.utf8Size_eq_one_iff.mpr (UInt32.le_iff_toNat_le.mpr (by change c.toNat ≤ 127; omega))
    have hrest : Visible (String.ofList l) := fun d hd => h d (by simp at hd ⊢; exact .inr hd)
    rw [← List.singleton_append, String.ofList_append, String.utf8ByteSize_append,
      utf8ByteSize_of_visible hrest, List.length_append]
    have hone : (String.ofList [c]).utf8ByteSize = c.utf8Size := String.utf8ByteSize_singleton
    rw [hone, hsize]
    rfl

end Payman
