import Mathlib
import FormulaDigest.Utf8

/-!
# Decoding UTF-8

The lossy reading of bytes loses nothing on the bytes of a text: it gives the text back. The bytes
of a character outside ASCII are all above `0x7F`, so no byte of an ASCII character stands among
them.
-/
namespace FormulaDigest.Utf8

variable {c : Char} {cs : List Char} {b : UInt8} {bytes rest : List UInt8}

theorem encode_append (cs ds : List Char) : encode (cs ++ ds) = encode cs ++ encode ds :=
  List.flatMap_append

theorem encode_cons (c : Char) (cs : List Char) :
    encode (c :: cs) = String.utf8EncodeChar c ++ encode cs :=
  List.flatMap_cons

theorem toNat_ofNat {n : Nat} (h : n < 256) : (UInt8.ofNat n).toNat = n :=
  UInt8.toNat_ofNat_of_lt' h

section
variable {v : Nat} (hv : c.toNat = v)
include hv

theorem encodeChar_one (h : v ≤ 127) : String.utf8EncodeChar c = [UInt8.ofNat v] := by
  subst hv
  exact if_pos h

theorem encodeChar_two (h : 127 < v) (h' : v ≤ 2047) :
    String.utf8EncodeChar c = [UInt8.ofNat (v / 64 + 192), UInt8.ofNat (v % 64 + 128)] := by
  have hl : v / 64 % 32 = v / 64 := by omega
  subst hv
  rw [← hl]
  exact (if_neg (by simpa using h)).trans (if_pos h')

theorem encodeChar_three (h : 2047 < v) (h' : v ≤ 65535) :
    String.utf8EncodeChar c = [UInt8.ofNat (v / 4096 + 224), UInt8.ofNat (v / 64 % 64 + 128),
      UInt8.ofNat (v % 64 + 128)] := by
  have hl : v / 4096 % 16 = v / 4096 := by omega
  subst hv
  rw [← hl]
  exact (if_neg (by simp; omega)).trans ((if_neg (by simpa using h)).trans (if_pos h'))

theorem encodeChar_four (h : 65535 < v) (h' : v < 1114112) :
    String.utf8EncodeChar c = [UInt8.ofNat (v / 262144 + 240), UInt8.ofNat (v / 4096 % 64 + 128),
      UInt8.ofNat (v / 64 % 64 + 128), UInt8.ofNat (v % 64 + 128)] := by
  have hl : v / 262144 % 8 = v / 262144 := by omega
  subst hv
  rw [← hl]
  exact (if_neg (by simp; omega)).trans
    ((if_neg (by simp; omega)).trans (if_neg (by simpa using h)))

end

theorem toNat_valid (c : Char) : c.toNat < 55296 ∨ 57343 < c.toNat ∧ c.toNat < 1114112 := c.valid

theorem le_toNat_of_mem_encodeChar (h : 127 < c.toNat) (hb : b ∈ String.utf8EncodeChar c) :
    128 ≤ b.toNat := by
  have hv := toNat_valid c
  have high {n : Nat} (hn : n < 128) : 128 ≤ (UInt8.ofNat (n + 128)).toNat := by
    rw [toNat_ofNat (by omega)]
    omega
  obtain h2 | ⟨h3, h3'⟩ | h4 : c.toNat ≤ 2047 ∨ (2047 < c.toNat ∧ c.toNat ≤ 65535) ∨
    65535 < c.toNat := by omega
  · simp only [encodeChar_two rfl h h2, List.mem_cons, List.not_mem_nil, or_false] at hb
    rcases hb with rfl | rfl
    · exact high (n := c.toNat / 64 + 64) (by omega)
    · exact high (by omega)
  · simp only [encodeChar_three rfl h3 h3', List.mem_cons, List.not_mem_nil, or_false] at hb
    rcases hb with rfl | rfl | rfl
    · exact high (n := c.toNat / 4096 + 96) (by omega)
    · exact high (by omega)
    · exact high (by omega)
  · simp only [encodeChar_four rfl h4 (by omega), List.mem_cons, List.not_mem_nil, or_false] at hb
    rcases hb with rfl | rfl | rfl | rfl
    · exact high (n := c.toNat / 262144 + 112) (by omega)
    · exact high (by omega)
    · exact high (by omega)
    · exact high (by omega)

theorem decodeLossy_of_lt (h : b.toNat < 128) :
    decodeLossy (b :: bytes) = Char.ofNat b.toNat :: decodeLossy bytes := by
  rw [decodeLossy, if_pos (UInt8.lt_iff_toNat_lt.mpr h)]

theorem decodeLossy_of_lead {low high : UInt8} {n code : Nat} (h : 128 ≤ b.toNat)
    (hl : lead? b = some ⟨low, high, n, code⟩)
    (hf : follow n low high code bytes = (some c, rest)) :
    decodeLossy (b :: bytes) = c :: decodeLossy rest := by
  have hb : ¬ b < 0x80 := by
    rw [UInt8.lt_iff_toNat_lt]
    exact Nat.not_lt.mpr h
  rw [decodeLossy, if_neg hb, hl]
  simp only [hf, Option.getD_some]

/-- A trailing byte within the bounds adds its six bits. -/
theorem follow_trail {n code d : Nat} {low high : UInt8} (hlow : low.toNat ≤ d + 128)
    (hhigh : d + 128 ≤ high.toNat) :
    follow (n + 1) low high code (UInt8.ofNat (d + 128) :: bytes) =
      follow n 0x80 0xBF (64 * code + d) bytes := by
  have hd : (UInt8.ofNat (d + 128)).toNat = d + 128 :=
    toNat_ofNat (Nat.lt_of_le_of_lt hhigh high.toNat_lt)
  have hb : low ≤ UInt8.ofNat (d + 128) ∧ UInt8.ofNat (d + 128) ≤ high := by
    rw [UInt8.le_iff_toNat_le, UInt8.le_iff_toNat_le, hd]
    exact ⟨hlow, hhigh⟩
  rw [follow, if_pos hb, hd, Nat.add_sub_cancel]

theorem lead?_two {m : Nat} (hm : 2 ≤ m) (hm' : m < 32) :
    lead? (UInt8.ofNat (m + 192)) = some ⟨0x80, 0xBF, 1, m⟩ := by
  interval_cases m <;> rfl

/-- The second byte of three is bounded from below where two would do, and from above where it
would make a surrogate. -/
theorem lead?_three {m : Nat} (hm : m < 16) : ∃ low high,
    lead? (UInt8.ofNat (m + 224)) = some ⟨low, high, 2, m⟩ ∧
      low.toNat = (if m = 0 then 160 else 128) ∧ high.toNat = if m = 13 then 159 else 191 := by
  interval_cases m <;> exact ⟨_, _, rfl, rfl, rfl⟩

/-- The second byte of four is bounded from below where three would do, and from above where it
would leave the code space. -/
theorem lead?_four {m : Nat} (hm : m < 5) : ∃ low high,
    lead? (UInt8.ofNat (m + 240)) = some ⟨low, high, 3, m⟩ ∧
      low.toNat = (if m = 0 then 144 else 128) ∧ high.toNat = if m = 4 then 143 else 191 := by
  interval_cases m <;> exact ⟨_, _, rfl, rfl, rfl⟩

theorem decodeLossy_encodeChar (c : Char) (bytes : List UInt8) :
    decodeLossy (String.utf8EncodeChar c ++ bytes) = c :: decodeLossy bytes := by
  have hv := toNat_valid c
  have hc : Char.ofNat c.toNat = c := Char.ofNat_toNat c
  generalize hn : c.toNat = v at hv hc
  have h80 : (0x80 : UInt8).toNat = 128 := rfl
  have hBF : (0xBF : UInt8).toNat = 191 := rfl
  have lead {n : Nat} (h : n < 64) : 128 ≤ (UInt8.ofNat (n + 192)).toNat := by
    rw [toNat_ofNat (by omega)]
    omega
  obtain h1 | ⟨h2, h2'⟩ | ⟨h3, h3'⟩ | h4 : v ≤ 127 ∨ (127 < v ∧ v ≤ 2047) ∨
    (2047 < v ∧ v ≤ 65535) ∨ 65535 < v := by omega
  · have hb : (UInt8.ofNat v).toNat = v := toNat_ofNat (by omega)
    rw [encodeChar_one hn h1, List.singleton_append, decodeLossy_of_lt (by omega), hb, hc]
  · simp only [encodeChar_two hn h2 h2', List.cons_append, List.nil_append]
    refine decodeLossy_of_lead (lead (by omega)) (lead?_two (by omega) (by omega)) ?_
    have hcode : 64 * (v / 64) + v % 64 = v := by omega
    rw [follow_trail (by omega) (by omega), hcode, follow, hc]
  · simp only [encodeChar_three hn h3 h3', List.cons_append, List.nil_append]
    obtain ⟨low, high, hl, hlow, hhigh⟩ := lead?_three (m := v / 4096) (by omega)
    refine decodeLossy_of_lead (lead (n := v / 4096 + 32) (by omega)) hl ?_
    have hcode : 64 * (64 * (v / 4096) + v / 64 % 64) + v % 64 = v := by omega
    rw [follow_trail (by split at hlow <;> omega) (by split at hhigh <;> omega),
      follow_trail (by omega) (by omega), hcode, follow, hc]
  · simp only [encodeChar_four hn h4 (by omega), List.cons_append, List.nil_append]
    obtain ⟨low, high, hl, hlow, hhigh⟩ := lead?_four (m := v / 262144) (by omega)
    refine decodeLossy_of_lead (lead (n := v / 262144 + 48) (by omega)) hl ?_
    have hcode : 64 * (64 * (64 * (v / 262144) + v / 4096 % 64) + v / 64 % 64) + v % 64 = v := by
      omega
    rw [follow_trail (by split at hlow <;> omega) (by split at hhigh <;> omega),
      follow_trail (by omega) (by omega), follow_trail (by omega) (by omega), hcode, follow, hc]

theorem decodeLossy_encode (cs : List Char) : decodeLossy (encode cs) = cs := by
  induction cs with
  | nil => simp [encode, decodeLossy]
  | cons c cs ih => rw [encode_cons, decodeLossy_encodeChar, ih]

/-- Bytes that are those of a text. -/
def WellFormed (bytes : List UInt8) : Prop := ∃ cs, encode cs = bytes

theorem WellFormed.encode_decodeLossy (h : WellFormed bytes) :
    encode (decodeLossy bytes) = bytes := by
  obtain ⟨cs, rfl⟩ := h
  rw [decodeLossy_encode]

theorem wellFormed_nil : WellFormed [] := ⟨[], rfl⟩

theorem WellFormed.append (h : WellFormed bytes) (h' : WellFormed rest) :
    WellFormed (bytes ++ rest) := by
  obtain ⟨cs, rfl⟩ := h
  obtain ⟨ds, rfl⟩ := h'
  exact ⟨cs ++ ds, encode_append cs ds⟩

theorem WellFormed.flatMap {α : Type} {as : List α} {f : α → List UInt8}
    (h : ∀ a ∈ as, WellFormed (f a)) : WellFormed (as.flatMap f) := by
  induction as with
  | nil => exact wellFormed_nil
  | cons a as ih =>
    rw [List.flatMap_cons]
    exact (h a (by simp)).append (ih fun b hb => h b (by simp [hb]))

theorem WellFormed.intercalate {separator : List UInt8} {parts : List (List UInt8)}
    (hs : WellFormed separator) (h : ∀ part ∈ parts, WellFormed part) :
    WellFormed (List.intercalate separator parts) := by
  induction parts with
  | nil => exact wellFormed_nil
  | cons part parts ih =>
    cases parts with
    | nil => simpa using h part (by simp)
    | cons next parts =>
      rw [List.intercalate_cons_cons]
      exact ((h part (by simp)).append hs).append (ih fun b hb => h b (List.mem_cons_of_mem _ hb))

end FormulaDigest.Utf8
