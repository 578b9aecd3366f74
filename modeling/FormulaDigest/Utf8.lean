/-!
# UTF-8

The bytes of a text, cuts at byte offsets, and the reading of bytes in which every ill-formed
stretch becomes U+FFFD.
-/
namespace FormulaDigest.Utf8

def encode (cs : List Char) : List UInt8 :=
  cs.flatMap String.utf8EncodeChar

/-- The number of bytes that a text takes. -/
def width : List Char → Nat
  | [] => 0
  | c :: cs => c.utf8Size + width cs

theorem width_append (cs ds : List Char) : width (cs ++ ds) = width cs + width ds := by
  induction cs with
  | nil => simp [width]
  | cons c cs ih => simp [width, ih, Nat.add_assoc]

theorem width_eq_zero_iff {cs : List Char} : width cs = 0 ↔ cs = [] := by
  cases cs with
  | nil => simp [width]
  | cons c cs =>
    have := c.utf8Size_pos
    simp only [width, reduceCtorEq, iff_false]
    omega

/-- Of two beginnings of a text the wider one continues the other. -/
theorem exists_append_of_width_le {front back cs ds : List Char} (h : back ++ ds = front ++ cs)
    (hw : width front ≤ width back) : ∃ between, back = front ++ between ∧ cs = between ++ ds := by
  rcases List.append_eq_append_iff.mp h with ⟨between, rfl, rfl⟩ | ⟨between, rfl, rfl⟩
  · have hn : between = [] := by
      rw [← width_eq_zero_iff]
      rw [width_append] at hw
      omega
    exact ⟨[], by simp [hn], by simp [hn]⟩
  · exact ⟨between, rfl, rfl⟩

/-- Cuts a text after `n` bytes, unless it is shorter or the cut falls inside a character. -/
def split? : List Char → Nat → Option (List Char × List Char)
  | cs, 0 => some ([], cs)
  | [], _ + 1 => none
  | c :: cs, n + 1 =>
    if c.utf8Size ≤ n + 1 then
      (split? cs (n + 1 - c.utf8Size)).map fun halves => (c :: halves.1, halves.2)
    else none

/-- The part of a text between two byte offsets, if both are character boundaries in order. -/
def slice? (cs : List Char) (start stop : Nat) : Option (List Char) :=
  if start ≤ stop then do
    let (_, rest) ← split? cs start
    let (part, _) ← split? rest (stop - start)
    pure part
  else none

theorem split?_width (front back : List Char) :
    split? (front ++ back) (width front) = some (front, back) := by
  induction front with
  | nil => cases back <;> rfl
  | cons c front ih =>
    obtain ⟨n, hn⟩ : ∃ n, c.utf8Size = n + 1 := ⟨c.utf8Size - 1, by have := c.utf8Size_pos; omega⟩
    have hw : width (c :: front) = n + width front + 1 := by
      rw [width, hn]
      omega
    rw [hw, List.cons_append, split?, if_pos (by omega), hn,
      show n + width front + 1 - (n + 1) = width front by omega, ih]
    rfl

/-- Cutting at the two ends of a part gives the part. -/
theorem slice?_width (front part back : List Char) :
    slice? (front ++ part ++ back) (width front) (width (front ++ part)) = some part := by
  have hw : width (front ++ part) = width front + width part := width_append front part
  rw [slice?, if_pos (by omega), List.append_assoc, split?_width, hw, Nat.add_sub_cancel_left]
  simp [split?_width]

def replacement : Char := '\uFFFD'

/-- How a lead byte goes on: the bounds of the second byte, the number of bytes that follow and
the bits that the lead byte contributes. -/
structure Lead where
  low : UInt8
  high : UInt8
  follow : Nat
  bits : Nat

/-- The lead bytes of the well-formed sequences of two to four bytes. -/
def lead? (b : UInt8) : Option Lead :=
  if 0xC2 ≤ b ∧ b ≤ 0xDF then some ⟨0x80, 0xBF, 1, b.toNat - 0xC0⟩
  else if b = 0xE0 then some ⟨0xA0, 0xBF, 2, 0⟩
  else if b = 0xED then some ⟨0x80, 0x9F, 2, 0xD⟩
  else if 0xE1 ≤ b ∧ b ≤ 0xEF then some ⟨0x80, 0xBF, 2, b.toNat - 0xE0⟩
  else if b = 0xF0 then some ⟨0x90, 0xBF, 3, 0⟩
  else if 0xF1 ≤ b ∧ b ≤ 0xF3 then some ⟨0x80, 0xBF, 3, b.toNat - 0xF0⟩
  else if b = 0xF4 then some ⟨0x80, 0x8F, 3, 4⟩
  else none

/-- Reads `n` more bytes of a sequence, the first within the given bounds. A byte out of bounds
ends the sequence without a character and is not consumed. -/
def follow : Nat → UInt8 → UInt8 → Nat → List UInt8 → Option Char × List UInt8
  | 0, _, _, code, bytes => (some (Char.ofNat code), bytes)
  | _ + 1, _, _, _, [] => (none, [])
  | n + 1, low, high, code, b :: bytes =>
    if low ≤ b ∧ b ≤ high then follow n 0x80 0xBF (64 * code + (b.toNat - 0x80)) bytes
    else (none, b :: bytes)

theorem length_follow_le (n : Nat) (low high : UInt8) (code : Nat) (bytes : List UInt8) :
    (follow n low high code bytes).2.length ≤ bytes.length := by
  induction n generalizing low high code bytes with
  | zero => simp [follow]
  | succ n ih =>
    cases bytes with
    | nil => simp [follow]
    | cons b bytes =>
      simp only [follow]
      split
      · exact Nat.le_succ_of_le (ih ..)
      · exact Nat.le_refl _

/-- Reads bytes as text. Each longest stretch that begins a sequence without completing it, and
each byte that begins none, becomes one replacement character. -/
def decodeLossy : List UInt8 → List Char
  | [] => []
  | b :: bytes =>
    if b < 0x80 then Char.ofNat b.toNat :: decodeLossy bytes
    else match lead? b with
      | none => replacement :: decodeLossy bytes
      | some l =>
        let read := follow l.follow l.low l.high l.bits bytes
        read.1.getD replacement :: decodeLossy read.2
termination_by bytes => bytes.length
decreasing_by
  · simp
  · simp
  · exact Nat.lt_succ_of_le (length_follow_le ..)

end FormulaDigest.Utf8
