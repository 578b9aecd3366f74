import FormulaDigest.Proofs.Address
import FormulaDigest.Proofs.ReferenceGrammar

/-!
# What the scanner finds

The tokens of a text are its leftmost references with all their digits: they lie apart and in
order, and no reference starts in a gap between them. Nothing else has these properties, so they
determine the scan. They are stated for a text behind `offset` bytes, which is what the scan of a
remainder sees.
-/
namespace FormulaDigest.Reference

open Utf8

variable {offset n : Nat} {c : Char} {front cs rest : List Char} {r : Reference} {t : Token}
  {tokens : List Token}

/-- A well-formed reference starts at a byte of a text. -/
def StartsAt (offset : Nat) (cs : List Char) (n : Nat) : Prop :=
  ∃ (before : List Char) (r : Reference) (after : List Char),
    before ++ r.text ++ after = cs ∧ r.WellFormed ∧ n = offset + width before

/-- A token spans a well-formed reference with all the digits that follow. -/
def Spans (offset : Nat) (cs : List Char) (t : Token) : Prop :=
  ∃ (before : List Char) (r : Reference) (after : List Char),
    before ++ r.text ++ after = cs ∧ r.WellFormed ∧ (∀ c ∈ after.head?, c.isDigit = false) ∧
    t = ⟨offset + width before, offset + width (before ++ r.text), String.ofList r.letters⟩

/-- Tokens that lie apart and in order, with every reference starting inside one of them. -/
structure Decomposes (offset : Nat) (cs : List Char) (tokens : List Token) : Prop where
  spans : ∀ t ∈ tokens, Spans offset cs t
  apart : tokens.Pairwise fun t u => t.stop ≤ u.start
  exhaustive : ∀ n, StartsAt offset cs n → ∃ t ∈ tokens, t.start ≤ n ∧ n < t.stop

theorem Spans.start_lt_stop (h : Spans offset cs t) : t.start < t.stop := by
  obtain ⟨before, r, after, -, hr, -, rfl⟩ := h
  have hw : width r.text ≠ 0 := mt width_eq_zero_iff.mp (text_ne_nil hr)
  simp only [width_append]
  omega

theorem Spans.startsAt (h : Spans offset cs t) : StartsAt offset cs t.start := by
  obtain ⟨before, r, after, hcs, hr, -, rfl⟩ := h
  exact ⟨before, r, after, hcs, hr, rfl⟩

/-! A text and its remainder behind some first characters. -/

theorem StartsAt.le (h : StartsAt offset cs n) : offset ≤ n := by
  obtain ⟨before, r, after, -, -, rfl⟩ := h
  omega

theorem StartsAt.append (h : StartsAt (offset + width front) cs n) :
    StartsAt offset (front ++ cs) n := by
  obtain ⟨before, r, after, rfl, hr, rfl⟩ := h
  exact ⟨front ++ before, r, after, by simp, hr, by rw [width_append, Nat.add_assoc]⟩

theorem StartsAt.of_append (h : StartsAt offset (front ++ cs) n) (hn : offset + width front ≤ n) :
    StartsAt (offset + width front) cs n := by
  obtain ⟨before, r, after, hcs, hr, rfl⟩ := h
  rw [List.append_assoc] at hcs
  obtain ⟨between, rfl, rfl⟩ := exists_append_of_width_le hcs (by omega)
  exact ⟨between, r, after, by simp, hr, by rw [width_append, Nat.add_assoc]⟩

theorem Spans.append (h : Spans (offset + width front) cs t) : Spans offset (front ++ cs) t := by
  obtain ⟨before, r, after, rfl, hr, ended, rfl⟩ := h
  refine ⟨front ++ before, r, after, by simp, hr, ended, ?_⟩
  simp only [width_append, Nat.add_assoc]

theorem Spans.of_append (h : Spans offset (front ++ cs) t) (ht : offset + width front ≤ t.start) :
    Spans (offset + width front) cs t := by
  obtain ⟨before, r, after, hcs, hr, ended, rfl⟩ := h
  rw [List.append_assoc] at hcs
  obtain ⟨between, rfl, rfl⟩ := exists_append_of_width_le hcs (by simpa using ht)
  refine ⟨between, r, after, by simp, hr, ended, ?_⟩
  simp only [width_append, Nat.add_assoc]

/-! What starts at the beginning of a text is what is read there. -/

theorem startsAt_offset_iff : StartsAt offset cs offset ↔ read? cs ≠ none := by
  constructor
  · rintro ⟨before, r, after, rfl, hr, hw⟩
    obtain rfl : before = [] := width_eq_zero_iff.mp (by omega)
    simpa using read?_text_append_ne_none hr after
  · intro h
    obtain ⟨⟨r, after⟩, hread⟩ := Option.ne_none_iff_exists'.mp h
    obtain ⟨hr, -, hcs⟩ := read?_eq_some_iff.mp hread
    exact ⟨[], r, after, by simpa using hcs, hr, by simp [width]⟩

theorem spans_offset_iff (hstart : t.start = offset) :
    Spans offset cs t ↔ ∃ r after, read? cs = some (r, after) ∧
      t = ⟨offset, offset + width r.text, String.ofList r.letters⟩ := by
  constructor
  · rintro ⟨before, r, after, rfl, hr, ended, rfl⟩
    obtain rfl : before = [] := width_eq_zero_iff.mp (by simpa using hstart)
    exact ⟨r, after, read?_eq_some_iff.mpr ⟨hr, ended, by simp⟩, by simp [width]⟩
  · rintro ⟨r, after, hread, rfl⟩
    obtain ⟨hr, ended, hcs⟩ := read?_eq_some_iff.mp hread
    exact ⟨[], r, after, by simpa using hcs, hr, ended, by simp [width]⟩

theorem decomposes_nil : Decomposes offset [] tokens ↔ tokens = [] := by
  constructor
  · intro h
    rw [List.eq_nil_iff_forall_not_mem]
    intro t ht
    obtain ⟨before, r, after, hcs, hr, -⟩ := h.spans t ht
    simp [text_ne_nil hr] at hcs
  · rintro rfl
    refine ⟨by simp, .nil, ?_⟩
    rintro n ⟨before, r, after, hcs, hr, -⟩
    simp [text_ne_nil hr] at hcs

/-- A character at which no reference starts belongs to no token. -/
theorem decomposes_plain (h : read? (c :: cs) = none) :
    Decomposes offset (c :: cs) tokens ↔ Decomposes (offset + c.utf8Size) cs tokens := by
  have later {n : Nat} (hs : StartsAt offset ([c] ++ cs) n) : offset + width [c] ≤ n := by
    obtain ⟨before, r, after, hcs, hr, rfl⟩ := hs
    cases before with
    | nil =>
      have hs : StartsAt offset (c :: cs) offset := ⟨[], r, after, hcs, hr, rfl⟩
      exact absurd h (startsAt_offset_iff.mp hs)
    | cons b before =>
      obtain ⟨rfl, -⟩ := List.cons.inj hcs
      simp only [width]
      omega
  change Decomposes offset ([c] ++ cs) tokens ↔ Decomposes (offset + width [c]) cs tokens
  constructor
  · intro hd
    exact ⟨fun t ht => (hd.spans t ht).of_append (later (hd.spans t ht).startsAt), hd.apart,
      fun n hn => hd.exhaustive n hn.append⟩
  · intro hd
    exact ⟨fun t ht => (hd.spans t ht).append, hd.apart,
      fun n hn => hd.exhaustive n (hn.of_append (later hn))⟩

theorem Decomposes.starts_first (hd : Decomposes offset cs tokens) (h : StartsAt offset cs offset) :
    ∃ t others, tokens = t :: others ∧ t.start = offset := by
  obtain ⟨t, ht, hle, -⟩ := hd.exhaustive offset h
  have hstart : t.start = offset := Nat.le_antisymm hle (hd.spans t ht).startsAt.le
  cases tokens with
  | nil => simp at ht
  | cons u others =>
    refine ⟨u, others, rfl, ?_⟩
    rcases List.mem_cons.mp ht with rfl | ht
    · exact hstart
    · -- A later token starts behind the first one, which is not empty.
      have hu := hd.spans u (by simp)
      have hstop := (List.pairwise_cons.mp hd.apart).1 t ht
      have := hu.startsAt.le
      have := hu.start_lt_stop
      omega

theorem Decomposes.tail (hd : Decomposes offset (front ++ cs) (t :: tokens))
    (hstop : t.stop = offset + width front) : Decomposes (offset + width front) cs tokens := by
  obtain ⟨hfirst, hothers⟩ := List.pairwise_cons.mp hd.apart
  rw [hstop] at hfirst
  refine ⟨fun u hu => ?_, hothers, fun n hn => ?_⟩
  · exact (hd.spans u (by simp [hu])).of_append (hfirst u hu)
  · obtain ⟨u, hu, hle, hlt⟩ := hd.exhaustive n hn.append
    rcases List.mem_cons.mp hu with rfl | hu
    · have := hn.le
      omega
    · exact ⟨u, hu, hle, hlt⟩

/-- A reference at the beginning of a text is the first token, and the others are those of the
remainder. -/
theorem decomposes_reference (h : read? cs = some (r, rest)) :
    Decomposes offset cs tokens ↔
      ∃ others, tokens = ⟨offset, offset + width r.text, String.ofList r.letters⟩ :: others ∧
        Decomposes (offset + width r.text) rest others := by
  obtain ⟨hr, ended, rfl⟩ := read?_eq_some_iff.mp h
  have hspans : Spans offset (r.text ++ rest)
      ⟨offset, offset + width r.text, String.ofList r.letters⟩ :=
    (spans_offset_iff rfl).mpr ⟨r, rest, h, rfl⟩
  constructor
  · intro hd
    obtain ⟨t, others, rfl, hstart⟩ := hd.starts_first hspans.startsAt
    obtain ⟨r', rest', h', rfl⟩ := (spans_offset_iff hstart).mp (hd.spans t (by simp))
    obtain ⟨rfl, rfl⟩ : r = r' ∧ rest = rest' := by simpa [h] using h'
    exact ⟨others, rfl, hd.tail rfl⟩
  · rintro ⟨others, rfl, hd⟩
    refine ⟨?_, List.pairwise_cons.mpr ⟨fun t ht => (hd.spans t ht).startsAt.le, hd.apart⟩, ?_⟩
    · intro t ht
      rcases List.mem_cons.mp ht with rfl | ht
      · exact hspans
      · exact (hd.spans t ht).append
    · intro n hn
      by_cases hlt : n < offset + width r.text
      · exact ⟨_, List.mem_cons_self, hn.le, hlt⟩
      · obtain ⟨t, ht, hspan⟩ := hd.exhaustive n (hn.of_append (by omega))
        exact ⟨t, by simp [ht], hspan⟩

/-- The pieces of a text give its only decomposition. -/
theorem decomposes_iff (cs : List Char) :
    Decomposes offset cs tokens ↔ tokens = Piece.tokens offset (Piece.split cs) := by
  fun_induction Piece.split cs generalizing offset tokens with
  | case1 => rw [decomposes_nil, Piece.tokens]
  | case2 c cs r rest h ih =>
    rw [decomposes_reference h, Piece.tokens]
    simp only [ih, exists_eq_right]
  | case3 c cs h ih => rw [decomposes_plain h, Piece.tokens, ih]

/-- Exactly the texts without a core hold no reference. -/
theorem tokens_split_eq_nil_iff (cs : List Char) :
    Piece.tokens offset (Piece.split cs) = [] ↔ ¬ HasCore cs := by
  fun_induction Piece.split cs generalizing offset with
  | case1 => simp [Piece.tokens, not_hasCore_nil]
  | case2 c cs r rest h ih =>
    obtain ⟨hr, -, hcs⟩ := read?_eq_some_iff.mp h
    rw [← hcs]
    simp [Piece.tokens, hasCore_text_append hr rest]
  | case3 c cs h ih =>
    have hno : ¬ (c.isUpper = true ∧ StartsRow cs) := fun hc => read?_core_ne_none hc.1 hc.2 h
    rw [Piece.tokens, ih, hasCore_cons]
    simp only [hno, false_or]

/-- The tokens of a text are its only decomposition, each names one of the first columns, and they
are missing exactly where no capital letter stands before a row number. -/
theorem scan_decomposes (text : String) :
    (∀ tokens, Decomposes 0 text.toList tokens ↔ tokens = scan text) ∧
    (∀ t ∈ scan text,
      t.start < t.stop ∧ ∃ column ≤ 18277, Column.ofName? t.letters = some column) ∧
    (scan text = [] ↔ ¬ HasCore text.toList) := by
  have hd (tokens : List Token) : Decomposes 0 text.toList tokens ↔ tokens = scan text :=
    decomposes_iff text.toList
  refine ⟨hd, fun t ht => ?_, tokens_split_eq_nil_iff text.toList⟩
  have hs := ((hd _).mpr rfl).spans t ht
  refine ⟨hs.start_lt_stop, ?_⟩
  obtain ⟨before, r, after, -, hr, -, rfl⟩ := hs
  simpa [Column.ofName?] using
    Column.ofLetters?_of_length_le hr.isUpper hr.letters_ne_nil hr.length_letters

/-- In a run of four letters the last three start a reference, and bytes are counted. -/
theorem scan_decomposes_runs :
    Decomposes 0 "$ABCD1é$AB$27X9$".toList
      [⟨2, 6, "BCD"⟩, ⟨8, 14, "AB"⟩, ⟨14, 16, "X"⟩] ∧
    ∃ column ≤ 18277, Column.ofName? "BCD" = some column := by
  have hscan : scan "$ABCD1é$AB$27X9$" = [⟨2, 6, "BCD"⟩, ⟨8, 14, "AB"⟩, ⟨14, 16, "X"⟩] := by cbv
  obtain ⟨hd, hcol, -⟩ := scan_decomposes "$ABCD1é$AB$27X9$"
  rw [hscan] at hd hcol
  exact ⟨(hd _).mpr rfl, (hcol ⟨2, 6, "BCD"⟩ (by simp)).2⟩

end FormulaDigest.Reference
