import Mathlib
import FormulaDigest.JsonReading
import FormulaDigest.Proofs.Runs

/-!
# Reading a printed document

What is printed over several lines is read back, whatever follows it. A character is read back from
its escape, a number up to the comma or line break behind it, and an array or object from its items,
since white space in front of a value counts for nothing. The bound on the nesting never matters: no
value nests deeper than its text is long.
-/
namespace FormulaDigest

namespace JsonReading
open Json

variable {cs rest blanks : List Char} {fuel : Nat}

theorem units?_mark {mark c : Char} {units : List Nat} (named : mark ≠ 'u')
    (hc : escaped? mark = some c) (h : units? cs = some (units, rest)) :
    units? ('\\' :: mark :: cs) = some (c.toNat :: units, rest) := by
  rw [units?]
  · simp [hc, h]
  · exact fun _ _ _ _ _ hu _ => named hu

theorem units?_escape {c : Char} {units : List Nat} (h : units? cs = some (units, rest)) :
    units? (escape c ++ cs) = some (c.toNat :: units, rest) := by
  unfold escape
  split_ifs with quote backslash backspace tab line form carriage control
  · subst quote
    exact units?_mark (by decide) rfl h
  · subst backslash
    exact units?_mark (by decide) rfl h
  · exact units?_mark (by decide) (backspace ▸ rfl) h
  · exact units?_mark (by decide) (tab ▸ rfl) h
  · exact units?_mark (by decide) (line ▸ rfl) h
  · exact units?_mark (by decide) (form ▸ rfl) h
  · exact units?_mark (by decide) (carriage ▸ rfl) h
  · have zero : Hex.digitValue? '0' = some 0 := rfl
    have high := Hex.digitValue?_digit (n := c.toNat / 16) (by omega)
    have low := Hex.digitValue?_digit (n := c.toNat % 16) (by omega)
    have value : Hex.value? ['0', '0', Hex.digit (c.toNat / 16), Hex.digit (c.toNat % 16)] =
        some c.toNat := by
      simp only [Hex.value?, List.foldlM_cons, List.foldlM_nil, zero, high, low, Option.map_some,
        Option.bind_eq_bind, Option.bind_some, Option.pure_def, Option.some.injEq]
      omega
    simp [units?, value, h]
  · have visible : 32 ≤ c.toNat := by omega
    rw [List.singleton_append, units?]
    · simp [visible, h]
    all_goals simp_all

/-- A text inside quotes is read as its code points. -/
theorem units?_literal (text rest : List Char) :
    units? (text.flatMap escape ++ '"' :: rest) = some (text.map Char.toNat, rest) := by
  induction text with
  | nil => rfl
  | cons c text ih =>
    rw [List.flatMap_cons, List.append_assoc]
    exact units?_escape ih

/-- No character is half of a surrogate pair. -/
theorem not_surrogate (c : Char) :
    isHighSurrogate c.toNat = false ∧ isLowSurrogate c.toNat = false := by
  have valid : c.toNat < 55296 ∨ 57343 < c.toNat ∧ c.toNat < 1114112 := c.valid
  simp only [isHighSurrogate, isLowSurrogate, Bool.and_eq_false_iff, decide_eq_false_iff_not]
  omega

theorem text?_map_toNat (text : List Char) : text? (text.map Char.toNat) = some text := by
  induction text with
  | nil => rfl
  | cons c text ih =>
    obtain ⟨high, low⟩ := not_surrogate c
    cases text with
    | nil => simp [text?, high, low]
    | cons d text =>
      rw [List.map_cons, List.map_cons, text?, ← List.map_cons, ih]
      simp [high, low]

theorem string?_literal (s : String) (rest : List Char) :
    string? (s.toList.flatMap escape ++ '"' :: rest) = some (some s, rest) := by
  simp [string?, units?_literal, text?_map_toNat]

/-- What stands behind a value in a printed document. -/
def Ends (rest : List Char) : Prop := ∀ c ∈ rest.head?, c = ',' ∨ c = '\n'

theorem ends_comma (rest : List Char) : Ends (',' :: rest) := by
  intro c hc
  exact .inl (Option.some.inj hc).symm

theorem ends_newLine (depth : Nat) (rest : List Char) : Ends (newLine depth ++ rest) := by
  intro c hc
  exact .inr (Option.some.inj hc).symm

theorem exists_toDigits (n : Nat) : ∃ c cs, Nat.toDigits 10 n = c :: cs ∧ c.isDigit = true ∧
    (c = '0' → cs = []) := by
  induction n using Nat.strongRecOn with
  | ind n ih =>
    by_cases small : n < 10
    · have all : ∀ d : Fin 10, (Nat.digitChar d).isDigit = true := by decide
      exact ⟨n.digitChar, [], Nat.toDigits_of_lt_base small, all ⟨n, small⟩, fun _ => rfl⟩
    · obtain ⟨c, cs, hc, digit, zero⟩ := ih (n / 10) (by omega)
      refine ⟨c, cs ++ [(n % 10).digitChar], ?_, digit, fun h => ?_⟩
      · rw [Nat.toDigits_of_base_le (by omega) (by omega), hc, List.cons_append]
      · -- A leading zero would make the number in front of the last digit zero.
        have value := Nat.ofDigitChars_ten_toDigits (n := n / 10)
        rw [hc, h, zero h] at value
        have none : Nat.ofDigitChars 10 ['0'] 0 = 0 := rfl
        omega

/-- A natural number is read up to the comma or line break behind it. -/
theorem number?_toDigits (n : Nat) (ends : Ends rest) :
    number? (Nat.toDigits 10 n ++ rest) = some (natural n, rest) := by
  obtain ⟨c, cs, hn, digit, zero⟩ := exists_toDigits n
  have inside : ∀ d ∈ c :: cs, d.isDigit = true :=
    fun d hd => Nat.isDigit_of_mem_toDigits (b := 10) (n := n) (by omega) (by omega) (hn ▸ hd)
  have ended : ∀ d ∈ rest.head?, d.isDigit = false := by
    intro d hd
    rcases ends d hd with rfl | rfl <;> rfl
  have digits : digits? (c :: cs ++ rest) = some (c :: cs, rest) := by
    rw [digits?, takeWhile_run inside ended, dropWhile_run inside ended]
    exact if_neg (by simp)
  have whole : whole? (c :: cs ++ rest) = some (c :: cs, rest) := by
    by_cases hc : c = '0'
    · rw [hc, zero hc]
      rfl
    · rw [List.cons_append, whole?]
      · exact digits
      · simpa using hc
  have fraction : fraction? rest = some ([], rest) := by
    unfold fraction?
    split
    case h_1 => rcases ends '.' rfl with h | h <;> exact absurd h (by decide)
    case h_2 => rfl
  have power : power? rest = some ([], rest) := by
    unfold power?
    split
    case h_1 => rfl
    case h_2 mark rest =>
      have unmarked : ¬ (mark = 'e' ∨ mark = 'E') := by
        rcases ends mark rfl with rfl | rfl <;> decide
      exact if_neg unmarked
  have unsigned : c ≠ '-' := by
    rintro rfl
    exact absurd digit (by decide)
  have numeral : n.repr = String.ofList (c :: cs) := by rw [Nat.repr, hn]
  rw [List.cons_append] at whole
  rw [hn, List.cons_append, number?]
  · simp [whole, fraction, power, natural, numeral]
  · intro _ h
    exact unsigned (List.cons.inj h).1

/-- White space in front of a value counts for nothing. -/
theorem skip_append (hb : ∀ c ∈ blanks, isBlank c = true) (cs : List Char) :
    skip (blanks ++ cs) = skip cs := List.dropWhile_append_of_pos hb

theorem skip_cons {c : Char} (h : isBlank c = false) (cs : List Char) :
    skip (c :: cs) = c :: cs := by
  simp [skip, h]

theorem isBlank_of_mem_newLine {depth : Nat} {c : Char} (h : c ∈ newLine depth) :
    isBlank c = true := by
  rcases List.mem_cons.mp h with rfl | h
  · rfl
  · rw [List.eq_of_mem_replicate h]
    rfl

theorem skip_newLine (depth : Nat) (cs : List Char) : skip (newLine depth ++ cs) = skip cs :=
  skip_append (fun _ => isBlank_of_mem_newLine) cs

theorem value?_congr {cs' : List Char} (h : skip cs = skip cs') :
    value? fuel cs = value? fuel cs' := by
  cases fuel with
  | zero => rfl
  | succ fuel => rw [value?, value?, h]

theorem items?_congr {cs' : List Char} (h : skip cs = skip cs') :
    items? fuel cs = items? fuel cs' := by
  cases fuel with
  | zero => rfl
  | succ fuel => rw [items?, items?, value?_congr h]

theorem members?_congr {cs' : List Char} (h : skip cs = skip cs') :
    members? fuel cs = members? fuel cs' := by
  cases fuel with
  | zero => rfl
  | succ fuel => rw [members?, members?, h]

theorem skip_skip (cs : List Char) : skip (skip cs) = skip cs :=
  List.dropWhile_idempotent isBlank cs

section
variable {v : Json} {vs : List Json} {name : Option String} {ms : List (Option String × Json)}
  {tail more text colon after : List Char}

theorem items?_last (first : value? fuel cs = some (v, tail)) (close : skip tail = ']' :: rest) :
    items? (fuel + 1) cs = some ([v], rest) := by
  rw [items?, first]
  simp [close]

theorem items?_more (first : value? fuel cs = some (v, tail)) (comma : skip tail = ',' :: more)
    (others : items? fuel more = some (vs, rest)) :
    items? (fuel + 1) cs = some (v :: vs, rest) := by
  rw [items?, first]
  simp [comma, others]

theorem members?_last (quote : skip cs = '"' :: text) (hname : string? text = some (name, colon))
    (mark : skip colon = ':' :: after) (first : value? fuel after = some (v, tail))
    (close : skip tail = '}' :: rest) : members? (fuel + 1) cs = some ([(name, v)], rest) := by
  rw [members?, quote]
  simp [hname, mark, first, close]

theorem members?_more (quote : skip cs = '"' :: text) (hname : string? text = some (name, colon))
    (mark : skip colon = ':' :: after) (first : value? fuel after = some (v, tail))
    (comma : skip tail = ',' :: more) (others : members? fuel more = some (ms, rest)) :
    members? (fuel + 1) cs = some ((name, v) :: ms, rest) := by
  rw [members?, quote]
  simp [hname, mark, first, comma, others]

end

/-- A value that is read back at every depth, whatever stands behind it. -/
structure Legible (v : Json) : Prop where
  starts : ∀ depth, ∃ c cs, pretty depth v = c :: cs ∧ isBlank c = false ∧ c ≠ ']'
  reads : ∀ depth fuel rest, Ends rest → (pretty depth v).length ≤ fuel →
    value? fuel (pretty depth v ++ rest) = some (v, rest)

theorem literal_some (s : String) :
    literal (some s) = '"' :: (s.toList.flatMap escape ++ ['"']) := rfl

theorem pretty_text (depth : Nat) (s : String) :
    pretty depth (.text s) = '"' :: (s.toList.flatMap escape ++ ['"']) := by
  have plain (content : Option String) : pretty depth (.string content) = literal content := by
    rw [pretty]
  rw [Json.text, plain, literal_some]

theorem pretty_natural (depth n : Nat) : pretty depth (natural n) = Nat.toDigits 10 n := by
  rw [natural, pretty, Nat.toList_repr]

/-- The bound on the nesting is at least one where something is to be read. -/
theorem exists_fuel {first : Char} {text : List Char} (h : (first :: text).length ≤ fuel) :
    ∃ left, fuel = left + 1 ∧ text.length ≤ left := by
  rw [List.length_cons] at h
  exact ⟨fuel - 1, by omega, by omega⟩

theorem legible_null : Legible .null where
  starts depth := by simp [pretty, isBlank]
  reads := by
    intro depth fuel rest _ h
    simp only [pretty, String.reduceToList] at h ⊢
    obtain ⟨left, rfl, -⟩ := exists_fuel h
    simp [value?, skip, isBlank]

theorem legible_boolean (b : Bool) : Legible (.boolean b) where
  starts depth := by cases b <;> simp [pretty, isBlank]
  reads := by
    intro depth fuel rest _ h
    cases b with
    | false =>
      simp only [pretty, String.reduceToList] at h ⊢
      obtain ⟨left, rfl, -⟩ := exists_fuel h
      simp [value?, skip, isBlank]
    | true =>
      simp only [pretty, String.reduceToList] at h ⊢
      obtain ⟨left, rfl, -⟩ := exists_fuel h
      simp [value?, skip, isBlank]

theorem legible_text (s : String) : Legible (.text s) where
  starts depth := ⟨_, _, pretty_text depth s, by decide, by decide⟩
  reads := by
    intro depth fuel rest _ h
    rw [pretty_text] at h ⊢
    obtain ⟨left, rfl, -⟩ := exists_fuel h
    have body : s.toList.flatMap escape ++ ['"'] ++ rest =
        s.toList.flatMap escape ++ '"' :: rest := by simp
    rw [List.cons_append, body, value?, skip_cons (by decide)]
    simp [string?_literal, Json.text]

theorem legible_natural (n : Nat) : Legible (natural n) := by
  obtain ⟨c, cs, hn, digit, -⟩ := exists_toDigits n
  have code := isDigit_iff.mp digit
  have visible : isBlank c = false := by
    rw [← Bool.not_eq_true]
    intro blank
    simp only [isBlank, Bool.or_eq_true, decide_eq_true_eq] at blank
    rcases blank with ((rfl | rfl) | rfl) | rfl <;> exact absurd digit (by decide)
  constructor
  · intro depth
    refine ⟨c, cs, by rw [pretty_natural, hn], visible, ?_⟩
    rintro rfl
    exact absurd digit (by decide)
  · intro depth fuel rest ends h
    rw [pretty_natural] at h ⊢
    have number := number?_toDigits n ends
    rw [hn] at h number ⊢
    obtain ⟨left, rfl, -⟩ := exists_fuel h
    rw [List.cons_append] at number ⊢
    rw [value?, skip_cons visible]
    split
    case h_7 => exact number
    -- The other values start with no digit.
    all_goals
      rename_i start
      rw [(List.cons.inj start).1] at digit
      exact absurd digit (by decide)

section
variable {v : Json} {vs : List Json} {name : String} {ms : List (String × Json)}

theorem length_newLine_pos (depth : Nat) : 0 < (newLine depth).length := by
  rw [newLine, List.length_cons]
  omega

theorem prettyItems_cons_cons (depth : Nat) (v w : Json) (vs : List Json) :
    prettyItems depth (v :: w :: vs) =
      newLine depth ++ pretty depth v ++ ',' :: prettyItems depth (w :: vs) := by
  rw [prettyItems]
  exact List.cons_ne_nil w vs

theorem prettyItems_start (depth : Nat) (v : Json) (vs : List Json) :
    ∃ tail, prettyItems depth (v :: vs) = newLine depth ++ (pretty depth v ++ tail) := by
  cases vs with
  | nil => exact ⟨[], by rw [prettyItems, List.append_nil]⟩
  | cons w vs => exact ⟨',' :: prettyItems depth (w :: vs), by
    rw [prettyItems_cons_cons, List.append_assoc]⟩

/-- The items of an array are read up to the bracket on the line behind them. -/
theorem items?_pretty (legible : ∀ v ∈ vs, Legible v) (some_item : vs ≠ []) (depth outer : Nat)
    (rest : List Char) (h : (prettyItems depth vs).length ≤ fuel) :
    items? fuel (prettyItems depth vs ++ (newLine outer ++ ']' :: rest)) = some (vs, rest) := by
  induction vs generalizing fuel with
  | nil => exact absurd rfl some_item
  | cons v vs ih =>
    have hv : Legible v := legible v List.mem_cons_self
    have line := length_newLine_pos depth
    cases vs with
    | nil =>
      have text : prettyItems depth [v] = newLine depth ++ pretty depth v := by rw [prettyItems]
      rw [text, List.length_append] at h
      obtain ⟨left, rfl⟩ : ∃ left, fuel = left + 1 := ⟨fuel - 1, by omega⟩
      have first := hv.reads depth left (newLine outer ++ ']' :: rest) (ends_newLine _ _) (by omega)
      rw [← value?_congr (skip_newLine depth _)] at first
      rw [text, List.append_assoc]
      exact items?_last first (by rw [skip_newLine, skip_cons (by decide)])
    | cons w vs =>
      rw [prettyItems_cons_cons, List.length_append, List.length_append, List.length_cons] at h
      obtain ⟨left, rfl⟩ : ∃ left, fuel = left + 1 := ⟨fuel - 1, by omega⟩
      have enough : (prettyItems depth (w :: vs)).length ≤ left := by omega
      have others := ih (fun x hx => legible x (List.mem_cons_of_mem _ hx)) (by simp) enough
      have first := hv.reads depth left
        (',' :: (prettyItems depth (w :: vs) ++ (newLine outer ++ ']' :: rest)))
        (ends_comma _) (by omega)
      rw [← value?_congr (skip_newLine depth _)] at first
      rw [prettyItems_cons_cons, List.append_assoc, List.append_assoc, List.cons_append]
      exact items?_more first (skip_cons (by decide) _) others

theorem legible_array (legible : ∀ v ∈ vs, Legible v) : Legible (.array vs) := by
  cases vs with
  | nil =>
    have text (depth : Nat) : pretty depth (.array []) = ['[', ']'] := by rw [pretty]
    refine ⟨fun depth => ⟨_, _, text depth, by decide, by decide⟩, ?_⟩
    intro depth fuel rest _ h
    rw [text] at h ⊢
    obtain ⟨left, rfl, -⟩ := exists_fuel h
    rw [List.cons_append, value?, skip_cons (by decide)]
    rfl
  | cons v vs =>
    have text (depth : Nat) : pretty depth (.array (v :: vs)) =
        '[' :: (prettyItems (depth + 1) (v :: vs) ++ (newLine depth ++ [']'])) := by
      rw [pretty]
      simp
    refine ⟨fun depth => ⟨_, _, text depth, by decide, by decide⟩, ?_⟩
    intro depth fuel rest _ h
    rw [text] at h ⊢
    obtain ⟨left, rfl, enough⟩ := exists_fuel h
    rw [List.length_append] at enough
    have bound : (prettyItems (depth + 1) (v :: vs)).length ≤ left := by omega
    have items := items?_pretty legible (List.cons_ne_nil v vs) (depth + 1) depth rest bound
    -- The first item keeps the array from being read as an empty one.
    obtain ⟨c, cs, hc, visible, opens⟩ := (legible v List.mem_cons_self).starts (depth + 1)
    obtain ⟨more, hmore⟩ : ∃ more, skip (prettyItems (depth + 1) (v :: vs) ++
        (newLine depth ++ ']' :: rest)) = c :: more := by
      obtain ⟨tail, start⟩ := prettyItems_start (depth + 1) v vs
      rw [start, List.append_assoc, skip_newLine, hc, List.cons_append, List.cons_append,
        skip_cons visible]
      exact ⟨_, rfl⟩
    rw [← items?_congr (skip_skip _), hmore] at items
    have tail : prettyItems (depth + 1) (v :: vs) ++ (newLine depth ++ [']']) ++ rest =
        prettyItems (depth + 1) (v :: vs) ++ (newLine depth ++ ']' :: rest) := by simp
    rw [List.cons_append, tail, value?, skip_cons (by decide)]
    simp only [hmore]
    split
    case h_1 rest' close => exact absurd (List.cons.inj close).1 opens
    case h_2 => rw [items]; rfl

/-- The text of a member with more text behind it, from its name on. -/
theorem member_text (depth : Nat) (name : String) (v : Json) (tail : List Char) :
    newLine depth ++ literal (some name) ++ ':' :: ' ' :: pretty depth v ++ tail =
      newLine depth ++ '"' :: (name.toList.flatMap escape ++
        '"' :: ':' :: ' ' :: (pretty depth v ++ tail)) := by
  simp [literal_some]

theorem prettyMembers_cons_cons (depth : Nat) (name : String) (v : Json)
    (m : Option String × Json) (ms : List (Option String × Json)) :
    prettyMembers depth ((some name, v) :: m :: ms) =
      newLine depth ++ literal (some name) ++ ':' :: ' ' :: pretty depth v ++
        ',' :: prettyMembers depth (m :: ms) := by
  rw [prettyMembers]
  exact List.cons_ne_nil m ms

theorem prettyMembers_start (depth : Nat) (name : String) (v : Json)
    (ms : List (Option String × Json)) : ∃ tail, prettyMembers depth ((some name, v) :: ms) =
      newLine depth ++ '"' :: tail := by
  cases ms with
  | nil =>
    have text := member_text depth name v []
    rw [List.append_nil] at text
    rw [prettyMembers, text]
    exact ⟨_, rfl⟩
  | cons m ms =>
    rw [prettyMembers_cons_cons, member_text]
    exact ⟨_, rfl⟩

/-- The members of an object are read up to the brace on the line behind them. -/
theorem members?_pretty (legible : ∀ m ∈ ms, Legible m.2) (some_member : ms ≠ [])
    (depth outer : Nat) (rest : List Char)
    (h : (prettyMembers depth (ms.map fun m => (some m.1, m.2))).length ≤ fuel) :
    members? fuel (prettyMembers depth (ms.map fun m => (some m.1, m.2)) ++
      (newLine outer ++ '}' :: rest)) = some (ms.map fun m => (some m.1, m.2), rest) := by
  induction ms generalizing fuel with
  | nil => exact absurd rfl some_member
  | cons m ms ih =>
    obtain ⟨name, v⟩ := m
    have hv : Legible v := legible (name, v) List.mem_cons_self
    have line := length_newLine_pos depth
    have space (cs : List Char) : skip (' ' :: cs) = skip cs := List.dropWhile_cons_of_pos rfl
    cases ms with
    | nil =>
      have text : prettyMembers depth [(some name, v)] =
          newLine depth ++ literal (some name) ++ ':' :: ' ' :: pretty depth v := by
        rw [prettyMembers]
      rw [List.map_singleton, text] at h ⊢
      simp only [List.length_append, List.length_cons] at h
      obtain ⟨left, rfl⟩ : ∃ left, fuel = left + 1 := ⟨fuel - 1, by omega⟩
      have first := hv.reads depth left (newLine outer ++ '}' :: rest) (ends_newLine _ _) (by omega)
      rw [← value?_congr (space _)] at first
      rw [member_text]
      exact members?_last (by rw [skip_newLine, skip_cons (by decide)]) (string?_literal name _)
        (skip_cons (by decide) _) first (by rw [skip_newLine, skip_cons (by decide)])
    | cons m ms =>
      simp only [List.map_cons, prettyMembers_cons_cons] at ih h ⊢
      simp only [List.length_append, List.length_cons] at h
      obtain ⟨left, rfl⟩ : ∃ left, fuel = left + 1 := ⟨fuel - 1, by omega⟩
      have enough : (prettyMembers depth
          ((some m.1, m.2) :: ms.map fun m => (some m.1, m.2))).length ≤ left := by omega
      have others := ih (fun x hx => legible x (List.mem_cons_of_mem _ hx)) (by simp) enough
      have first := hv.reads depth left
        (',' :: (prettyMembers depth ((some m.1, m.2) :: ms.map fun m => (some m.1, m.2)) ++
          (newLine outer ++ '}' :: rest))) (ends_comma _) (by omega)
      rw [← value?_congr (space _)] at first
      rw [List.append_assoc, member_text, List.cons_append]
      exact members?_more (by rw [skip_newLine, skip_cons (by decide)]) (string?_literal name _)
        (skip_cons (by decide) _) first (skip_cons (by decide) _) others

theorem legible_record (legible : ∀ m ∈ ms, Legible m.2) : Legible (.record ms) := by
  cases ms with
  | nil =>
    have text (depth : Nat) : pretty depth (.record []) = ['{', '}'] := by
      rw [Json.record, List.map_nil, pretty]
    refine ⟨fun depth => ⟨_, _, text depth, by decide, by decide⟩, ?_⟩
    intro depth fuel rest _ h
    rw [text] at h ⊢
    obtain ⟨left, rfl, -⟩ := exists_fuel h
    rw [List.cons_append, value?, skip_cons (by decide)]
    rfl
  | cons m ms =>
    have text (depth : Nat) : pretty depth (.record (m :: ms)) =
        '{' :: (prettyMembers (depth + 1) ((m :: ms).map fun m => (some m.1, m.2)) ++
          (newLine depth ++ ['}'])) := by
      rw [Json.record, List.map_cons, pretty]
      simp
    refine ⟨fun depth => ⟨_, _, text depth, by decide, by decide⟩, ?_⟩
    intro depth fuel rest _ h
    rw [text] at h ⊢
    obtain ⟨left, rfl, enough⟩ := exists_fuel h
    rw [List.length_append] at enough
    have bound : (prettyMembers (depth + 1) ((m :: ms).map fun m => (some m.1, m.2))).length ≤
        left := by omega
    have members := members?_pretty legible (List.cons_ne_nil m ms) (depth + 1) depth rest bound
    -- The quote before the first name keeps the object from being read as an empty one.
    obtain ⟨more, hmore⟩ : ∃ more,
        skip (prettyMembers (depth + 1) ((m :: ms).map fun m => (some m.1, m.2)) ++
          (newLine depth ++ '}' :: rest)) = '"' :: more := by
      obtain ⟨tail, start⟩ := prettyMembers_start (depth + 1) m.1 m.2
        (ms.map fun m => (some m.1, m.2))
      rw [List.map_cons, start, List.append_assoc, skip_newLine, List.cons_append,
        skip_cons (by decide)]
      exact ⟨_, rfl⟩
    rw [← members?_congr (skip_skip _), hmore] at members
    have tail : prettyMembers (depth + 1) ((m :: ms).map fun m => (some m.1, m.2)) ++
        (newLine depth ++ ['}']) ++ rest =
          prettyMembers (depth + 1) ((m :: ms).map fun m => (some m.1, m.2)) ++
            (newLine depth ++ '}' :: rest) := by simp
    rw [List.cons_append, tail, value?, skip_cons (by decide)]
    simp only [hmore]
    change (members? left ('"' :: more)).map _ = _
    rw [members]
    rfl

end

end JsonReading

namespace Json
open JsonReading

/-- A value whose numbers are natural and whose texts and names hold no lone surrogates. -/
inductive Plain : Json → Prop
  | null : Plain .null
  | boolean (b : Bool) : Plain (.boolean b)
  | natural (n : Nat) : Plain (.natural n)
  | text (s : String) : Plain (.text s)
  | array {vs : List Json} (h : ∀ v ∈ vs, Plain v) : Plain (.array vs)
  | record {ms : List (String × Json)} (h : ∀ m ∈ ms, Plain m.2) : Plain (.record ms)

theorem Plain.legible {v : Json} (h : v.Plain) : Legible v := by
  induction h with
  | null => exact legible_null
  | boolean b => exact legible_boolean b
  | natural n => exact legible_natural n
  | text s => exact legible_text s
  | array _ ih => exact legible_array ih
  | record _ ih => exact legible_record ih

/-- A printed document is read back, also with a line break at its end. -/
theorem Plain.parse?_pretty {v : Json} (h : v.Plain) {rest : List Char}
    (ending : rest = [] ∨ rest = ['\n']) :
    parse? (String.ofList (v.pretty 0 ++ rest)) = some v := by
  have ends : Ends rest := by
    rcases ending with rfl | rfl
    · exact fun c hc => absurd hc (by simp)
    · exact ends_newLine 0 []
  have blank : skip rest = [] := by rcases ending with rfl | rfl <;> rfl
  have read := h.legible.reads 0 (2 * (v.pretty 0 ++ rest).length + 2) rest ends
    (by rw [List.length_append]; omega)
  simp only [parse?, String.toList_ofList]
  rw [read]
  exact if_pos blank

end Json

end FormulaDigest
