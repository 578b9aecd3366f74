import FormulaDigest.CsvReading
import FormulaDigest.Proofs.Utf8Decoding
import FormulaDigest.Report

/-!
# Reading the CSV report back

What is written as CSV reads back field by field, whatever the fields hold, as long as the delimiter
is neither a quote nor a line break. Under a delimiter that a configuration accepts the bytes are
also those of a text, so the report loses none of them.
-/
namespace FormulaDigest

namespace Csv

variable {delimiter b : UInt8} {bytes : List UInt8} {rows : List (List (List UInt8))}
  {fields : List (List UInt8)}

theorem isSpecial_eq_false_iff : isSpecial delimiter b = false ↔
    (b ≠ delimiter ∧ b ≠ lineFeed) ∧ b ≠ quote ∧ b ≠ carriageReturn := by
  simp only [isSpecial, Bool.or_eq_false_iff, decide_eq_false_iff_not]
  tauto

def textBytes (text : String) : List UInt8 := Utf8.encode text.toList

theorem doubleQuotes_cons (b : UInt8) (bytes : List UInt8) :
    doubleQuotes (b :: bytes) =
      (if b = quote then [quote, quote] else [b]) ++ doubleQuotes bytes :=
  List.flatMap_cons

namespace Reader

variable {r : Reader}

theorem run?_cons (delimiter : UInt8) (r : Reader) (b : UInt8) (bytes : List UInt8) :
    r.run? delimiter (b :: bytes) = (r.step? delimiter b).bind (run? delimiter · bytes) :=
  List.foldlM_cons

theorem run?_append (delimiter : UInt8) (r : Reader) (bytes others : List UInt8) :
    r.run? delimiter (bytes ++ others) =
      (r.run? delimiter bytes).bind (run? delimiter · others) :=
  List.foldlM_append

theorem step?_plain (hb : isSpecial delimiter b = false) (hr : r.place = .start ∨ r.place = .bare) :
    r.step? delimiter b = some (r.take b .bare) := by
  obtain ⟨hs, hq, hc⟩ := isSpecial_eq_false_iff.mp hb
  rcases hr with hr | hr <;> simp [step?, hr, hq, stepBare?, hs, hc]

/-- Bytes that are not special are read as they are. -/
theorem run?_plain (hb : bytes.any (isSpecial delimiter) = false)
    (hr : r.place = .start ∨ r.place = .bare) : ∃ place ≠ .quoted,
      r.run? delimiter bytes = some { r with bytes := r.bytes ++ bytes, place } := by
  induction bytes generalizing r with
  | nil =>
    refine ⟨r.place, ?_, by simp [run?]⟩
    rcases hr with hr | hr <;> simp [hr]
  | cons b bytes ih =>
    rw [List.any_cons, Bool.or_eq_false_iff] at hb
    obtain ⟨place, hp, hx⟩ := ih (r := r.take b .bare) hb.2 (.inr rfl)
    refine ⟨place, hp, ?_⟩
    rw [run?_cons, step?_plain hb.1 hr, Option.bind_some, hx]
    simp [take]

/-- Between quotes a doubled quote is read as one quote, and any other byte as it is. -/
theorem run?_doubleQuotes (hr : r.place = .quoted) :
    r.run? delimiter (doubleQuotes bytes) = some { r with bytes := r.bytes ++ bytes } := by
  induction bytes generalizing r with
  | nil => simp [doubleQuotes, run?]
  | cons b bytes ih =>
    have hstep : r.run? delimiter (if b = quote then [quote, quote] else [b]) =
        some (r.take b .quoted) := by
      by_cases hb : b = quote <;> simp [hb, run?, step?, hr, take]
    rw [doubleQuotes_cons, run?_append, hstep, Option.bind_some, ih rfl]
    simp [take, hr]

/-- A written field is read up to the byte behind it, which ends it. -/
theorem run?_field (delimiter : UInt8) (rows : List (List (List UInt8)))
    (fields : List (List UInt8)) (bytes : List UInt8) : ∃ place ≠ .quoted,
      run? delimiter ⟨rows, fields, [], .start⟩ (field delimiter bytes) =
        some ⟨rows, fields, bytes, place⟩ := by
  rw [field]
  cases hb : bytes.any (isSpecial delimiter) with
  | false => exact run?_plain hb (.inl rfl)
  | true =>
    refine ⟨.closed, by simp, ?_⟩
    have hopen : step? delimiter ⟨rows, fields, [], .start⟩ quote =
        some ⟨rows, fields, [], .quoted⟩ := by simp [step?]
    have hclose : run? delimiter ⟨rows, fields, bytes, .quoted⟩ [quote] =
        some ⟨rows, fields, bytes, .closed⟩ := by simp [run?, step?]
    rw [if_pos rfl, List.cons_append, run?_cons, hopen, Option.bind_some, run?_append,
      run?_doubleQuotes rfl, Option.bind_some, List.nil_append, hclose]

theorem step?_separator (hr : r.place ≠ .quoted) (hq : b ≠ quote)
    (hb : b = delimiter ∨ b = lineFeed) : r.step? delimiter b = r.separate? delimiter b := by
  unfold step?
  split <;> simp_all [stepBare?]

theorem step?_delimiter (hr : r.place ≠ .quoted) (hd : delimiter ≠ quote) :
    r.step? delimiter delimiter = some r.endField := by
  rw [step?_separator hr hd (.inl rfl), separate?, if_pos rfl]

theorem step?_lineFeed (hr : r.place ≠ .quoted) (hd : delimiter ≠ lineFeed) :
    r.step? delimiter lineFeed = some r.endRow := by
  rw [step?_separator hr (by decide) (.inr rfl), separate?, if_neg hd.symm, if_pos rfl]

theorem run?_row (hq : delimiter ≠ quote) (hf : delimiter ≠ lineFeed)
    (rows : List (List (List UInt8))) (done : List (List UInt8)) (hne : fields ≠ []) :
    run? delimiter ⟨rows, done, [], .start⟩ (row delimiter fields) =
      some (startRow (rows ++ [done ++ fields])) := by
  -- On the fields that are left; the reader holds the others in `done`.
  induction fields generalizing done with
  | nil => exact absurd rfl hne
  | cons bytes fields ih =>
    obtain ⟨place, hp, hx⟩ := run?_field delimiter rows done bytes
    cases fields with
    | nil =>
      have hrow : row delimiter [bytes] = field delimiter bytes ++ [lineFeed] := by simp [row]
      rw [hrow, run?_append, hx, Option.bind_some, run?_cons, step?_lineFeed hp hf]
      simp [run?, endRow]
    | cons next fields =>
      have hrow : row delimiter (bytes :: next :: fields) =
          field delimiter bytes ++ delimiter :: row delimiter (next :: fields) := by
        simp [row, List.intercalate_cons_cons]
      rw [hrow, run?_append, hx, Option.bind_some, run?_cons, step?_delimiter hp hq,
        Option.bind_some, endField, ih _ (by simp)]
      simp

/-- Written rows are read one after the other. -/
theorem run?_encode (hq : delimiter ≠ quote) (hf : delimiter ≠ lineFeed)
    (done : List (List (List UInt8))) {table : List (List String)}
    (hne : ∀ texts ∈ table, texts ≠ []) :
    run? delimiter (startRow done) (encode delimiter table) =
      some (startRow (done ++ table.map (·.map textBytes))) := by
  induction table generalizing done with
  | nil => simp [run?, encode]
  | cons texts table ih =>
    have hrow : encode delimiter (texts :: table) =
        row delimiter (texts.map textBytes) ++ encode delimiter table := List.flatMap_cons
    have hx : run? delimiter (startRow done) (row delimiter (texts.map textBytes)) =
        some (startRow (done ++ [texts.map textBytes])) :=
      run?_row hq hf done [] (by simpa using hne texts (by simp))
    rw [hrow, run?_append, hx, Option.bind_some, ih _ fun t ht => hne t (by simp [ht])]
    simp

end Reader

theorem read?_encode (hq : delimiter ≠ quote) (hf : delimiter ≠ lineFeed)
    {table : List (List String)} (hne : ∀ texts ∈ table, texts ≠ []) :
    read? delimiter (encode delimiter table) = some (table.map (·.map textBytes)) := by
  rw [read?, Reader.run?_encode hq hf [] hne]
  rfl

section
open Utf8

theorem doubleQuotes_append (bytes others : List UInt8) :
    doubleQuotes (bytes ++ others) = doubleQuotes bytes ++ doubleQuotes others :=
  List.flatMap_append

theorem doubleQuotes_of_notMem (h : quote ∉ bytes) : doubleQuotes bytes = bytes := by
  induction bytes with
  | nil => rfl
  | cons b bytes ih =>
    rw [List.mem_cons, not_or] at h
    rw [doubleQuotes_cons, if_neg (Ne.symm h.1), ih h.2, List.singleton_append]

theorem wellFormed_quote : WellFormed [quote] := ⟨['"'], by decide⟩

theorem wellFormed_lineFeed : WellFormed [lineFeed] := ⟨['\n'], by decide⟩

/-- A quote is never a part of another character, so doubling quotes keeps to the characters. -/
theorem wellFormed_doubleQuotes (cs : List Char) : WellFormed (doubleQuotes (Utf8.encode cs)) := by
  induction cs with
  | nil => exact wellFormed_nil
  | cons c cs ih =>
    rw [encode_cons, doubleQuotes_append]
    refine WellFormed.append ?_ ih
    -- A quote among the bytes of a character is the only one, and the character is a quote.
    by_cases hq : quote ∈ String.utf8EncodeChar c
    · have hc : c.toNat ≤ 127 := by
        by_contra hc
        exact absurd (le_toNat_of_mem_encodeChar (Nat.lt_of_not_le hc) hq) (by decide)
      rw [encodeChar_one rfl hc, List.mem_singleton] at hq
      rw [encodeChar_one rfl hc, ← hq]
      exact wellFormed_quote.append wellFormed_quote
    · rw [doubleQuotes_of_notMem hq]
      exact ⟨[c], by simp [Utf8.encode]⟩

theorem wellFormed_field (delimiter : UInt8) (text : String) :
    WellFormed (field delimiter (textBytes text)) := by
  rw [field]
  split
  · exact (wellFormed_quote.append (wellFormed_doubleQuotes _)).append wellFormed_quote
  · exact ⟨_, rfl⟩

theorem wellFormed_encode (hd : WellFormed [delimiter]) (table : List (List String)) :
    WellFormed (encode delimiter table) := by
  refine WellFormed.flatMap fun texts _ => ?_
  refine WellFormed.append (WellFormed.intercalate hd ?_) wellFormed_lineFeed
  rw [List.map_map]
  intro part hp
  obtain ⟨text, -, rfl⟩ := List.mem_map.mp hp
  exact wellFormed_field delimiter text

end

end Csv

theorem Config.delimiterByte_eq_ok {config : Config} {delimiter : UInt8}
    (ok : config.delimiterByte = .ok delimiter) :
    Utf8.encode config.delimiter.toList = [delimiter] ∧
      delimiter ≠ Csv.quote ∧ delimiter ≠ Csv.lineFeed := by
  unfold delimiterByte at ok
  split at ok
  next byte hb =>
    split at ok
    · simp at ok
    next hne =>
      obtain rfl := Except.ok.inj ok
      rw [not_or, not_or] at hne
      exact ⟨hb, hne.1, hne.2.1⟩
  · simp at ok

namespace Csv

theorem ne_nil_of_mem_table {records : List Record} {texts : List String}
    (h : texts ∈ table records) : texts ≠ [] := by
  rcases List.mem_cons.mp h with rfl | h
  · decide
  · obtain ⟨r, -, rfl⟩ := List.mem_map.mp h
    exact List.cons_ne_nil _ _

/-- Under an accepted delimiter the report is the text of just the bytes that were written, and
reading it gives the row of names and then the fields of every record, byte for byte. -/
theorem render_reads_back {config : Config} {delimiter : UInt8}
    (accepted : config.delimiterByte = .ok delimiter) (records : List Record) :
    (∀ r : Report, r.records = records → r.csv config = .ok (render delimiter records)) ∧
    textBytes (render delimiter records) = encode delimiter (table records) ∧
    read? delimiter (textBytes (render delimiter records)) =
      some (["Sheet", "Address", "Column", "Formula"].map textBytes :: records.map fun r =>
        [textBytes r.sheet, textBytes r.address, textBytes r.column, textBytes r.formula]) := by
  obtain ⟨hd, hq, hf⟩ := Config.delimiterByte_eq_ok accepted
  have hbytes : textBytes (render delimiter records) = encode delimiter (table records) := by
    rw [textBytes, render, String.toList_ofList]
    exact (wellFormed_encode ⟨_, hd⟩ (table records)).encode_decodeLossy
  refine ⟨?_, hbytes, ?_⟩
  · rintro r rfl
    rw [Report.csv, accepted]
    rfl
  · rw [hbytes, read?_encode hq hf fun _ => ne_nil_of_mem_table, table, List.map_cons, List.map_map]
    rfl

/-- The delimiter is a letter of the row of names. -/
def lettered : Config := { delimiter := "e" }

def quoted : Record := ⟨"Été", "A1", "a \"b\"", "1+\r\n2"⟩

theorem render_reads_back_lettered :
    lettered.delimiterByte = .ok 101 ∧
    render 101 [quoted] =
      "\"Sheet\"e\"Address\"eColumneFormula\nÉtéeA1e\"a \"\"b\"\"\"e\"1+\r\n2\"\n" ∧
    read? 101 (textBytes (render 101 [quoted])) =
      some [["Sheet", "Address", "Column", "Formula"].map textBytes,
        ["Été", "A1", "a \"b\"", "1+\r\n2"].map textBytes] := by
  have accepted : lettered.delimiterByte = .ok 101 := by cbv
  have hr : render 101 [quoted] =
    "\"Sheet\"e\"Address\"eColumneFormula\nÉtéeA1e\"a \"\"b\"\"\"e\"1+\r\n2\"\n" := by cbv
  exact ⟨accepted, hr, (render_reads_back accepted [quoted]).2.2⟩

end Csv

end FormulaDigest
