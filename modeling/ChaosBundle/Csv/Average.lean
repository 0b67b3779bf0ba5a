import ChaosBundle.Csv.Quotient
import ChaosBundle.Library.TextLines

/-! `csvaverage.sh`: three nested loops over the rows, the files and the columns. -/
namespace ChaosBundle.Csv
open Bc Numerals ShellWords TextLines

section Script

/-- `head -1` without its newline. -/
def firstLine (csv : List Char) : List Char := (lines csv).headD []

/-- `head -$row ${csv[$cs]} |tail -1` -/
def rowLine (csv : List Char) (row : Nat) : List Char := ((lines csv).take row).getLast?.getD []

/-- `echo $line`: the words of the line with single blanks. -/
def echoLine (line : List Char) : List Char := [' '].intercalate (fields line)

/-- `cut -d ',' -f $((col+1))` prints a line without a comma whole. -/
def cutField (line : List Char) (col : Nat) : List Char :=
  if ',' ∈ line then (line.splitOn ',').getD col [] else line

def readField (csv : List Char) (row col : Nat) : List Char :=
  sedExponent (cutField (echoLine (rowLine csv row)) col)

/-- The values of one row after the loop over the files. -/
def rowValues (csv : List (List Char)) (row : Nat) : Nat → List Char :=
  csv.foldl (fun val file col => addField (readField file row col) (val col)) fun _ => ['0']

def averageLine (csv : List (List Char)) (nelems row : Nat) : List Char :=
  sedPoint ([','].intercalate ((List.range (nelems + 1)).map fun col =>
    averageField csv.length (rowValues csv row col)))

/-- The text of `average.csv`; without arguments the script stops. -/
def csvaverage (csv : List (List Char)) : Option (List Char) :=
  match csv with
  | [] => none
  | first :: _ =>
    let nelems := (firstLine first).count ','
    let nlines := first.count '\n'
    some (unlines (firstLine first ::
      (List.range' 2 (nlines - 1)).map fun row => averageLine csv nelems row))

example : csvaverage ["a,b\n-1.5,1e+2\n".toList,"c,d\n2,-.5\n".toList] =
    some "a,b\n.250,49.750\n".toList := by decide

end Script

/-- A file of `k + 1` columns and `m` rows below its header. -/
structure CsvFile (k m : Nat) where
  header : List Char
  cell : Fin m → Fin (k + 1) → Cell
  header_line : '\n' ∉ header
  header_columns : header.count ',' = k

namespace CsvFile
variable {k m : Nat}

def row (f : CsvFile k m) (r : Fin m) : List Char := [','].intercalate (List.ofFn fun c => (f.cell r c).text)

def text (f : CsvFile k m) : List Char := unlines (f.header :: List.ofFn f.row)

end CsvFile

section Average
variable {k m : Nat}

def mean (files : List (CsvFile k m)) (r : Fin m) (c : Fin (k + 1)) : ℚ :=
  (files.map fun f => (f.cell r c).value).sum / files.length

/-- The mean when the numbers with an exponent below zero count as zero. -/
def bcMean (files : List (CsvFile k m)) (r : Fin m) (c : Fin (k + 1)) : ℚ :=
  (files.map fun f => (f.cell r c).bcValue).sum / files.length

/-- The header, and a row of numerals of the truncated means for each row. -/
def Averages (files : List (CsvFile k m)) (header out : List Char) : Prop :=
  ∃ rows : Fin m → List Char, out = unlines (header :: List.ofFn rows) ∧
    ∀ r, '\n' ∉ rows r ∧ ∃ fs : Fin (k + 1) → List Char, (rows r).splitOn ',' = List.ofFn fs ∧
      ∀ c, readNumeral (fs c) = some (truncate 3 (mean files r c))

def isCellChar (c : Char) : Bool := isNumeralChar c || c == '+' || c == 'e' || c == 'E'

private theorem Exponent.text_chars {e : Exponent} {c : Char} (hc : c ∈ e.text) : isCellChar c := by
  rcases List.mem_cons.mp hc with hmark | hc
  · rw [hmark]
    rcases e.mark_eq with hmark | hmark <;> rw [hmark] <;> rfl
  rcases List.mem_append.mp hc with hsign | hdigit
  · cases hsign' : e.sign with
    | absent => simp [hsign', Sign.text] at hsign
    | plus =>
      rw [hsign'] at hsign
      rw [List.mem_singleton.mp hsign]
      rfl
    | minus =>
      rw [hsign'] at hsign
      rw [List.mem_singleton.mp hsign]
      rfl
  · simp [isCellChar, isNumeralChar, e.all_digits c hdigit]

theorem Cell.text_chars {cell : Cell} {c : Char} (hc : c ∈ cell.text) : isCellChar c := by
  unfold text at hc
  rcases List.mem_append.mp hc with hmantissa | hexponent
  · simp [isCellChar, signed_chars hmantissa]
  · cases hsome : cell.exponent with
    | none => simp [hsome] at hexponent
    | some e =>
      rw [hsome] at hexponent
      exact Exponent.text_chars hexponent

private theorem Cell.text_ne_nil (cell : Cell) : cell.text ≠ [] := by
  simp [Cell.text, cell.mantissa.text_ne_nil]

namespace CsvFile
variable (f : CsvFile k m) (r : Fin m)

theorem splitOn_row : (f.row r).splitOn ',' = List.ofFn fun c => (f.cell r c).text := by
  apply List.splitOn_intercalate
  · simp only [List.forall_mem_ofFn_iff]
    exact fun c hc => nomatch Cell.text_chars hc
  · simp

theorem notMem_row {c : Char} (h : (isCellChar c || c == ',') = false) : c ∉ f.row r := by
  obtain ⟨hcell,hcomma⟩ := Bool.or_eq_false_iff.mp h
  rw [row, mem_intercalate (by simpa using hcomma)]
  rintro ⟨field,hfield,hc⟩
  obtain ⟨i,rfl⟩ := List.mem_ofFn.mp hfield
  have hchar := Cell.text_chars hc
  rw [hcell] at hchar
  cases hchar

private theorem row_ne_nil : f.row r ≠ [] := by
  intro hnil
  have hsplit := f.splitOn_row r
  rw [hnil, List.splitOn_nil] at hsplit
  have hmem : (f.cell r 0).text ∈ List.ofFn fun c => (f.cell r c).text := List.mem_ofFn.mpr ⟨0,rfl⟩
  rw [← hsplit, List.mem_singleton] at hmem
  exact Cell.text_ne_nil _ hmem

theorem newline_notMem : ∀ l ∈ f.header :: List.ofFn f.row, '\n' ∉ l := by
  rw [List.forall_mem_cons, List.forall_mem_ofFn_iff]
  exact ⟨f.header_line,fun r => f.notMem_row r rfl⟩

theorem lines_text : lines f.text = f.header :: List.ofFn f.row := lines_unlines f.newline_notMem

theorem count_text : f.text.count '\n' = m + 1 := by
  rw [text, count_unlines f.newline_notMem]
  simp

private theorem rowLine_text : rowLine f.text (r + 2) = f.row r := by
  rw [rowLine, lines_text, List.getLast?_take, if_neg (by omega)]
  simp

private theorem echoLine_row : echoLine (f.row r) = f.row r := by
  have hifs : ∀ c ∈ f.row r, isIfs c = false := by
    intro c hc
    by_contra hsep
    simp only [isIfs, Bool.not_eq_false, Bool.or_eq_true, decide_eq_true_eq] at hsep
    rcases hsep with (rfl | rfl) | rfl <;> exact f.notMem_row r rfl hc
  rw [echoLine, fields_eq (f.row_ne_nil r) hifs, List.intercalate_singleton]

private theorem cutField_row (c : Fin (k + 1)) : cutField (f.row r) c = (f.cell r c).text := by
  have hsplit := f.splitOn_row r
  unfold cutField
  split_ifs with hcomma
  · rw [hsplit, List.getD_eq_getElem?_getD, List.getElem?_ofFn, dif_pos c.isLt, Option.getD_some]
  · rw [List.splitOn_eq_singleton hcomma] at hsplit
    have hmem : (f.cell r c).text ∈ List.ofFn fun c => (f.cell r c).text := List.mem_ofFn.mpr ⟨c,rfl⟩
    rw [← hsplit, List.mem_singleton] at hmem
    exact hmem.symm

theorem readField_text (c : Fin (k + 1)) :
    readField f.text (r + 2) c = sedExponent (f.cell r c).text := by
  rw [readField, rowLine_text, echoLine_row, cutField_row]

end CsvFile

end Average

end ChaosBundle.Csv
