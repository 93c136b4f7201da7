import Mathlib.Data.List.Basic
import Mathlib.Data.List.Forall2

/-!
# Comma-separated values

A reader of RFC 4180 texts as a state machine over characters. Rows end with a
carriage return and a newline, or with a bare newline; a field is bare or
quoted, and a quote inside quotes is doubled.
-/
namespace Csv

abbrev Field := List Char

abbrev Row := List Field

/-- The characters that a bare field cannot hold. -/
def special : List Char := [',', '"', '\r', '\n']

inductive Place where
  | fieldStart
  | bare
  | quoted
  /-- After a quote inside quotes: it closes the field or is doubled. -/
  | quoteSeen
  /-- After a carriage return outside quotes. -/
  | returnSeen
  deriving DecidableEq, Repr

structure Reader where
  rows : List Row
  row : Row
  field : Field
  place : Place
  deriving DecidableEq, Repr

namespace Reader

def start : Reader := ⟨[], [], [], .fieldStart⟩

def endField (r : Reader) : Reader := ⟨r.rows, r.row ++ [r.field], [], .fieldStart⟩

def endRow (r : Reader) : Reader := ⟨r.rows ++ [r.row ++ [r.field]], [], [], .fieldStart⟩

def push (r : Reader) (c : Char) (place : Place) : Reader := ⟨r.rows, r.row, r.field ++ [c], place⟩

def separate (r : Reader) (c : Char) : Option Reader :=
  if c = ',' then some r.endField
  else if c = '\n' then some r.endRow
  else if c = '\r' then some { r with place := .returnSeen }
  else none

def step (r : Reader) (c : Char) : Option Reader :=
  match r.place with
  | .fieldStart =>
    if c = '"' then some { r with place := .quoted }
    else if c ∈ special then r.separate c
    else some (r.push c .bare)
  | .bare => if c ∈ special then r.separate c else some (r.push c .bare)
  | .quoted => if c = '"' then some { r with place := .quoteSeen } else some (r.push c .quoted)
  | .quoteSeen => if c = '"' then some (r.push c .quoted) else r.separate c
  | .returnSeen => if c = '\n' then some r.endRow else none

/-- The rows at the end of the text, where the last row end may be missing. -/
def finish (r : Reader) : Option (List Row) :=
  match r.place with
  | .quoted | .returnSeen => none
  | .fieldStart => if r.row = [] then some r.rows else some r.endRow.rows
  | .bare | .quoteSeen => some r.endRow.rows

end Reader

def read (text : List Char) : Option (List Row) := do
  let r ← text.foldlM Reader.step Reader.start
  r.finish

def double (c : Char) : List Char := if c = '"' then ['"', '"'] else [c]

inductive Encodes : List Char → Field → Prop where
  | bare {field : Field} : (∀ c ∈ field, c ∉ special) → Encodes field field
  | quoted (field : Field) : Encodes ('"' :: field.flatMap double ++ ['"']) field

inductive RowEnd : List Char → Prop where
  | newline : RowEnd ['\n']
  | returnNewline : RowEnd ['\r', '\n']

def Place.Ends : Place → Prop
  | .fieldStart | .bare | .quoteSeen => True
  | .quoted | .returnSeen => False

variable {rows : List Row} {row : Row} {field : Field} {place : Place} {text : List Char}

theorem foldlM_bare {more : Field} (hplace : place = .fieldStart ∨ place = .bare) (hbare : ∀ c ∈ more, c ∉ special) :
    ∃ last, last.Ends ∧ more.foldlM Reader.step ⟨rows, row, field, place⟩ = some ⟨rows, row, field ++ more, last⟩ := by
  induction more generalizing field place with
  | nil =>
    refine ⟨place, ?_, by simp⟩
    rcases hplace with rfl | rfl <;> trivial
  | cons c more ih =>
    have hc := hbare c List.mem_cons_self
    have hquote : c ≠ '"' := by
      rintro rfl
      exact hc (by decide)
    have hstep : Reader.step ⟨rows, row, field, place⟩ c = some ⟨rows, row, field ++ [c], .bare⟩ := by
      rcases hplace with rfl | rfl <;> simp [Reader.step, Reader.push, hc, hquote]
    have hmore : ∀ d ∈ more, d ∉ special := fun d hd => hbare d (List.mem_cons_of_mem c hd)
    obtain ⟨last, hlast, hrest⟩ := @ih (field ++ [c]) .bare (.inr rfl) hmore
    refine ⟨last, hlast, ?_⟩
    rw [List.foldlM_cons, hstep, Option.bind_eq_bind, Option.bind_some, hrest, List.append_assoc]
    rfl

/-- Inside quotes every character is one of the field, a doubled quote being a
quote. -/
theorem foldlM_doubled (more : Field) :
    (more.flatMap double).foldlM Reader.step ⟨rows, row, field, .quoted⟩ =
      some ⟨rows, row, field ++ more, .quoted⟩ := by
  induction more generalizing field with
  | nil => simp
  | cons c more ih =>
    have hchar : (double c).foldlM Reader.step ⟨rows, row, field, .quoted⟩ =
        some ⟨rows, row, field ++ [c], .quoted⟩ := by
      by_cases hquote : c = '"'
      · subst hquote
        rfl
      · simp [double, Reader.step, Reader.push, hquote]
    rw [List.flatMap_cons, List.foldlM_append, hchar, Option.bind_eq_bind, Option.bind_some, ih, List.append_assoc]
    rfl

/-- The text of a field is read as the field, in a place where it can end. -/
theorem foldlM_encodes (rows : List Row) (row : Row) (h : Encodes text field) :
    ∃ last, last.Ends ∧ text.foldlM Reader.step ⟨rows, row, [], .fieldStart⟩ = some ⟨rows, row, field, last⟩ := by
  cases h with
  | bare hbare => exact foldlM_bare (.inl rfl) hbare
  | quoted field =>
    refine ⟨.quoteSeen, trivial, ?_⟩
    have hopen : Reader.step ⟨rows, row, [], .fieldStart⟩ '"' = some ⟨rows, row, [], .quoted⟩ := rfl
    rw [List.cons_append, List.foldlM_cons, hopen, Option.bind_eq_bind, Option.bind_some, List.foldlM_append,
      foldlM_doubled]
    rfl

theorem step_separate (hplace : place.Ends) {c : Char} (hc : c ∈ special) (hquote : c ≠ '"') :
    Reader.step ⟨rows, row, field, place⟩ c = Reader.separate ⟨rows, row, field, place⟩ c := by
  cases place with
  | fieldStart => simp [Reader.step, hc, hquote]
  | bare => simp [Reader.step, hc]
  | quoteSeen => simp [Reader.step, hquote]
  | quoted => exact hplace.elim
  | returnSeen => exact hplace.elim

theorem foldlM_rowEnd (hplace : place.Ends) {rowEnd : List Char} (h : RowEnd rowEnd) :
    rowEnd.foldlM Reader.step ⟨rows, row, field, place⟩ = some ⟨rows ++ [row ++ [field]], [], [], .fieldStart⟩ := by
  cases h with
  | newline =>
    rw [List.foldlM_cons, step_separate hplace (by decide) (by decide)]
    rfl
  | returnNewline =>
    rw [List.foldlM_cons, step_separate hplace (by decide) (by decide)]
    rfl

/-- A line is read as one row of its fields. -/
theorem foldlM_line (rows : List Row) (row : Row) {texts : List (List Char)} {fields : Row}
    (h : List.Forall₂ Encodes texts fields) (hne : fields ≠ []) {rowEnd : List Char} (hend : RowEnd rowEnd) :
    ([','].intercalate texts ++ rowEnd).foldlM Reader.step ⟨rows, row, [], .fieldStart⟩ =
      some ⟨rows ++ [row ++ fields], [], [], .fieldStart⟩ := by
  induction h generalizing row with
  | nil => exact absurd rfl hne
  | @cons text field texts fields hfield hrest ih =>
    obtain ⟨last, hlast, hread⟩ := foldlM_encodes rows row hfield
    cases hrest with
    | nil =>
      rw [List.intercalate_singleton, List.foldlM_append, hread, Option.bind_eq_bind, Option.bind_some]
      exact foldlM_rowEnd hlast hend
    | @cons text' field' texts fields hfield' hrest =>
      have hcomma : Reader.step ⟨rows, row, field, last⟩ ',' = some ⟨rows, row ++ [field], [], .fieldStart⟩ := by
        rw [step_separate hlast (by decide) (by decide)]
        rfl
      rw [List.intercalate_cons_cons, List.append_assoc, List.append_assoc, List.foldlM_append, hread,
        Option.bind_eq_bind, Option.bind_some, List.cons_append, List.nil_append, List.foldlM_cons, hcomma,
        Option.bind_eq_bind, Option.bind_some, ih _ (List.cons_ne_nil _ _), List.append_assoc]
      rfl

/-- A table is read back row by row and field by field, whatever its fields
hold. -/
theorem read_lines {α : Type} (items : List α) {texts : α → List (List Char)} {fields : α → Row} {rowEnd : List Char}
    (h : ∀ item ∈ items, List.Forall₂ Encodes (texts item) (fields item)) (hne : ∀ item ∈ items, fields item ≠ [])
    (hend : RowEnd rowEnd) :
    read (items.flatMap fun item => [','].intercalate (texts item) ++ rowEnd) = some (items.map fields) := by
  have hfold : ∀ before : List Row,
      (items.flatMap fun item => [','].intercalate (texts item) ++ rowEnd).foldlM Reader.step
        ⟨before, [], [], .fieldStart⟩ = some ⟨before ++ items.map fields, [], [], .fieldStart⟩ := by
    induction items with
    | nil => intro before; simp
    | cons item items ih =>
      intro before
      have hline := foldlM_line before [] (h item List.mem_cons_self)
        (hne item List.mem_cons_self) hend
      rw [List.flatMap_cons, List.foldlM_append, hline, Option.bind_eq_bind, Option.bind_some,
        ih (fun i hi => h i (List.mem_cons_of_mem item hi)) (fun i hi => hne i (List.mem_cons_of_mem item hi)),
        List.append_assoc]
      rfl
  rw [read, Reader.start, hfold []]
  rfl

end Csv
