import Ckman.Csv
import Ckman.FidoCredentials

/-!
# The credential list as comma-separated values

`list --csv` prints a header and one line for each credential. The texts in it
are chosen by relying parties.
-/
namespace CredentialsCsv

open Host
open FidoCredentials Csv

def csvField (value : List Char) : List Char :=
  if value.any (· ∈ [',', '"', '\r', '\n']) then
    "\"".toList ++ value.flatMap (fun c => if c = '"' then "\"\"".toList else [c]) ++ "\"".toList
  else value

/-- `println!` of one row. -/
def csvLine (row : CredRow) : List Char :=
  hexText row.credentialId ++ ",".toList ++ csvField row.rpId ++ ",".toList ++ csvField row.userName ++
    ",".toList ++ csvField row.displayName ++ ",".toList ++ hexText row.userId ++ "\n".toList

/-- `println!` of the header. -/
def headerLine : List Char := "credential_id,rp_id,user_name,user_display_name,user_id\n".toList

/-- The output of `list --csv`. -/
def listCsv (rows : List CredRow) : List Char := headerLine ++ rows.flatMap csvLine

def header : Row :=
  ["credential_id".toList, "rp_id".toList, "user_name".toList, "user_display_name".toList, "user_id".toList]

def fields (row : CredRow) : Row :=
  [hexText row.credentialId, row.rpId, row.userName, row.displayName, hexText row.userId]

theorem csvField_encodes (value : List Char) : Encodes (csvField value) value := by
  rw [csvField]
  split
  · exact Encodes.quoted value
  · next hany =>
    apply Encodes.bare
    simpa [special] using hany

theorem hexText_encodes (bytes : Bytes) : Encodes (hexText bytes) (hexText bytes) := by
  apply Encodes.bare
  intro c hc
  obtain ⟨n, hn, rfl⟩ := mem_hexText hc
  interval_cases n <;> decide

theorem hexText_injective {a b : Bytes} (h : hexText a = hexText b) : a = b := by
  have hdecode := hexDecode_hexEncode a
  rw [String.toList_inj.mp h, hexDecode_hexEncode] at hdecode
  exact (Option.some.inj hdecode).symm

theorem fields_injective : Function.Injective fields := by
  intro row other h
  simp only [fields, List.cons.injEq, and_true] at h
  obtain ⟨hid, hrp, hname, hdisplay, huser⟩ := h
  cases row
  cases other
  simp only [CredRow.mk.injEq]
  exact ⟨hrp, hexText_injective hid, hexText_injective huser, hname, hdisplay⟩

def lineTexts (row : CredRow) : List (List Char) :=
  [hexText row.credentialId, csvField row.rpId, csvField row.userName, csvField row.displayName,
    hexText row.userId]

theorem csvLine_eq (row : CredRow) : csvLine row = [','].intercalate (lineTexts row) ++ ['\n'] := by
  simp [csvLine, lineTexts]

theorem lineTexts_encodes (row : CredRow) : List.Forall₂ Encodes (lineTexts row) (fields row) :=
  .cons (hexText_encodes _) (.cons (csvField_encodes _) (.cons (csvField_encodes _) (.cons (csvField_encodes _)
    (.cons (hexText_encodes _) .nil))))

theorem header_bare {name : Field} (hname : name ∈ header) {c : Char} (hc : c ∈ name) : c ∉ special := by
  have hall : header.all fun name => name.all fun c => !special.contains c := by decide
  have hchar := List.all_eq_true.mp (List.all_eq_true.mp hall name hname) c hc
  simpa using hchar

theorem header_encodes : List.Forall₂ Encodes header header :=
  List.forall₂_same.mpr fun _ hname => .bare fun _ hc => header_bare hname hc

theorem headerLine_eq : headerLine = [','].intercalate header ++ ['\n'] := by decide

/-- The lines of the table, each with the row that it stands for. -/
def lines (rows : List CredRow) : List (List (List Char) × Row) :=
  (header, header) :: rows.map fun row => (lineTexts row, fields row)

theorem listCsv_eq (rows : List CredRow) :
    listCsv rows = (lines rows).flatMap fun line => [','].intercalate line.1 ++ ['\n'] := by
  have hrows : rows.flatMap csvLine = rows.flatMap fun row => [','].intercalate (lineTexts row) ++ ['\n'] := by
    rw [funext csvLine_eq]
  rw [listCsv, headerLine_eq, hrows, lines, List.flatMap_cons, List.flatMap_map]

theorem lines_encode {rows : List CredRow} {line : List (List Char) × Row} (h : line ∈ lines rows) :
    List.Forall₂ Encodes line.1 line.2 ∧ line.2 ≠ [] := by
  rcases List.mem_cons.mp h with rfl | h
  · exact ⟨header_encodes, List.cons_ne_nil _ _⟩
  · obtain ⟨row, -, rfl⟩ := List.mem_map.mp h
    exact ⟨lineTexts_encodes row, List.cons_ne_nil _ _⟩

theorem read_listCsv (rows : List CredRow) : read (listCsv rows) = some (header :: rows.map fields) := by
  have hread := read_lines (lines rows) (fun line hline => (lines_encode hline).1)
    (fun line hline => (lines_encode hline).2) .newline
  rw [listCsv_eq, hread, lines, List.map_cons, List.map_map]
  rfl

/-- Whatever the fields of the credentials hold, the printed table is read back
as exactly the rows and fields written, and two lists never print the same
text. -/
theorem listCsv_reads_back :
    (∀ rows : List CredRow, read (listCsv rows) = some (header :: rows.map fields)) ∧
      Function.Injective listCsv := by
  refine ⟨read_listCsv, fun rows others h => ?_⟩
  have hread := read_listCsv rows
  rw [h, read_listCsv others, Option.some.injEq, List.cons.injEq] at hread
  exact (List.map_injective_iff.mpr fields_injective hread.2).symm

example : csvField "a \"b\", c".toList = "\"a \"\"b\"\", c\"".toList := by decide

end CredentialsCsv
