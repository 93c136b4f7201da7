import Ckman.Host
import Ckman.Text
import Mathlib.Data.List.Dedup

/-!
# Resident credentials

`list` prints shortened credential identifiers, and `delete` and `update-user`
look a credential up by a hexadecimal prefix of its identifier.
-/
namespace FidoCredentials

open Host
open Text

structure CredRow where
  rpId : List Char
  credentialId : Bytes
  userId : Bytes
  userName : List Char
  displayName : List Char
  deriving DecidableEq, Repr

structure UserEntity where
  id : Bytes
  name : Option (List Char)
  displayName : Option (List Char)
  deriving DecidableEq, Repr

def hexText (bytes : Bytes) : List Char := (hexEncode bytes).toList

/-- `row.credential_id.get(..len).unwrap_or(&row.credential_id)`. -/
def CredRow.shortId (len : Nat) (row : CredRow) : Bytes :=
  if len ≤ row.credentialId.length then row.credentialId.take len else row.credentialId

/-- The set of the shortened identifiers is smaller than the list. -/
def crowded (rows : List CredRow) (len : Nat) : Bool :=
  (rows.map (CredRow.shortId len)).dedup.length < rows.length

def lengthen (rows : List CredRow) (len : Nat) : Nat :=
  if len < 64 ∧ crowded rows len then lengthen rows (len + 1) else len
termination_by 64 - len

def prefixLen (rows : List CredRow) : Nat := lengthen rows 4

/-- The first column of the row of a credential. -/
def printedId (rows : List CredRow) (row : CredRow) : List Char :=
  hexText (row.shortId (prefixLen rows)) ++ "...".toList

/-- `{:<width$}`. -/
def padded (width : Nat) (text : List Char) : List Char :=
  text ++ List.replicate (width - text.length) ' '

/-- The lines that `list` prints without `--csv`. -/
def listLines (rows : List CredRow) : List (List Char) :=
  let widthId := max (prefixLen rows + 3) 13
  let widthRp := max ((rows.map fun row => (utf8 row.rpId).length).foldl max 0) 5
  (padded widthId "Credential ID".toList ++ "  ".toList ++ padded widthRp "RP ID".toList ++
      "  Username  Display name".toList) ::
    rows.map fun row =>
      printedId rows row ++ "  ".toList ++ padded widthRp row.rpId ++ "  ".toList ++ row.userName ++
        "  ".toList ++ row.displayName

/-- `input.strip_suffix("...").unwrap_or(input)`. -/
def stripDots (input : List Char) : List Char :=
  if "...".toList <:+ input then input.take (input.length - 3) else input

def isAsciiHexdigit (byte : UInt8) : Bool := (hexValue byte).isSome

/-- `Char.toLower` changes ASCII letters only. -/
def credentialQuery (input : List Char) : Except String (List Char) :=
  let query := stripDots input
  if query = [] ∨ ¬ (utf8 query).all isAsciiHexdigit then
    .error "credential ID must be a nonempty hexadecimal prefix (optionally ending in ...)"
  else .ok (query.map Char.toLower)

def hits (rows : List CredRow) (query : List Char) : List CredRow :=
  rows.filter fun row => query <+: hexText row.credentialId

def onlyHit (rows : List CredRow) (query : List Char) : Except String CredRow :=
  match hits rows query with
  | [row] => .ok row
  | [] => .error "no matching credential"
  | _ => .error "multiple matches; be more specific"

section Commands

variable (rows : List CredRow) (confirm : List Char → Except String Bool)

/-- The user is asked unless the command is forced. -/
def agreed (force : Bool) (prompt : List Char) : Except String Bool :=
  if force then .ok true else confirm prompt

/-- `delete`, up to the credential that the authenticator is told to remove. -/
def delete (credentialId : List Char) (force : Bool) : Except String Bytes := do
  let query ← credentialQuery credentialId
  let row ← onlyHit rows query
  let answer ← agreed confirm force
    ("Delete credential for ".toList ++ row.rpId ++ " (".toList ++ row.userName ++ ")?".toList)
  if ¬ answer then .error "deletion aborted"
  else pure row.credentialId

/-- A text that is set, or the one the row has unless it is empty. -/
def orKept (given : Option (List Char)) (kept : List Char) : Option (List Char) :=
  given.or (if kept = [] then none else some kept)

/-- `update-user`, up to the credential and the user entity that the
authenticator is given. -/
def updateUser (credentialId : List Char) (username displayName : Option (List Char)) (force : Bool) :
    Except String (Bytes × UserEntity) := do
  let query ← credentialQuery credentialId
  let row ← onlyHit rows query
  let user : UserEntity :=
    ⟨row.userId, orKept username row.userName, orKept displayName row.displayName⟩
  let answer ← agreed confirm force
    ("Rename credential for ".toList ++ row.rpId ++ " to ".toList ++ user.name.getD [] ++ " (".toList ++
      user.displayName.getD [] ++ ")?".toList)
  if ¬ answer then .error "rename aborted"
  else pure (row.credentialId, user)

end Commands

theorem hexText_eq (bytes : Bytes) :
    hexText bytes = bytes.flatMap fun b => [hexDigit (b.toNat / 16), hexDigit (b.toNat % 16)] := by
  rw [hexText, hexEncode, String.toList_ofList]

theorem hexText_cons (b : UInt8) (bytes : Bytes) :
    hexText (b :: bytes) = hexDigit (b.toNat / 16) :: hexDigit (b.toNat % 16) :: hexText bytes := by
  rw [hexText_eq, hexText_eq, List.flatMap_cons]
  rfl

theorem hexText_append (front back : Bytes) : hexText (front ++ back) = hexText front ++ hexText back := by
  simp only [hexText_eq, List.flatMap_append]

/-- Digits are compared in pairs, so a prefix of the text is one of the bytes. -/
theorem hexText_prefix_iff {front whole : Bytes} : hexText front <+: hexText whole ↔ front <+: whole := by
  constructor
  · intro h
    induction front generalizing whole with
    | nil => exact List.nil_prefix
    | cons b front ih =>
      rw [hexText_cons] at h
      cases whole with
      | nil => exact absurd h (by simp [hexText_eq])
      | cons c whole =>
        rw [hexText_cons, List.cons_prefix_cons, List.cons_prefix_cons] at h
        obtain ⟨hhigh, hlow, hrest⟩ := h
        have hbyte : b = c := by
          have hb := fromStrRadix16_digits b
          rw [hhigh, hlow, fromStrRadix16_digits] at hb
          exact (Option.some.inj hb).symm
        rw [hbyte, List.cons_prefix_cons]
        exact ⟨rfl, ih hrest⟩
  · rintro ⟨back, rfl⟩
    rw [hexText_append]
    exact List.prefix_append _ _

/-- A digit of the printed text. -/
theorem hexDigit_lower {n : Nat} (h : n < 16) :
    (hexDigit n).toLower = hexDigit n ∧ isAsciiHexdigit (hexDigit n).toUInt8 = true := by
  interval_cases n <;> decide

theorem mem_hexText {bytes : Bytes} {c : Char} (h : c ∈ hexText bytes) :
    ∃ n, n < 16 ∧ c = hexDigit n := by
  rw [hexText_eq, List.mem_flatMap] at h
  obtain ⟨b, -, hc⟩ := h
  have hb := b.toNat_lt
  rcases List.mem_pair.mp hc with rfl | rfl
  · exact ⟨_, by omega, rfl⟩
  · exact ⟨_, by omega, rfl⟩

theorem map_toLower_hexText (bytes : Bytes) : (hexText bytes).map Char.toLower = hexText bytes := by
  rw [List.map_congr_left (g := id), List.map_id]
  intro c hc
  obtain ⟨n, hn, rfl⟩ := mem_hexText hc
  exact (hexDigit_lower hn).1

theorem utf8_hexText (bytes : Bytes) : (utf8 (hexText bytes)).all isAsciiHexdigit = true := by
  have hascii : utf8 (hexText bytes) = (hexText bytes).map Char.toUInt8 := by
    rw [← asBytes_ascii]
    · exact (asBytes_ofList _).symm
    · intro c hc
      obtain ⟨n, -, rfl⟩ := mem_hexText hc
      exact hexDigit_ascii n
  rw [hascii, List.all_map, List.all_eq_true]
  intro c hc
  obtain ⟨n, hn, rfl⟩ := mem_hexText hc
  exact (hexDigit_lower hn).2

theorem ne_space_of_mem_printedId {rows : List CredRow} {row : CredRow} {c : Char}
    (h : c ∈ printedId rows row) : c ≠ ' ' := by
  rw [printedId, List.mem_append] at h
  rcases h with hdigit | hdot
  · obtain ⟨n, hn, rfl⟩ := mem_hexText hdigit
    interval_cases n <;> decide
  · obtain rfl : c = '.' := by simpa using hdot
    decide

/-- The first words of the lines below the heading are the printed identifiers. -/
theorem listLines_firstWords (rows : List CredRow) :
    (listLines rows).tail.map (List.takeWhile (· ≠ ' ')) = rows.map (printedId rows) := by
  rw [listLines, List.tail_cons, List.map_map]
  refine List.map_congr_left fun row _ => ?_
  simp only [Function.comp_apply, List.append_assoc]
  rw [List.takeWhile_append_of_pos fun c hc => decide_eq_true (ne_space_of_mem_printedId hc)]
  exact List.append_nil _

/-- A printed identifier is read as its digits, unless there are none. -/
theorem credentialQuery_dots (bytes : Bytes) :
    credentialQuery (hexText bytes ++ "...".toList) =
      if bytes = [] then
        .error "credential ID must be a nonempty hexadecimal prefix (optionally ending in ...)"
      else .ok (hexText bytes) := by
  have hstrip : stripDots (hexText bytes ++ "...".toList) = hexText bytes := by
    rw [stripDots, if_pos (List.suffix_append _ _), List.length_append]
    exact List.take_left' (by simp)
  have hempty : hexText bytes = [] ↔ bytes = [] := by
    cases bytes with
    | nil => exact iff_of_true rfl rfl
    | cons b bytes =>
      rw [hexText_cons]
      exact iff_of_false (List.cons_ne_nil _ _) (List.cons_ne_nil _ _)
  simp only [credentialQuery, hstrip, hempty, utf8_hexText, not_true_eq_false, or_false,
    map_toLower_hexText]

section Shortened

variable {rows : List CredRow} {row other : CredRow} {len : Nat}

theorem shortId_eq (len : Nat) (row : CredRow) : row.shortId len = row.credentialId.take len := by
  rw [CredRow.shortId]
  split
  · rfl
  · rename_i hshort
    exact (List.take_of_length_le (by omega)).symm

theorem crowded_eq_false_iff : crowded rows len = false ↔ (rows.map (CredRow.shortId len)).Nodup := by
  have hle := (List.dedup_sublist (rows.map (CredRow.shortId len))).length_le
  rw [List.length_map] at hle
  rw [crowded, decide_eq_false_iff_not, not_lt, ← List.dedup_eq_self]
  constructor
  · intro h
    exact (List.dedup_sublist _).eq_of_length_le (by rw [List.length_map]; exact h)
  · intro h
    rw [h, List.length_map]

theorem le_lengthen (rows : List CredRow) (len : Nat) : len ≤ lengthen rows len := by
  fun_induction lengthen rows len with
  | case1 len hturn ih => omega
  | case2 len hstop => exact Nat.le_refl len

/-- The loop ends at the limit or at the first length that tells all the
identifiers apart. -/
theorem lengthen_ends (h : len ≤ 64) :
    lengthen rows len = 64 ∨
      lengthen rows len < 64 ∧ (rows.map (CredRow.shortId (lengthen rows len))).Nodup := by
  fun_induction lengthen rows len with
  | case1 len hturn ih => exact ih (by omega)
  | case2 len hstop =>
    by_cases hlimit : len < 64
    · right
      rw [not_and, Bool.not_eq_true] at hstop
      exact ⟨hlimit, crowded_eq_false_iff.mp (hstop hlimit)⟩
    · left
      omega

/-- Distinct shortened identifiers are prefixes of one another only where the
identifiers are. -/
theorem shortId_prefix_iff (hrow : row ∈ rows) (hother : other ∈ rows) (hne : other ≠ row) :
    row.shortId (prefixLen rows) <+: other.credentialId ↔
      row.credentialId.take 64 <+: other.credentialId := by
  have hends := @lengthen_ends rows 4 (by decide)
  rw [prefixLen]
  rcases hends with hlimit | ⟨hshort, hnodup⟩
  · rw [hlimit, shortId_eq]
  · generalize lengthen rows 4 = len at hshort hnodup
    rw [shortId_eq]
    constructor
    · intro h
      by_cases hlong : len ≤ row.credentialId.length
      · have hsame : other.shortId len = row.shortId len := by
          have htake := List.prefix_iff_eq_take.mp h
          rw [List.length_take_of_le hlong] at htake
          rw [shortId_eq, shortId_eq, htake]
        exact absurd (List.inj_on_of_nodup_map hnodup hother hrow hsame) hne
      · rw [List.take_of_length_le (by omega)] at h ⊢
        exact h
    · intro h
      have hfront : row.credentialId.take len <+: row.credentialId.take 64 :=
        List.take_prefix_take_left (by omega)
      exact hfront.trans h

end Shortened

section Hit

variable {rows : List CredRow} {row : CredRow}

theorem onlyHit_eq_ok_iff {query : List Char} : onlyHit rows query = .ok row ↔ hits rows query = [row] := by
  rw [onlyHit]
  constructor
  · intro h
    split at h
    · rename_i only honly
      cases h
      exact honly
    · cases h
    · cases h
  · intro h
    rw [h]

/-- The hits are one row exactly if it matches and no other one does. -/
theorem hits_eq_singleton_iff {query : List Char} (hnodup : rows.Nodup) (hrow : row ∈ rows) :
    hits rows query = [row] ↔
      query <+: hexText row.credentialId ∧
        ∀ other ∈ rows, other ≠ row → ¬ query <+: hexText other.credentialId := by
  have hmem : ∀ other, other ∈ hits rows query ↔ other ∈ rows ∧ query <+: hexText other.credentialId := by
    intro other
    rw [hits, List.mem_filter, decide_eq_true_iff]
  constructor
  · intro h
    simp only [h, List.mem_singleton] at hmem
    exact ⟨((hmem row).mp rfl).2, fun other hother hne hquery => hne ((hmem other).mpr ⟨hother, hquery⟩)⟩
  · rintro ⟨hquery, hnone⟩
    have hperm : (hits rows query).Perm [row] := by
      have hhits : (hits rows query).Nodup := hnodup.filter _
      rw [List.perm_ext_iff_of_nodup hhits (List.nodup_singleton row)]
      intro other
      rw [hmem, List.mem_singleton]
      constructor
      · rintro ⟨hother, hmatch⟩
        by_contra hne
        exact hnone other hother hne hmatch
      · rintro rfl
        exact ⟨hrow, hquery⟩
    exact List.perm_singleton.mp hperm

def selected (rows : List CredRow) (credentialId : List Char) : Except String CredRow := do
  onlyHit rows (← credentialQuery credentialId)

theorem selected_printedId (rows : List CredRow) (row other : CredRow) :
    selected rows (printedId rows row) = .ok other ↔
      row.shortId (prefixLen rows) ≠ [] ∧ hits rows (hexText (row.shortId (prefixLen rows))) = [other] := by
  rw [selected, printedId, credentialQuery_dots]
  split
  · rename_i hempty
    constructor
    · intro h
      cases h
    · rintro ⟨hne, -⟩
      exact absurd hempty hne
  · rename_i hne
    rw [Except.ok_bind, onlyHit_eq_ok_iff]
    exact (and_iff_right hne).symm

/-- A printed identifier matches its own credential. -/
theorem shortId_begins (len : Nat) (row : CredRow) : row.shortId len <+: row.credentialId := by
  rw [shortId_eq]
  exact List.take_prefix _ _

/-- Whatever the list, a printed identifier never selects another credential. -/
theorem selected_printedId_sound {other : CredRow} (hrow : row ∈ rows)
    (h : selected rows (printedId rows row) = .ok other) : other = row := by
  obtain ⟨-, hhits⟩ := (selected_printedId rows row other).mp h
  have hmem : row ∈ hits rows (hexText (row.shortId (prefixLen rows))) := by
    rw [hits, List.mem_filter, decide_eq_true_iff, hexText_prefix_iff]
    exact ⟨hrow, shortId_begins _ row⟩
  rw [hhits, List.mem_singleton] at hmem
  exact hmem.symm

/-- No other identifier begins with this one, or with the first 64 bytes of it. -/
def Apart (rows : List CredRow) (row : CredRow) : Prop :=
  row.credentialId ≠ [] ∧
    ∀ other ∈ rows, other ≠ row → ¬ row.credentialId.take 64 <+: other.credentialId

theorem selected_printedId_iff (hdistinct : (rows.map CredRow.credentialId).Nodup) (hrow : row ∈ rows) :
    selected rows (printedId rows row) = .ok row ↔ Apart rows row := by
  have hempty : row.shortId (prefixLen rows) ≠ [] ↔ row.credentialId ≠ [] := by
    have hlen : 4 ≤ prefixLen rows := le_lengthen rows 4
    rw [shortId_eq, Ne, List.take_eq_nil_iff]
    constructor
    · intro h hnil
      exact h (.inr hnil)
    · rintro h (hzero | hnil)
      · omega
      · exact h hnil
  have hmatch : hexText (row.shortId (prefixLen rows)) <+: hexText row.credentialId :=
    hexText_prefix_iff.mpr (shortId_begins _ row)
  rw [selected_printedId, hempty, hits_eq_singleton_iff (.of_map _ hdistinct) hrow]
  refine and_congr_right fun _ => ?_
  rw [and_iff_right hmatch]
  refine forall₃_congr fun other hother hne => not_congr ?_
  rw [hexText_prefix_iff, shortId_prefix_iff hrow hother hne]

end Hit

section Targets

variable {rows : List CredRow} {confirm : List Char → Except String Bool} {force : Bool}

theorem agreed_eq_ok (h : force = true ∨ ∀ prompt, confirm prompt = .ok true) (prompt : List Char) :
    agreed confirm force prompt = .ok true := by
  rcases h with rfl | hyes
  · rfl
  · rw [agreed, hyes]
    exact ite_self _

theorem delete_agreed (h : force = true ∨ ∀ prompt, confirm prompt = .ok true)
    (credentialId : List Char) :
    delete rows confirm credentialId force = (selected rows credentialId).map CredRow.credentialId := by
  rw [delete, selected]
  cases credentialQuery credentialId with
  | error text => rfl
  | ok query =>
    simp only [Except.ok_bind]
    cases onlyHit rows query with
    | error text => rfl
    | ok row =>
      simp only [Except.ok_bind, agreed_eq_ok h]
      rfl

theorem updateUser_agreed (h : force = true ∨ ∀ prompt, confirm prompt = .ok true) (credentialId : List Char)
    (username displayName : Option (List Char)) :
    updateUser rows confirm credentialId username displayName force =
      (selected rows credentialId).map fun row =>
        (row.credentialId,
          ⟨row.userId, orKept username row.userName, orKept displayName row.displayName⟩) := by
  rw [updateUser, selected]
  cases credentialQuery credentialId with
  | error text => rfl
  | ok query =>
    simp only [Except.ok_bind]
    cases onlyHit rows query with
    | error text => rfl
    | ok row =>
      simp only [Except.ok_bind, agreed_eq_ok h]
      rfl

/-- The identifier that stands first in the line that `list` prints for a credential
selects it, and with it `delete` and `update-user` reach it, exactly if its identifier
is not empty and the first 64 bytes of it do not begin the identifier of another
credential. The loop of `list` only tells the shortened identifiers apart. -/
theorem printedId_selects_iff (rows : List CredRow)
    (hdistinct : (rows.map CredRow.credentialId).Nodup) (row : CredRow) (hrow : row ∈ rows)
    (confirm : List Char → Except String Bool) (force : Bool)
    (hagreed : force = true ∨ ∀ prompt, confirm prompt = .ok true)
    (username displayName : Option (List Char)) :
    printedId rows row ∈ (listLines rows).tail.map (List.takeWhile (· ≠ ' ')) ∧
    (selected rows (printedId rows row) = .ok row ↔ Apart rows row) ∧
    (delete rows confirm (printedId rows row) force = .ok row.credentialId ↔ Apart rows row) ∧
    ((∃ user, updateUser rows confirm (printedId rows row) username displayName force =
        .ok (row.credentialId, user)) ↔ Apart rows row) := by
  rw [← selected_printedId_iff hdistinct hrow, delete_agreed hagreed, updateUser_agreed hagreed,
    listLines_firstWords]
  refine ⟨List.mem_map_of_mem hrow, Iff.rfl, ?_, ?_⟩
  · constructor
    · intro h
      cases hsel : selected rows (printedId rows row) with
      | error text =>
        rw [hsel] at h
        cases h
      | ok other => rw [selected_printedId_sound hrow hsel]
    · intro h
      rw [h]
      rfl
  · constructor
    · rintro ⟨user, h⟩
      cases hsel : selected rows (printedId rows row) with
      | error text =>
        rw [hsel] at h
        cases h
      | ok other => rw [selected_printedId_sound hrow hsel]
    · intro h
      rw [h]
      exact ⟨_, rfl⟩

end Targets

def sixteen : CredRow := ⟨"example.com".toList, List.replicate 16 7, [1], "alice".toList, []⟩

def seventeen : CredRow := ⟨"example.com".toList, List.replicate 17 7, [2], "bob".toList, []⟩

/-- The longer identifier is reached by what is printed for it. -/
theorem printedId_selects_iff_seventeen :
    selected [sixteen, seventeen] (printedId [sixteen, seventeen] seventeen) = .ok seventeen :=
  (printedId_selects_iff [sixteen, seventeen] (by decide) seventeen (by decide)
    (fun _ => .ok false) true (.inl rfl) none none).2.1.mpr ⟨by decide, by decide⟩

/-- The shorter one is not. -/
theorem printedId_ambiguous :
    ¬ ∀ rows : List CredRow, (rows.map CredRow.credentialId).Nodup → ∀ row ∈ rows,
      selected rows (printedId rows row) = .ok row := by
  intro h
  have hsixteen := h [sixteen, seventeen] (by decide) sixteen (by decide)
  have hmany : selected [sixteen, seventeen] (printedId [sixteen, seventeen] sixteen) =
      .error "multiple matches; be more specific" := by
    decide +kernel
  rw [hmany] at hsixteen
  cases hsixteen

end FidoCredentials
