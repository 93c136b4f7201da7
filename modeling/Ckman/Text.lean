import Mathlib.Data.List.Basic
import Mathlib.Data.List.DropRight
import Mathlib.Tactic.Cases

/-!
# Text as lists of characters

UTF-8, splitting, trimming and decimal numbers with the behaviour of the
standard library's `str`. Everything is executable; the lemmas say what each
function returns without unfolding it.
-/
namespace Text

/-- A check of every element of a concrete list, which `decide` can run. -/
theorem forall_mem_of_all {α : Type} {p : α → Prop} [DecidablePred p] {l : List α}
    (h : l.all (fun a => p a) = true) : ∀ a ∈ l, p a :=
  fun a ha => of_decide_eq_true (List.all_eq_true.mp h a ha)

/-- A check of every byte by its number, which `decide` can run. -/
theorem forall_byte {p : UInt8 → Prop} (h : ∀ n < 256, p (UInt8.ofNat n)) (b : UInt8) : p b := by
  have hb := h b.toNat b.toNat_lt
  rwa [UInt8.ofNat_toNat] at hb

def utf8 (cs : List Char) : List UInt8 := cs.flatMap String.utf8EncodeChar

@[simp] theorem utf8_nil : utf8 [] = [] := rfl

@[simp] theorem utf8_cons (c : Char) (cs : List Char) :
    utf8 (c :: cs) = String.utf8EncodeChar c ++ utf8 cs := rfl

@[simp] theorem utf8_append (cs ds : List Char) : utf8 (cs ++ ds) = utf8 cs ++ utf8 ds :=
  List.flatMap_append

/-- The character at the front of a byte string, with the bytes after it. -/
def decodeChar (bytes : List UInt8) : Option (Char × List UInt8) :=
  (bytes.toByteArray.utf8DecodeChar? 0).map fun c => (c, bytes.drop c.utf8Size)

theorem decodeChar_append (c : Char) (bytes : List UInt8) :
    decodeChar (String.utf8EncodeChar c ++ bytes) = some (c, bytes) := by
  have hsize : (String.utf8EncodeChar c).length = c.utf8Size := String.length_utf8EncodeChar c
  rw [decodeChar, List.toByteArray_append, ByteArray.utf8DecodeChar?_utf8EncodeChar_append,
    Option.map_some, ← hsize, List.drop_left]

theorem decodeChar_eq_some {bytes rest : List UInt8} {c : Char}
    (h : decodeChar bytes = some (c, rest)) : bytes = String.utf8EncodeChar c ++ rest := by
  obtain ⟨d, hd, heq⟩ := Option.map_eq_some_iff.mp h
  obtain ⟨rfl, rfl⟩ := Prod.mk.injEq _ _ _ _ ▸ heq
  obtain ⟨tail, ht⟩ := ByteArray.exists_of_utf8DecodeChar?_eq_some hd
  have hb : bytes = String.utf8EncodeChar d ++ tail.data.toList := by
    have := congrArg (fun b : ByteArray => b.data.toList) ht
    simpa using this
  rw [hb]
  congr 1
  rw [← String.length_utf8EncodeChar d, List.drop_left]

/-- One character after the other; every character takes at least one byte. -/
def decodeAll : Nat → List UInt8 → Option (List Char)
  | _, [] => some []
  | 0, _ :: _ => none
  | n + 1, b :: bs =>
    match decodeChar (b :: bs) with
    | some (c, rest) => (decodeAll n rest).map (c :: ·)
    | none => none

/-- `str::from_utf8`. -/
def fromUtf8 (bytes : List UInt8) : Option (List Char) := decodeAll bytes.length bytes

theorem decodeAll_utf8 (cs : List Char) :
    ∀ n, (utf8 cs).length ≤ n → decodeAll n (utf8 cs) = some cs := by
  induction cs with
  | nil =>
    intro n _
    cases n <;> rfl
  | cons c cs ih =>
    intro n hn
    have hpos : 0 < (String.utf8EncodeChar c).length := by
      rw [String.length_utf8EncodeChar]
      exact Char.utf8Size_pos c
    have hlen : (utf8 (c :: cs)).length = (String.utf8EncodeChar c).length + (utf8 cs).length := by
      rw [utf8_cons, List.length_append]
    obtain ⟨b, bs, hb⟩ : ∃ b bs, utf8 (c :: cs) = b :: bs :=
      List.exists_cons_of_length_pos (by omega)
    obtain ⟨n, rfl⟩ : ∃ m, n = m + 1 := ⟨n - 1, by omega⟩
    have hd : decodeChar (b :: bs) = some (c, utf8 cs) := by
      rw [← hb, utf8_cons, decodeChar_append]
    rw [hb, decodeAll]
    simp only [hd, ih n (by omega), Option.map_some]

theorem decodeAll_succ {n : Nat} {b : UInt8} {bs : List UInt8} {cs : List Char}
    (h : decodeAll (n + 1) (b :: bs) = some cs) :
    ∃ c rest ds, decodeChar (b :: bs) = some (c, rest) ∧ decodeAll n rest = some ds ∧
      cs = c :: ds := by
  rw [decodeAll] at h
  cases hc : decodeChar (b :: bs) with
  | none => simp [hc] at h
  | some first =>
    obtain ⟨ds, hds, rfl⟩ := Option.map_eq_some_iff.mp (by simpa only [hc] using h)
    exact ⟨first.1, first.2, ds, rfl, hds, rfl⟩

theorem utf8_of_decodeAll {n : Nat} : ∀ {bytes : List UInt8} {cs : List Char},
    decodeAll n bytes = some cs → bytes = utf8 cs := by
  induction n with
  | zero =>
    intro bytes cs h
    cases bytes with
    | nil =>
      obtain rfl : [] = cs := by simpa [decodeAll] using h
      rfl
    | cons b bs => simp [decodeAll] at h
  | succ n ih =>
    intro bytes cs h
    cases bytes with
    | nil =>
      obtain rfl : [] = cs := by simpa [decodeAll] using h
      rfl
    | cons b bs =>
      obtain ⟨c, rest, ds, hc, hds, rfl⟩ := decodeAll_succ h
      rw [decodeChar_eq_some hc, ih hds, utf8_cons]

/-- Exactly the UTF-8 bytes of a text decode to it. -/
theorem fromUtf8_eq_some_iff {bytes : List UInt8} {cs : List Char} :
    fromUtf8 bytes = some cs ↔ bytes = utf8 cs := by
  constructor
  · exact utf8_of_decodeAll
  · rintro rfl
    exact decodeAll_utf8 cs _ le_rfl

@[simp] theorem fromUtf8_utf8 (cs : List Char) : fromUtf8 (utf8 cs) = some cs :=
  fromUtf8_eq_some_iff.mpr rfl

/-- An ASCII character is one byte, its own code. -/
theorem utf8EncodeChar_of_lt {c : Char} (h : c.toNat < 128) :
    String.utf8EncodeChar c = [c.toUInt8] := by
  have hsize : c.utf8Size = 1 := by
    rw [Char.utf8Size_eq_one_iff, UInt32.le_iff_toNat_le]
    exact Nat.le_of_lt_succ h
  exact String.utf8EncodeChar_eq_singleton hsize

/-- Every byte of any other character is outside ASCII. -/
theorem le_of_mem_utf8EncodeChar {c : Char} (h : 128 ≤ c.toNat) {b : UInt8}
    (hb : b ∈ String.utf8EncodeChar c) : 128 ≤ b.toNat := by
  have hor : ∀ x mark : UInt8, 128 ≤ mark.toNat → 128 ≤ (x ||| mark).toNat := by
    intro x mark hm
    rw [UInt8.toNat_or]
    exact le_trans hm Nat.right_le_or
  have hsize : c.utf8Size ≠ 1 := by
    rw [ne_eq, Char.utf8Size_eq_one_iff, UInt32.le_iff_toNat_le]
    exact Nat.not_le.mpr h
  have hpos := c.utf8Size_pos
  have hmax := c.utf8Size_le_four
  obtain h2 | h3 | h4 : c.utf8Size = 2 ∨ c.utf8Size = 3 ∨ c.utf8Size = 4 := by omega
  · rw [String.utf8EncodeChar_eq_cons_cons h2] at hb
    simp only [List.mem_cons, List.not_mem_nil, or_false] at hb
    rcases hb with rfl | rfl <;> exact hor _ _ (by decide)
  · rw [String.utf8EncodeChar_eq_cons_cons_cons h3] at hb
    simp only [List.mem_cons, List.not_mem_nil, or_false] at hb
    rcases hb with rfl | rfl | rfl <;> exact hor _ _ (by decide)
  · rw [String.utf8EncodeChar_eq_cons_cons_cons_cons h4] at hb
    simp only [List.mem_cons, List.not_mem_nil, or_false] at hb
    rcases hb with rfl | rfl | rfl | rfl <;> exact hor _ _ (by decide)

/-- Only the character itself has the byte of an ASCII character. -/
theorem ne_of_mem_utf8EncodeChar {c d : Char} (hd : d.toNat < 128) (hne : c ≠ d) {b : UInt8}
    (hb : b ∈ String.utf8EncodeChar c) : b ≠ d.toUInt8 := by
  have hcode : ∀ x : Char, x.toNat < 128 → x.toUInt8.toNat = x.toNat := by
    intro x hx
    have : x.toUInt8.toNat = x.toNat % 256 := UInt32.toNat_toUInt8 x.val
    omega
  rintro rfl
  by_cases hlt : c.toNat < 128
  · rw [utf8EncodeChar_of_lt hlt, List.mem_singleton] at hb
    have hn : d.toNat = c.toNat := by rw [← hcode d hd, ← hcode c hlt, hb]
    exact hne (Char.toNat_inj.mp hn.symm)
  · have := le_of_mem_utf8EncodeChar (Nat.le_of_not_lt hlt) hb
    rw [hcode d hd] at this
    omega

/-- The first byte of a character is no continuation byte. -/
theorem head_utf8EncodeChar {c : Char} {b : UInt8} {bs : List UInt8}
    (h : String.utf8EncodeChar c = b :: bs) : b.toNat < 128 ∨ 192 ≤ b.toNat := by
  have hor : ∀ x mark : UInt8, 192 ≤ mark.toNat → 192 ≤ (x ||| mark).toNat := by
    intro x mark hm
    rw [UInt8.toNat_or]
    exact le_trans hm Nat.right_le_or
  have hpos := c.utf8Size_pos
  have hmax := c.utf8Size_le_four
  obtain h1 | h2 | h3 | h4 :
      c.utf8Size = 1 ∨ c.utf8Size = 2 ∨ c.utf8Size = 3 ∨ c.utf8Size = 4 := by omega
  · have hlt : c.toNat < 128 := by
      rw [Char.utf8Size_eq_one_iff, UInt32.le_iff_toNat_le] at h1
      exact Nat.lt_succ_of_le h1
    rw [utf8EncodeChar_of_lt hlt] at h
    obtain ⟨rfl, -⟩ := List.cons.inj h
    have : c.toUInt8.toNat = c.toNat % 256 := UInt32.toNat_toUInt8 c.val
    omega
  · rw [String.utf8EncodeChar_eq_cons_cons h2] at h
    obtain ⟨rfl, -⟩ := List.cons.inj h
    exact .inr (hor _ _ (by decide))
  · rw [String.utf8EncodeChar_eq_cons_cons_cons h3] at h
    obtain ⟨rfl, -⟩ := List.cons.inj h
    exact .inr (hor _ _ (by decide))
  · rw [String.utf8EncodeChar_eq_cons_cons_cons_cons h4] at h
    obtain ⟨rfl, -⟩ := List.cons.inj h
    exact .inr (hor _ _ (by decide))

/-- No continuation byte follows an ASCII byte. -/
theorem not_infix_utf8 {a b : UInt8} (ha : a.toNat < 128) (hb : 128 ≤ b.toNat) (hlead : b.toNat < 192)
    (cs : List Char) : ¬ [a, b] <:+: utf8 cs := by
  induction cs with
  | nil => simp
  | cons c cs ih =>
    rintro ⟨before, after, h⟩
    rw [utf8_cons, List.append_assoc, List.cons_append, List.singleton_append] at h
    rcases List.append_eq_append_iff.mp h with ⟨more, hmore, hrest⟩ | ⟨more, hmore, hrest⟩
    · -- The two bytes begin in the character.
      cases more with
      | nil => exact ih ⟨[], after, by simpa using hrest⟩
      | cons first more =>
        obtain ⟨rfl, hnext⟩ := List.cons.inj hrest
        have hmem : a ∈ String.utf8EncodeChar c := by rw [hmore]; simp
        have hc : c.toNat < 128 := by
          by_contra hc
          have := le_of_mem_utf8EncodeChar (Nat.le_of_not_lt hc) hmem
          omega
        rw [utf8EncodeChar_of_lt hc] at hmore
        have hlen := congrArg List.length hmore
        simp only [List.length_nil, List.length_append, List.length_cons] at hlen
        obtain rfl : more = [] := List.length_eq_zero_iff.mp (by omega)
        replace hnext : b :: after = utf8 cs := hnext
        cases cs with
        | nil => cases hnext
        | cons d ds =>
          rw [utf8_cons] at hnext
          cases hd : String.utf8EncodeChar d with
          | nil =>
            have := String.length_utf8EncodeChar d
            have := d.utf8Size_pos
            rw [hd, List.length_nil] at *
            omega
          | cons x xs =>
            rw [hd] at hnext
            obtain ⟨rfl, -⟩ := List.cons.inj hnext
            have := head_utf8EncodeChar hd
            omega
    · exact ih ⟨more, after, by rw [hrest]; simp⟩

def isContinuation (b : UInt8) : Bool := b &&& 0xc0 = 0x80

/-- The second bytes that may follow the first byte of a three- or four-byte
sequence. -/
def secondFits (first second : UInt8) : Bool :=
  if first = 0xe0 then 0xa0 ≤ second ∧ second ≤ 0xbf
  else if first = 0xed then 0x80 ≤ second ∧ second ≤ 0x9f
  else if first = 0xf0 then 0x90 ≤ second ∧ second ≤ 0xbf
  else if first = 0xf4 then 0x80 ≤ second ∧ second ≤ 0x8f
  else 0x80 ≤ second ∧ second ≤ 0xbf

/-- How many bytes of an ill-formed sequence one replacement character stands
for: the longest start of a well-formed sequence, and at least one byte. -/
def illFormedLength : List UInt8 → Nat
  | first :: second :: rest =>
    if 0xe0 ≤ first ∧ first ≤ 0xf4 ∧ secondFits first second then
      if 0xf0 ≤ first then
        match rest with
        | third :: _ => if isContinuation third then 3 else 2
        | [] => 2
      else 2
    else 1
  | _ => 1

def lossyAll : Nat → List UInt8 → List Char
  | _, [] => []
  | 0, _ :: _ => []
  | n + 1, b :: bs =>
    match decodeChar (b :: bs) with
    | some (c, rest) => c :: lossyAll n rest
    | none => Char.ofNat 0xfffd :: lossyAll n ((b :: bs).drop (illFormedLength (b :: bs)))

/-- `String::from_utf8_lossy`. -/
def fromUtf8Lossy (bytes : List UInt8) : List Char := lossyAll bytes.length bytes

theorem lossyAll_of_decodeAll {n : Nat} : ∀ {bytes : List UInt8} {cs : List Char},
    decodeAll n bytes = some cs → lossyAll n bytes = cs := by
  induction n with
  | zero =>
    intro bytes cs h
    cases bytes with
    | nil => simpa [decodeAll, lossyAll] using h
    | cons b bs => simp [decodeAll] at h
  | succ n ih =>
    intro bytes cs h
    cases bytes with
    | nil => simpa [decodeAll, lossyAll] using h
    | cons b bs =>
      obtain ⟨c, rest, ds, hc, hds, rfl⟩ := decodeAll_succ h
      rw [lossyAll]
      simp only [hc, ih hds]

/-- Nothing is lost of a well-formed text. -/
@[simp] theorem fromUtf8Lossy_utf8 (cs : List Char) : fromUtf8Lossy (utf8 cs) = cs :=
  lossyAll_of_decodeAll (fromUtf8_utf8 cs)

example : fromUtf8Lossy [0x41, 0xe2, 0x82, 0x42, 0xff] =
    ['A', Char.ofNat 0xfffd, 'B', Char.ofNat 0xfffd] := by decide

/-- `str::split_once` at a character. -/
def splitOnce (c : Char) : List Char → Option (List Char × List Char)
  | [] => none
  | d :: ds =>
    if d = c then some ([], ds)
    else (splitOnce c ds).map fun (head, tail) => (d :: head, tail)

theorem splitOnce_eq_some_iff {c : Char} {cs head tail : List Char} :
    splitOnce c cs = some (head, tail) ↔ cs = head ++ c :: tail ∧ c ∉ head := by
  induction cs generalizing head with
  | nil => simp [splitOnce]
  | cons d ds ih =>
    by_cases hd : d = c
    · subst hd
      rw [splitOnce, if_pos rfl]
      cases head with
      | nil => simp [eq_comm]
      | cons e es =>
        simp only [Option.some.injEq, Prod.mk.injEq, List.nil_eq, reduceCtorEq, false_and,
          List.cons_append, List.cons.injEq, List.mem_cons, not_or, false_iff, not_and, not_not]
        rintro ⟨rfl, -⟩ hne
        exact absurd rfl hne
    · rw [splitOnce, if_neg hd]
      cases head with
      | nil =>
        simp only [Option.map_eq_some_iff, Prod.mk.injEq, reduceCtorEq, false_and, and_false,
          exists_false, List.nil_append, List.cons.injEq, false_iff, not_and]
        intro h
        exact absurd h.1 hd
      | cons e es =>
        simp only [Option.map_eq_some_iff, Prod.exists, Prod.mk.injEq, List.cons.injEq,
          List.cons_append, List.mem_cons, not_or]
        constructor
        · rintro ⟨a, b, hab, ⟨rfl, rfl⟩, rfl⟩
          obtain ⟨hds, hc⟩ := ih.mp hab
          exact ⟨⟨rfl, hds⟩, fun h => hd h.symm, hc⟩
        · rintro ⟨⟨rfl, hds⟩, -, hc⟩
          exact ⟨es, tail, ih.mpr ⟨hds, hc⟩, ⟨rfl, rfl⟩, rfl⟩

theorem splitOnce_append {c : Char} {head : List Char} (h : c ∉ head) (tail : List Char) :
    splitOnce c (head ++ c :: tail) = some (head, tail) :=
  splitOnce_eq_some_iff.mpr ⟨rfl, h⟩

theorem splitOnce_eq_none_iff {c : Char} {cs : List Char} : splitOnce c cs = none ↔ c ∉ cs := by
  induction cs with
  | nil => simp [splitOnce]
  | cons d ds ih =>
    by_cases hd : d = c
    · simp [splitOnce, hd]
    · rw [splitOnce, if_neg hd, Option.map_eq_none_iff, ih, List.mem_cons, not_or]
      exact ⟨fun h => ⟨fun hc => hd hc.symm, h⟩, fun h => h.2⟩

/-- The pieces of a split are free of the separator. -/
theorem not_mem_of_mem_splitOn {c : Char} {cs piece : List Char} (h : piece ∈ cs.splitOn c) :
    c ∉ piece := by
  induction cs generalizing piece with
  | nil =>
    rw [List.splitOn_nil, List.mem_singleton] at h
    rw [h]
    exact List.not_mem_nil
  | cons d ds ih =>
    rw [List.splitOn_cons_eq_if_modifyHead] at h
    by_cases hd : (d == c) = true
    · rw [if_pos hd] at h
      rcases List.mem_cons.mp h with rfl | h
      · exact List.not_mem_nil
      · exact ih h
    · rw [if_neg hd] at h
      obtain ⟨first, rest, hs⟩ := List.exists_cons_of_ne_nil (List.splitOn_ne_nil c ds)
      rw [hs] at h ih
      rcases List.mem_cons.mp h with rfl | h
      · rw [List.mem_cons, not_or]
        exact ⟨fun hc => hd (by simp [hc]), ih List.mem_cons_self⟩
      · exact ih (List.mem_cons_of_mem _ h)

/-- A joined list has no elements but those of its parts and its separator. -/
theorem mem_intercalate {α : Type} {separator : List α} {parts : List (List α)} {a : α}
    (h : a ∈ separator.intercalate parts) : a ∈ separator ∨ ∃ part ∈ parts, a ∈ part := by
  induction parts with
  | nil => cases h
  | cons part parts ih =>
    cases parts with
    | nil =>
      rw [List.intercalate_singleton] at h
      exact .inr ⟨part, List.mem_cons_self, h⟩
    | cons next parts =>
      rw [List.intercalate_cons_cons] at h
      simp only [List.mem_append] at h
      rcases h with (h | h) | h
      · exact .inr ⟨part, List.mem_cons_self, h⟩
      · exact .inl h
      · obtain hsep | ⟨other, hother, ha⟩ := ih h
        · exact .inl hsep
        · exact .inr ⟨other, List.mem_cons_of_mem part hother, ha⟩

/-- The Unicode property `White_Space`. -/
def isWhitespace (c : Char) : Bool :=
  (9 ≤ c.toNat ∧ c.toNat ≤ 13) ∨ c.toNat = 0x20 ∨ c.toNat = 0x85 ∨ c.toNat = 0xa0 ∨
    c.toNat = 0x1680 ∨ (0x2000 ≤ c.toNat ∧ c.toNat ≤ 0x200a) ∨ c.toNat = 0x2028 ∨
    c.toNat = 0x2029 ∨ c.toNat = 0x202f ∨ c.toNat = 0x205f ∨ c.toNat = 0x3000

/-- `str::trim`. -/
def trim (cs : List Char) : List Char := (cs.dropWhile isWhitespace).rdropWhile isWhitespace

def EndsVisible (cs : List Char) : Prop := ∀ c ∈ cs.getLast?, ¬ isWhitespace c

/-- Text that neither starts nor ends with white space. -/
def Trimmed (cs : List Char) : Prop := (∀ c ∈ cs.head?, ¬ isWhitespace c) ∧ EndsVisible cs

theorem endsVisible_of_getLast? {cs : List Char} {c : Char} (h : cs.getLast? = some c)
    (hc : ¬ isWhitespace c) : EndsVisible cs := by
  intro d hd
  rw [h, Option.mem_some_iff] at hd
  rwa [← hd]

theorem endsVisible_append_cons (cs : List Char) {c : Char} (hc : ¬ isWhitespace c)
    (ds : List Char) : EndsVisible (cs ++ c :: ds) ↔ EndsVisible ds := by
  rcases List.eq_nil_or_concat ds with rfl | ⟨es, e, rfl⟩
  · simp [EndsVisible, hc]
  · simp [EndsVisible, List.getLast?_append, List.getLast?_cons]

theorem endsVisible_cons_iff {c : Char} {cs : List Char} :
    EndsVisible (c :: cs) ↔ EndsVisible cs ∧ (cs = [] → ¬ isWhitespace c) := by
  rcases List.eq_nil_or_concat cs with rfl | ⟨es, e, rfl⟩
  · simp [EndsVisible]
  · simp [EndsVisible, List.getLast?_cons]

theorem EndsVisible.append {cs ds : List Char} (hc : EndsVisible cs) (hd : EndsVisible ds) :
    EndsVisible (cs ++ ds) := by
  intro c h
  rw [List.getLast?_append, Option.mem_def, Option.or_eq_some_iff] at h
  rcases h with h | ⟨-, h⟩
  · exact hd c h
  · exact hc c h

theorem trim_surrounded {lead body trail : List Char} (hl : ∀ c ∈ lead, isWhitespace c)
    (hb : Trimmed body) (ht : ∀ c ∈ trail, isWhitespace c) :
    trim (lead ++ (body ++ trail)) = body := by
  have hrdrop : (body ++ trail).rdropWhile isWhitespace = body := by
    rw [List.rdropWhile, List.reverse_append,
      List.dropWhile_append_of_pos fun c hc => ht c (List.mem_reverse.mp hc)]
    have hself : body.rdropWhile isWhitespace = body := by
      rw [List.rdropWhile_eq_self_iff]
      intro hne
      exact hb.2 _ (List.getLast_mem_getLast? hne)
    exact hself
  rw [trim, List.dropWhile_append_of_pos hl]
  cases body with
  | nil =>
    have hnil : ([] ++ trail).dropWhile isWhitespace = [] := by
      rw [List.nil_append, List.dropWhile_eq_nil_iff]
      exact ht
    rw [hnil, List.rdropWhile_nil]
  | cons c body =>
    rw [List.cons_append, List.dropWhile_cons_of_neg (hb.1 c rfl), ← List.cons_append, hrdrop]

/-- Every text is its trimmed part between two stretches of white space. -/
theorem exists_trim (cs : List Char) : ∃ lead trail, cs = lead ++ (trim cs ++ trail) ∧
    (∀ c ∈ lead, isWhitespace c) ∧ (∀ c ∈ trail, isWhitespace c) ∧ Trimmed (trim cs) := by
  refine ⟨cs.takeWhile isWhitespace, (cs.dropWhile isWhitespace).rtakeWhile isWhitespace,
    ?_, ?_, ?_, ?_, ?_⟩
  · rw [trim, List.rdropWhile_append_rtakeWhile, List.takeWhile_append_dropWhile]
  · intro c hc
    exact List.mem_takeWhile_imp hc
  · intro c hc
    exact List.mem_rtakeWhile_imp hc
  · intro c hc
    obtain ⟨tail, htail⟩ := List.rdropWhile_prefix isWhitespace (cs.dropWhile isWhitespace)
    have hhead : c ∈ (cs.dropWhile isWhitespace).head? := by
      rw [← htail, List.head?_append]
      simp only [trim] at hc
      rw [hc]
      rfl
    have := List.head?_dropWhile_not isWhitespace cs
    rw [Option.mem_def] at hhead
    rw [hhead] at this
    simpa using this
  · intro c hc
    have hne : (cs.dropWhile isWhitespace).rdropWhile isWhitespace ≠ [] := by
      rintro hnil
      rw [trim, hnil] at hc
      cases hc
    have hlast := List.rdropWhile_last_not isWhitespace _ hne
    rw [trim, List.getLast?_eq_some_getLast hne] at hc
    rwa [Option.mem_some.mp hc] at hlast

/-- One leading plus sign is no part of the digits. -/
def unsigned : List Char → List Char
  | '+' :: rest => rest
  | cs => cs

/-- `parse::<uN>()` of the standard library, where `max` is the largest value
of the type. -/
def parseUnsigned (max : Nat) (cs : List Char) : Option Nat :=
  let digits := unsigned cs
  if digits = [] ∨ ¬ digits.all Char.isDigit then none
  else if Nat.ofDigitChars 10 digits 0 ≤ max then some (Nat.ofDigitChars 10 digits 0)
  else none

def decimal (n : Nat) : List Char := Nat.toDigits 10 n

theorem decimal_ne_nil (n : Nat) : decimal n ≠ [] := Nat.toDigits_ne_nil

theorem isDigit_of_mem_decimal {n : Nat} {c : Char} (h : c ∈ decimal n) : c.isDigit :=
  Nat.isDigit_of_mem_toDigits (by decide) (by decide) h

theorem parseUnsigned_le {max n : Nat} {cs : List Char} (h : parseUnsigned max cs = some n) :
    n ≤ max := by
  simp only [parseUnsigned] at h
  split_ifs at h with hbad hle
  rwa [← Option.some.inj h]

/-- A number that fits its type is read back from its decimal form. -/
theorem parseUnsigned_decimal {max n : Nat} (h : n ≤ max) :
    parseUnsigned max (decimal n) = some n := by
  have hall : (decimal n).all Char.isDigit := by
    rw [List.all_eq_true]
    exact fun c hc => isDigit_of_mem_decimal hc
  have hsign : unsigned (decimal n) = decimal n := by
    cases hd : decimal n with
    | nil => rfl
    | cons c cs =>
      have hc : c.isDigit := isDigit_of_mem_decimal (by rw [hd]; exact List.mem_cons_self)
      have hne : c ≠ '+' := by
        rintro rfl
        exact absurd hc (by decide)
      simp [unsigned, hne]
  have hvalue : Nat.ofDigitChars 10 (decimal n) 0 = n := Nat.ofDigitChars_ten_toDigits
  simp only [parseUnsigned, hsign]
  rw [if_neg (by simp [decimal_ne_nil, hall]), hvalue, if_pos h]

end Text
