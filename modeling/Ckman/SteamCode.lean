import Ckman.BigEndian
import Ckman.Host

/-!
# Steam codes

`steam_code` formats a calculation in the alphabet of Steam. The device answers
with a whole HMAC or with its dynamic truncation; both give the same code.
-/
namespace Oath

open Host

/-- The result of a calculation, `canokey::oath::Code`. -/
inductive Code where
  | truncated (bytes : Bytes)
  | full (bytes : Bytes)
  /-- A marker of the device in place of a code. -/
  | marker
  deriving DecidableEq, Repr

structure Calculation where
  code : Code
  /-- What `Calculation::decimal` returns. -/
  decimal : Option Bytes
  deriving DecidableEq, Repr

def steamChars : List Char := "23456789BCDFGHJKMNPQRTVWXY".toList

/-- `bytes.get(first..last)`. -/
def slice (bytes : Bytes) (first last : Nat) : Option Bytes :=
  if first ≤ last ∧ last ≤ bytes.length then some ((bytes.take last).drop first) else none

/-- `u32::from_be_bytes(bytes.try_into().ok()?)`. -/
def wordOf (bytes : Bytes) : Option UInt32 :=
  if bytes.length = 4 then some (UInt32.ofNat (BigEndian.decode bytes)) else none

/-- The number that `steam_code` formats. -/
def steamValue : Code → Option UInt32
  | .truncated bytes => wordOf bytes
  | .full bytes => do
    let last ← bytes.getLast?
    let offset := (last &&& 0x0f).toNat
    let word ← wordOf (← slice bytes offset (offset + 4))
    pure (word &&& 0x7fffffff)
  | .marker => none

/-- The `for` loop. A missing result is the panic of an index that is not in
the alphabet. -/
def steamLoop : Nat → UInt32 → List Char → Option (List Char)
  | 0, _, output => some output
  | n + 1, code, output => do
    let char ← steamChars[code.toNat % steamChars.length]?
    steamLoop n (code / UInt32.ofNat steamChars.length) (output ++ [char])

/-- Format a calculation as a five-character Steam code. The outer option is
missing at a panic, the inner one at a response that is not accepted. -/
def steamCode (calculation : Calculation) : Option (Option (List Char)) :=
  match steamValue calculation.code with
  | none => some none
  | some code => (steamLoop 5 code []).map some

@[simp] theorem steamChars_length : steamChars.length = 26 := by decide

def steamDigit (value : Nat) : Char :=
  steamChars.get ⟨value % 26, steamChars_length ▸ Nat.mod_lt value (by decide)⟩

theorem steamDigit_mem (value : Nat) : steamDigit value ∈ steamChars := List.get_mem _ _

def steamText (n value : Nat) : List Char := (List.range n).map fun i => steamDigit (value / 26 ^ i)

theorem steamLoop_eq (n : Nat) (code : UInt32) (output : List Char) :
    steamLoop n code output = some (output ++ steamText n code.toNat) := by
  induction n generalizing code output with
  | zero => simp [steamLoop, steamText]
  | succ n ih =>
    have hchar : steamChars[code.toNat % steamChars.length]? = some (steamDigit code.toNat) := by
      rw [steamChars_length]
      exact List.getElem?_eq_getElem _
    have hrest : (code / UInt32.ofNat steamChars.length).toNat = code.toNat / 26 := by
      rw [UInt32.toNat_div, steamChars_length]
      rfl
    rw [steamLoop, hchar, Option.bind_eq_bind, Option.bind_some, ih, hrest, steamText, steamText,
      List.range_succ_eq_map, List.map_cons, List.map_map, List.append_assoc, List.singleton_append]
    simp only [pow_zero, Nat.div_one, Function.comp_def, Nat.div_div_eq_div_mul, Nat.pow_succ,
      Nat.mul_comm]

/-- The code is the digits of the value, and the loop never leaves the alphabet. -/
theorem steamCode_eq (calculation : Calculation) :
    steamCode calculation =
      some ((steamValue calculation.code).map fun code => steamText 5 code.toNat) := by
  rw [steamCode]
  cases steamValue calculation.code with
  | none => rfl
  | some code =>
    dsimp only
    rw [steamLoop_eq, List.nil_append]
    rfl

/-- The truncated response for an HMAC: four bytes at the offset in its last
nibble, without the sign bit. -/
def dynamicTruncation (hmac : Bytes) : Bytes :=
  let offset := (hmac.getLast?.getD 0 &&& 0x0f).toNat
  [hmac.getD offset 0 &&& 0x7f, hmac.getD (offset + 1) 0, hmac.getD (offset + 2) 0,
    hmac.getD (offset + 3) 0]

theorem nibble_lt (b : UInt8) : (b &&& 0x0f).toNat < 16 := by
  rw [UInt8.toNat_and]
  exact Nat.lt_of_le_of_lt Nat.and_le_right (by decide)

theorem slice_four {bytes : Bytes} {offset : Nat} (h : offset + 4 ≤ bytes.length) :
    slice bytes offset (offset + 4) = some [bytes.getD offset 0, bytes.getD (offset + 1) 0,
      bytes.getD (offset + 2) 0, bytes.getD (offset + 3) 0] := by
  have hget : ∀ i, i < 4 → bytes[offset + i]? = some (bytes.getD (offset + i) 0) := by
    intro i hi
    rw [List.getD_eq_getElem?_getD, List.getElem?_eq_getElem (by omega), Option.getD_some]
  rw [slice, if_pos ⟨Nat.le_add_right offset 4, h⟩, Option.some.injEq]
  refine List.ext_getElem? fun i => ?_
  rw [List.getElem?_drop, List.getElem?_take]
  match i with
  | 0 => rw [if_pos (by omega), hget 0 (by omega)]; rfl
  | 1 => rw [if_pos (by omega), hget 1 (by omega)]; rfl
  | 2 => rw [if_pos (by omega), hget 2 (by omega)]; rfl
  | 3 => rw [if_pos (by omega), hget 3 (by omega)]; rfl
  | i + 4 =>
    rw [if_neg (by omega)]
    rfl

theorem wordOf_four (a b c d : UInt8) :
    wordOf [a, b, c, d] = some (UInt32.ofNat (BigEndian.decode [a, b, c, d])) := rfl

/-- Masking the word is masking its first byte. -/
theorem word_mask (a b c d : UInt8) :
    UInt32.ofNat (BigEndian.decode [a, b, c, d]) &&& 0x7fffffff =
      UInt32.ofNat (BigEndian.decode [a &&& 0x7f, b, c, d]) := by
  have ha := a.toNat_lt
  have hb := b.toNat_lt
  have hc := c.toNat_lt
  have hd := d.toNat_lt
  have hbyte : (a &&& 0x7f).toNat = a.toNat % 2 ^ 7 := by
    rw [UInt8.toNat_and]
    exact Nat.and_two_pow_sub_one_eq_mod a.toNat 7
  have hmask : ∀ x : Nat, x &&& 0x7fffffff = x % 2 ^ 31 := fun x => Nat.and_two_pow_sub_one_eq_mod x 31
  apply UInt32.toNat_inj.mp
  rw [UInt32.toNat_and, UInt32.toNat_ofNat', UInt32.toNat_ofNat']
  change _ &&& 0x7fffffff = _
  rw [hmask]
  simp only [BigEndian.decode, List.length_cons, List.length_nil, hbyte]
  omega

/-- A whole response is accepted if its four bytes are within it. -/
theorem steamValue_full (hmac : Bytes) :
    steamValue (.full hmac) =
      if hmac ≠ [] ∧ (hmac.getLast?.getD 0 &&& 0x0f).toNat + 4 ≤ hmac.length then
        wordOf (dynamicTruncation hmac)
      else none := by
  cases hlast : hmac.getLast? with
  | none =>
    rw [List.getLast?_eq_none_iff] at hlast
    subst hlast
    rfl
  | some last =>
    have hne : hmac ≠ [] := by
      rintro rfl
      cases hlast
    rw [steamValue, dynamicTruncation, hlast]
    simp only [Option.bind_eq_bind, Option.bind_some, Option.getD_some]
    split
    · rename_i hfits
      rw [slice_four hfits.2, Option.bind_some, wordOf_four, wordOf_four, Option.bind_some, word_mask]
      rfl
    · rename_i hfits
      have hshort : ¬ (last &&& 0x0f).toNat + 4 ≤ hmac.length := fun h => hfits ⟨hne, h⟩
      rw [slice, if_neg fun h => hshort h.2, Option.bind_none]

/-- The largest offset is within every HMAC of 20 bytes. -/
theorem steamValue_full_of_length {hmac : Bytes} (h : 20 ≤ hmac.length) :
    steamValue (.full hmac) = steamValue (.truncated (dynamicTruncation hmac)) := by
  have hnibble := nibble_lt (hmac.getLast?.getD 0)
  have hne : hmac ≠ [] := by
    rintro rfl
    simp at h
  rw [steamValue_full, if_pos ⟨hne, by omega⟩]
  rfl

def truncation : Code → Bytes
  | .truncated bytes => bytes
  | .full hmac => dynamicTruncation hmac
  | .marker => []

theorem wordOf_toNat {bytes : Bytes} {word : UInt32} (h : wordOf bytes = some word) :
    word.toNat = BigEndian.decode bytes := by
  rw [wordOf] at h
  split at h
  · rename_i hlength
    have hlt := BigEndian.decode_lt bytes
    rw [hlength] at hlt
    rw [← Option.some.inj h, UInt32.toNat_ofNat_of_lt' hlt]
  · cases h

theorem steamValue_toNat {code : Code} {value : UInt32} (h : steamValue code = some value) :
    value.toNat = BigEndian.decode (truncation code) := by
  cases code with
  | truncated bytes => exact wordOf_toNat h
  | full hmac =>
    rw [steamValue_full] at h
    split at h
    · exact wordOf_toNat h
    · cases h
  | marker => cases h

/-- `steam_code` gives the same code for an HMAC and its truncation; it formats
the five base-26 digits of an accepted response in the Steam alphabet, and
reads within every response. -/
theorem steamCode_formats :
    (∀ hmac decimal decimal', 20 ≤ hmac.length →
      ∃ text, steamCode ⟨.full hmac, decimal⟩ = some (some text) ∧
        steamCode ⟨.truncated (dynamicTruncation hmac), decimal'⟩ = some (some text)) ∧
    (∀ calculation text, steamCode calculation = some (some text) →
      text.length = 5 ∧ (∀ char ∈ text, char ∈ steamChars) ∧
        text = steamText 5 (BigEndian.decode (truncation calculation.code))) ∧
    (∀ calculation, steamCode calculation ≠ none) ∧
    ∀ hmac decimal, (steamCode ⟨.full hmac, decimal⟩ = some none ↔
      hmac.length < (hmac.getLast?.getD 0 &&& 0x0f).toNat + 4) := by
  refine ⟨?_, ?_, ?_, ?_⟩
  · intro hmac decimal decimal' h
    have hword : steamValue (.truncated (dynamicTruncation hmac)) =
        some (UInt32.ofNat (BigEndian.decode (dynamicTruncation hmac))) := wordOf_four _ _ _ _
    refine ⟨steamText 5 (UInt32.ofNat (BigEndian.decode (dynamicTruncation hmac))).toNat, ?_, ?_⟩
    · rw [steamCode_eq, steamValue_full_of_length h, hword, Option.map_some]
    · rw [steamCode_eq, hword, Option.map_some]
  · intro calculation text htext
    rw [steamCode_eq, Option.some.injEq, Option.map_eq_some_iff] at htext
    obtain ⟨value, hvalue, rfl⟩ := htext
    refine ⟨?_, ?_, by rw [steamValue_toNat hvalue]⟩
    · rw [steamText, List.length_map, List.length_range]
    · intro char hchar
      obtain ⟨i, -, rfl⟩ := List.mem_map.mp hchar
      exact steamDigit_mem _
  · intro calculation
    rw [steamCode_eq]
    exact Option.some_ne_none _
  · intro hmac decimal
    rw [steamCode_eq, steamValue_full, Option.some.injEq, Option.map_eq_none_iff]
    split
    · rename_i hfits
      simp only [wordOf, dynamicTruncation, List.length_cons, List.length_nil, if_true, reduceCtorEq,
        false_iff]
      omega
    · rename_i hfits
      simp only [true_iff]
      by_cases hne : hmac = []
      · subst hne
        decide
      · exact Nat.lt_of_not_le fun h => hfits ⟨hne, h⟩

/-- An HMAC of 20 bytes with its four bytes at offset 10. -/
theorem steamCode_formats_twenty :
    ∃ text, steamCode ⟨.full [0x1f, 0x86, 0x98, 0x69, 0x0e, 0x02, 0xca, 0x16, 0x61, 0x85, 0x50, 0xef,
        0x7f, 0x19, 0xda, 0x8e, 0x94, 0x5b, 0x55, 0x5a], none⟩ = some (some text) ∧
      steamCode ⟨.truncated [0x50, 0xef, 0x7f, 0x19], none⟩ = some (some text) :=
  steamCode_formats.1 [0x1f, 0x86, 0x98, 0x69, 0x0e, 0x02, 0xca, 0x16, 0x61, 0x85, 0x50, 0xef, 0x7f,
    0x19, 0xda, 0x8e, 0x94, 0x5b, 0x55, 0x5a] none none (by decide)

end Oath
