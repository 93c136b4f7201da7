import Ckman.Host

/-!
# Hexadecimal arguments

The decoder that the PIV and OATH commands share cuts a text into two-byte
slices and hands each to the integer parser of the standard library.
-/
namespace Hexadecimal

open Host Text

/-- `str::is_char_boundary`. -/
def isCharBoundary (text : Bytes) (index : Nat) : Bool :=
  match text[index]? with
  | none => index = text.length
  | some byte => index = 0 || !isContinuation byte

/-- `str::get` of a range. -/
def get (text : Bytes) (start stop : Nat) : Option Bytes :=
  if start ≤ stop ∧ isCharBoundary text start ∧ isCharBoundary text stop then
    some ((text.drop start).take (stop - start))
  else none

/-- `checked_mul(16)` and `checked_add` of one digit in `u8`. -/
def pushDigit (result : UInt8) (byte : UInt8) : Option UInt8 := do
  let digit ← hexValue byte
  if 16 * result.toNat + digit.toNat < 256 then some (16 * result + digit) else none

/-- `u8::from_str_radix(_, 16)`: one leading plus sign is allowed, a lone sign
is not, and a minus sign is no digit. -/
def fromStrRadix : Bytes → Option UInt8
  | [] => none
  | [byte] => if byte = 43 ∨ byte = 45 then none else pushDigit 0 byte
  | byte :: rest =>
    if byte = 43 then rest.foldlM pushDigit 0 else (byte :: rest).foldlM pushDigit 0

def hexDecode (text : String) : Option Bytes :=
  let bytes := asBytes text
  if bytes.length % 2 ≠ 0 then none
  else
    -- `(0..text.len()).step_by(2)`
    (List.range' 0 ((bytes.length + 1) / 2) 2).mapM fun index => do
      fromStrRadix (← get bytes index (index + 2))

/-- A digit is an ASCII byte. -/
theorem hexValue_bounds {byte digit : UInt8} (h : hexValue byte = some digit) :
    digit.toNat < 16 ∧ byte.toNat < 128 := by
  have hsub {first : UInt8} (hfirst : first ≤ byte) : (byte - first).toNat = byte.toNat - first.toNat :=
    UInt8.toNat_sub_of_le _ _ hfirst
  rw [hexValue] at h
  split_ifs at h with hdecimal hlower hupper
  · obtain rfl := Option.some.inj h
    rw [hsub hdecimal.1]
    simp only [UInt8.le_iff_toNat_le, UInt8.reduceToNat] at hdecimal ⊢
    omega
  · obtain rfl := Option.some.inj h
    rw [hsub (UInt8.le_trans (by decide) hlower.1)]
    simp only [UInt8.le_iff_toNat_le, UInt8.reduceToNat] at hlower ⊢
    omega
  · obtain rfl := Option.some.inj h
    rw [hsub (UInt8.le_trans (by decide) hupper.1)]
    simp only [UInt8.le_iff_toNat_le, UInt8.reduceToNat] at hupper ⊢
    omega

theorem hexValue_lt {byte digit : UInt8} (h : hexValue byte = some digit) : digit.toNat < 16 :=
  (hexValue_bounds h).1

theorem hexValue_continuation {byte : UInt8} (h : isContinuation byte = true) : hexValue byte = none := by
  have hhigh : (byte &&& 0xc0).toNat ≤ byte.toNat := by
    rw [UInt8.toNat_and]
    exact Nat.and_le_left
  rw [of_decide_eq_true h] at hhigh
  cases hvalue : hexValue byte with
  | none => rfl
  | some digit => exact absurd (hexValue_bounds hvalue).2 (Nat.not_lt.mpr hhigh)

theorem pushDigit_zero (byte : UInt8) : pushDigit 0 byte = hexValue byte := by
  cases h : hexValue byte with
  | none => simp [pushDigit, h]
  | some digit =>
    have := hexValue_lt h
    simp [pushDigit, h]
    omega

/-- Two digits never overflow. -/
theorem pushDigit_small {high : UInt8} (h : high.toNat < 16) (byte : UInt8) :
    pushDigit high byte = (hexValue byte).map (16 * high + ·) := by
  cases hlow : hexValue byte with
  | none => simp [pushDigit, hlow]
  | some digit =>
    have := hexValue_lt hlow
    simp only [pushDigit, hlow, Option.bind_eq_bind, Option.bind_some, Option.map_some]
    exact if_pos (by omega)

theorem fromStrRadix_pair (hi lo : UInt8) : fromStrRadix [hi, lo] = fromStrRadix16 hi lo := by
  by_cases hsign : hi = 43
  · simp [fromStrRadix, fromStrRadix16, hsign, pushDigit_zero]
  · simp only [fromStrRadix, fromStrRadix16, hsign, if_false, List.foldlM_cons, List.foldlM_nil,
      pushDigit_zero]
    cases hhigh : hexValue hi with
    | none => rfl
    | some high =>
      simp only [Option.bind_eq_bind, Option.bind_some, pushDigit_small (hexValue_lt hhigh)]
      cases hexValue lo <;> rfl

/-- A pair that begins inside a character is no number. -/
theorem hexPairs_continuation {byte : UInt8} (h : isContinuation byte = true) (rest : Bytes) :
    hexPairs (byte :: rest) = none := by
  cases rest with
  | nil => rfl
  | cons lo rest =>
    have hsign : byte ≠ 43 := by
      rintro rfl
      exact absurd h (by decide)
    simp [hexPairs, fromStrRadix16, hsign, hexValue_continuation h]

theorem isCharBoundary_append {front rest : Bytes} (h : isCharBoundary (front ++ rest) front.length = false) :
    hexPairs rest = none := by
  cases rest with
  | nil => simp [isCharBoundary] at h
  | cons byte rest =>
    simp only [isCharBoundary, List.getElem?_append_right (Nat.le_refl _), Nat.sub_self, List.getElem?_cons_zero,
      Bool.or_eq_false_iff, Bool.not_eq_false'] at h
    exact hexPairs_continuation h.2 rest

/-- The slices from one index on are the pairs of what is left; where a slice
is refused for a character boundary, the pairs are refused as well. -/
theorem mapM_slices (front rest : Bytes) (heven : rest.length % 2 = 0) :
    ((List.range' front.length (rest.length / 2) 2).mapM fun index => do
      fromStrRadix (← get (front ++ rest) index (index + 2))) = hexPairs rest := by
  induction rest using hexPairs.induct generalizing front with
  | case1 => rfl
  | case2 byte => simp at heven
  | case3 hi lo rest ih =>
    have hlen : (hi :: lo :: rest).length / 2 = rest.length / 2 + 1 := by
      simp only [List.length_cons]
      omega
    have htail := ih (front ++ [hi, lo]) (by simp only [List.length_cons] at heven; omega)
    rw [List.append_assoc, List.length_append] at htail
    simp only [List.length_cons, List.length_nil, List.cons_append, List.nil_append] at htail
    rw [hlen, List.range'_succ, List.mapM_cons, htail]
    cases hstart : isCharBoundary (front ++ hi :: lo :: rest) front.length with
    | false => simp [get, hstart, isCharBoundary_append hstart]
    | true =>
      cases hstop : isCharBoundary (front ++ hi :: lo :: rest) (front.length + 2) with
      | false =>
        have hnone : hexPairs rest = none :=
          @isCharBoundary_append (front ++ [hi, lo]) rest (by simpa using hstop)
        simp [get, hstart, hstop, hexPairs, hnone]
      | true => simp [get, hstart, hstop, hexPairs, fromStrRadix_pair]

theorem hexPairs_odd {bytes : Bytes} (h : bytes.length % 2 = 1) : hexPairs bytes = none := by
  induction bytes using hexPairs.induct with
  | case1 => simp at h
  | case2 byte => rfl
  | case3 hi lo rest ih =>
    rw [hexPairs, ih (by simp only [List.length_cons] at h; omega)]
    simp

theorem hexDecode_eq (text : String) : hexDecode text = Host.hexDecode text := by
  by_cases heven : (asBytes text).length % 2 = 0
  · have hslices := mapM_slices [] (asBytes text) heven
    have hcount : ((asBytes text).length + 1) / 2 = (asBytes text).length / 2 := by omega
    rw [hexDecode, Host.hexDecode, ← hslices, hcount]
    simp [heven]
  · rw [hexDecode, Host.hexDecode, if_pos heven, hexPairs_odd (by omega)]

/-- The characters of `char::is_ascii_hexdigit`. -/
def hexDigits : List Char := "0123456789abcdefABCDEF".toList

def IsHexText (text : String) : Prop :=
  text.toList.length % 2 = 0 ∧ ∀ c ∈ text.toList, c ∈ hexDigits

/-- Pairs of a hexadecimal digit or a plus sign and a hexadecimal digit. -/
def signedPairs : List Char → Bool
  | [] => true
  | [_] => false
  | hi :: lo :: rest => (hi ∈ hexDigits || hi = '+') && lo ∈ hexDigits && signedPairs rest

/-- A text in which a plus sign stands for the first digit of a byte. -/
def Signed (text : String) : Prop := signedPairs text.toList = true ∧ '+' ∈ text.toList

/-- The decoder accepts a text exactly when it is hexadecimal, and the bytes
print back as the text in lower case. -/
def ReadsAsHex (text : String) : Prop :=
  ((hexDecode text).isSome ↔ IsHexText text) ∧
    ∀ bytes, hexDecode text = some bytes → (hexEncode bytes).toList = text.toList.map Char.toLower

instance (text : String) : Decidable (IsHexText text) := inferInstanceAs (Decidable (_ ∧ _))

theorem hexDigits_eq : hexDigits =
    ['0', '1', '2', '3', '4', '5', '6', '7', '8', '9', 'a', 'b', 'c', 'd', 'e', 'f', 'A', 'B', 'C', 'D', 'E', 'F'] :=
  String.toList_ofList

theorem hexDigits_ascii {c : Char} (h : c ∈ hexDigits) : c.toNat < 128 :=
  forall_mem_of_all (p := fun c => c.toNat < 128) (by rw [hexDigits_eq]; decide) c h

/-- A byte of the text is a digit exactly when its character is. -/
theorem hexValue_isSome_iff {c : Char} (h : c.toNat < 128) :
    (hexValue c.toUInt8).isSome ↔ c ∈ hexDigits := by
  have hbyte : c.toUInt8.toNat = c.toNat := Nat.mod_eq_of_lt (h.trans (by decide))
  have hvalue : (hexValue c.toUInt8).isSome ↔ 48 ≤ c.toNat ∧ c.toNat ≤ 57 ∨
      97 ≤ c.toNat ∧ c.toNat ≤ 102 ∨ 65 ≤ c.toNat ∧ c.toNat ≤ 70 := by
    simp only [hexValue, UInt8.le_iff_toNat_le, UInt8.reduceToNat, hbyte]
    split_ifs with hdecimal hlower hupper
    · exact iff_of_true rfl (.inl hdecimal)
    · exact iff_of_true rfl (.inr (.inl hlower))
    · exact iff_of_true rfl (.inr (.inr hupper))
    · exact iff_of_false (by decide) (by tauto)
  rw [hvalue, hexDigits_eq]
  simp only [List.mem_cons, List.not_mem_nil, or_false, ← Char.toNat_inj, Char.reduceToNat]
  omega

/-- A digit prints back in lower case. -/
theorem hexDigit_hexValue {c : Char} (h : c ∈ hexDigits) :
    ∃ d, hexValue c.toUInt8 = some d ∧ d.toNat < 16 ∧ hexDigit d.toNat = c.toLower := by
  have hall : hexDigits.all fun c => (hexValue c.toUInt8).any fun d =>
      d.toNat < 16 && hexDigit d.toNat == c.toLower := by
    rw [hexDigits_eq]
    decide
  have hc := List.all_eq_true.mp hall c h
  rw [Option.any_eq_true] at hc
  obtain ⟨d, hd, hdigit⟩ := hc
  rw [Bool.and_eq_true, decide_eq_true_iff, beq_iff_eq] at hdigit
  exact ⟨d, hd, hdigit⟩

theorem fromStrRadix16_isSome_iff {hi lo : Char} (hhi : hi.toNat < 128) (hlo : lo.toNat < 128) :
    (fromStrRadix16 hi.toUInt8 lo.toUInt8).isSome ↔ (hi ∈ hexDigits ∨ hi = '+') ∧ lo ∈ hexDigits := by
  by_cases hsign : hi = '+'
  · subst hsign
    rw [← hexValue_isSome_iff hlo, fromStrRadix16, if_pos (by decide)]
    simp
  · have hbyte : hi.toUInt8 ≠ 43 := by
      intro h
      apply ne_of_mem_utf8EncodeChar (d := '+') (by decide) hsign (b := hi.toUInt8) _ h
      rw [utf8EncodeChar_of_lt hhi, List.mem_singleton]
    rw [← hexValue_isSome_iff hhi, ← hexValue_isSome_iff hlo, fromStrRadix16, if_neg hbyte]
    cases hexValue hi.toUInt8 with
    | none => simp [hsign]
    | some high => cases hexValue lo.toUInt8 <;> simp [hsign]

/-- A byte outside ASCII is never decoded. -/
theorem ascii_of_hexPairs {bytes out : Bytes} (h : hexPairs bytes = some out) :
    ∀ b ∈ bytes, b.toNat < 128 := by
  have hdigit : ∀ b : UInt8, (hexValue b).isSome → b.toNat < 128 := fun b hb =>
    (hexValue_bounds (Option.some_get hb).symm).2
  induction bytes using hexPairs.induct generalizing out with
  | case1 => simp
  | case2 byte => cases h
  | case3 hi lo rest ih =>
    simp only [hexPairs, Option.bind_eq_bind, Option.bind_eq_some_iff] at h
    obtain ⟨b, hb, tail, htail, -⟩ := h
    have hpair : hi.toNat < 128 ∧ lo.toNat < 128 := by
      rw [fromStrRadix16] at hb
      split at hb
      · next hsign => exact ⟨by rw [hsign]; decide, hdigit lo (by rw [hb]; rfl)⟩
      · simp only [Option.bind_eq_bind, Option.bind_eq_some_iff] at hb
        obtain ⟨high, hhigh, low, hlow, -⟩ := hb
        exact ⟨hdigit hi (by rw [hhigh]; rfl), hdigit lo (by rw [hlow]; rfl)⟩
    intro c hc
    rcases List.mem_cons.mp hc with rfl | hc
    · exact hpair.1
    · rcases List.mem_cons.mp hc with rfl | hc
      · exact hpair.2
      · exact ih htail c hc

/-- A text that is decoded has one byte for each character. -/
theorem ascii_of_hexDecode {text : String} {out : Bytes} (h : hexDecode text = some out) :
    ∀ c ∈ text.toList, c.toNat < 128 := by
  intro c hc
  rw [hexDecode_eq, Host.hexDecode, ← String.ofList_toList (s := text), asBytes_ofList] at h
  by_contra hbig
  obtain ⟨b, bs, hb⟩ := List.exists_cons_of_ne_nil (l := String.utf8EncodeChar c) (by
    rw [ne_eq, ← List.length_eq_zero_iff, String.length_utf8EncodeChar]
    exact Nat.pos_iff_ne_zero.mp c.utf8Size_pos)
  have hmem : b ∈ String.utf8EncodeChar c := by rw [hb]; exact List.mem_cons_self
  have hlow := ascii_of_hexPairs h b (List.mem_flatMap.mpr ⟨c, hc, hmem⟩)
  have hhigh := le_of_mem_utf8EncodeChar (Nat.le_of_not_lt hbig) hmem
  omega

theorem signedPairs_ascii {cs : List Char} (h : signedPairs cs = true) : ∀ c ∈ cs, c.toNat < 128 := by
  induction cs using signedPairs.induct with
  | case1 => simp
  | case2 c => cases h
  | case3 hi lo rest ih =>
    simp only [signedPairs, Bool.and_eq_true, Bool.or_eq_true, decide_eq_true_iff] at h
    obtain ⟨⟨hhi, hlo⟩, hrest⟩ := h
    intro c hc
    rcases List.mem_cons.mp hc with rfl | hc
    · rcases hhi with hhi | rfl
      · exact hexDigits_ascii hhi
      · decide
    · rcases List.mem_cons.mp hc with rfl | hc
      · exact hexDigits_ascii hlo
      · exact ih hrest c hc

/-- The bytes of a text are paired as its characters are. -/
theorem hexPairs_isSome_iff {cs : List Char} (hascii : ∀ c ∈ cs, c.toNat < 128) :
    (hexPairs (cs.map Char.toUInt8)).isSome ↔ signedPairs cs = true := by
  induction cs using signedPairs.induct with
  | case1 => simp [hexPairs, signedPairs]
  | case2 c => simp [hexPairs, signedPairs]
  | case3 hi lo rest ih =>
    have hpair := fromStrRadix16_isSome_iff (hascii hi (by simp)) (hascii lo (by simp))
    have htail := ih (fun c hc => hascii c (by simp [hc]))
    simp only [List.map_cons, hexPairs, signedPairs, Bool.and_eq_true, Bool.or_eq_true, decide_eq_true_iff]
    rw [← hpair, ← htail]
    cases fromStrRadix16 hi.toUInt8 lo.toUInt8 with
    | none => simp
    | some b => cases hexPairs (rest.map Char.toUInt8) <;> simp

theorem hexDecode_ascii {text : String} (hascii : ∀ c ∈ text.toList, c.toNat < 128) :
    hexDecode text = hexPairs (text.toList.map Char.toUInt8) := by
  rw [hexDecode_eq, Host.hexDecode, ← asBytes_ascii hascii, String.ofList_toList]

theorem hexDecode_isSome_iff (text : String) : (hexDecode text).isSome ↔ signedPairs text.toList = true := by
  constructor
  · intro h
    obtain ⟨out, hout⟩ := Option.isSome_iff_exists.mp h
    have hascii := ascii_of_hexDecode hout
    rw [← hexPairs_isSome_iff hascii, ← hexDecode_ascii hascii]
    exact h
  · intro h
    have hascii := signedPairs_ascii h
    rw [hexDecode_ascii hascii, hexPairs_isSome_iff hascii]
    exact h

/-- Without a sign the pairs are an even number of digits. -/
theorem signedPairs_iff_of_not_mem {cs : List Char} (h : '+' ∉ cs) :
    signedPairs cs = true ↔ cs.length % 2 = 0 ∧ ∀ c ∈ cs, c ∈ hexDigits := by
  induction cs using signedPairs.induct with
  | case1 => simp [signedPairs]
  | case2 c => simp [signedPairs]
  | case3 hi lo rest ih =>
    have hhi : hi ≠ '+' := fun he => h (by simp [he])
    have htail := ih (fun hmem => h (by simp [hmem]))
    have hlen : (hi :: lo :: rest).length % 2 = rest.length % 2 := by
      simp only [List.length_cons]
      omega
    simp only [signedPairs, Bool.and_eq_true, Bool.or_eq_true, decide_eq_true_iff, htail, hlen,
      List.forall_mem_cons, hhi, or_false]
    tauto

/-- Digits print back in lower case. -/
theorem hexEncode_of_hexPairs {cs : List Char} {out : Bytes} (hdigits : ∀ c ∈ cs, c ∈ hexDigits)
    (h : hexPairs (cs.map Char.toUInt8) = some out) :
    (hexEncode out).toList = cs.map Char.toLower := by
  rw [hexEncode, String.toList_ofList]
  induction cs using signedPairs.induct generalizing out with
  | case1 =>
    cases h
    rfl
  | case2 c => cases h
  | case3 hi lo rest ih =>
    obtain ⟨high, hhigh, hhigh16, hhi⟩ := hexDigit_hexValue (hdigits hi (by simp))
    obtain ⟨low, hlow, hlow16, hlo⟩ := hexDigit_hexValue (hdigits lo (by simp))
    have hsign : hi.toUInt8 ≠ 43 := by
      intro hplus
      rw [hplus, show hexValue 43 = none by decide] at hhigh
      cases hhigh
    simp only [List.map_cons, hexPairs, fromStrRadix16, hsign, if_false, hhigh, hlow, Option.bind_eq_bind,
      Option.bind_some, Option.pure_def, Option.bind_eq_some_iff, Option.some.injEq] at h
    obtain ⟨tail, htail, rfl⟩ := h
    have hbyte : (16 * high + low).toNat = 16 * high.toNat + low.toNat := by
      rw [UInt8.toNat_add, UInt8.toNat_mul]
      simp only [UInt8.reduceToNat]
      omega
    rw [List.flatMap_cons, ih (fun c hc => hdigits c (by simp [hc])) htail, hbyte,
      show (16 * high.toNat + low.toNat) / 16 = high.toNat by omega,
      show (16 * high.toNat + low.toNat) % 16 = low.toNat by omega, hhi, hlo]
    rfl

theorem not_signed_of_isHexText {text : String} (h : IsHexText text) : ¬ Signed text := by
  rintro ⟨-, hplus⟩
  exact absurd (h.2 '+' hplus) (by decide)

/-- What is printed is decoded, and a text is treated as the hexadecimal text
that it is, or refused, exactly when no plus sign stands for a digit in it. -/
theorem hexDecode_readsAsHex_iff (text : String) :
    (∀ bytes, hexDecode (hexEncode bytes) = some bytes) ∧ (ReadsAsHex text ↔ ¬ Signed text) := by
  refine ⟨fun bytes => by rw [hexDecode_eq, hexDecode_hexEncode], ?_, ?_⟩
  · rintro ⟨haccepts, -⟩ hsigned
    exact not_signed_of_isHexText (haccepts.mp ((hexDecode_isSome_iff text).mpr hsigned.1)) hsigned
  · intro hsigned
    have haccepts : (hexDecode text).isSome ↔ IsHexText text := by
      rw [hexDecode_isSome_iff]
      constructor
      · intro hpairs
        exact (signedPairs_iff_of_not_mem (fun hplus => hsigned ⟨hpairs, hplus⟩)).mp hpairs
      · intro hhex
        have hplus : '+' ∉ text.toList := fun hmem => absurd (hhex.2 '+' hmem) (by decide)
        exact (signedPairs_iff_of_not_mem hplus).mpr hhex
    refine ⟨haccepts, fun bytes hbytes => ?_⟩
    have hhex : IsHexText text := haccepts.mp (by rw [hbytes]; rfl)
    rw [hexDecode_ascii (fun c hc => hexDigits_ascii (hhex.2 c hc))] at hbytes
    exact hexEncode_of_hexPairs hhex.2 hbytes

/-- The integer parser takes the sign, so two characters that are not both
digits become the byte of a key. -/
theorem hexDecode_sign : hexDecode "+f" = some [15] ∧ ¬ IsHexText "+f" ∧ ¬ ReadsAsHex "+f" := by
  have haccepted : hexDecode "+f" = some [15] := by decide
  have htext : ¬ IsHexText "+f" := fun h => absurd (h.2 '+' (by simp)) (by decide)
  exact ⟨haccepted, htext, fun h => htext (h.1.mp (by rw [haccepted]; rfl))⟩

end Hexadecimal
