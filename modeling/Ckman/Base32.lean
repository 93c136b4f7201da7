import Ckman.BigEndian
import Ckman.OathUri
import Mathlib.Data.Nat.Bitwise

/-!
# Base32

`base32_encode` writes groups of five bytes; `base32_decode` shifts every digit
through one 32-bit word. Both are compared with the digits of one number, that
of the whole byte string.
-/
namespace Oath

open Host
open Text

set_option maxRecDepth 4000

/-- `ALPHABET`, read at one index. -/
def base32Char (index : Nat) : Char := "ABCDEFGHIJKLMNOPQRSTUVWXYZ234567".toList.getD index 'A'

/-- One turn of the loop of `base32_encode`. -/
def base32Group (chunk : Bytes) : List Char :=
  let accumulator : UInt64 :=
    chunk.foldl (fun (a : UInt64) byte => (a <<< 8) ||| byte.toUInt64) 0
  let digits := (chunk.length * 8 + 4) / 5
  let accumulator := accumulator <<< UInt64.ofNat (digits * 5 - chunk.length * 8)
  (List.range digits).reverse.map fun index =>
    base32Char ((accumulator >>> UInt64.ofNat (index * 5)) &&& 31).toNat

def base32Encode (data : Bytes) : List Char := (data.toChunks 5).flatMap base32Group

def base32Cleaned (text : List Char) : List Char :=
  (text.filter fun c => !(c == ' ' || c == '=')).map Char.toUpper

/-- The number of digits for `n` bytes. -/
def digitCount (n : Nat) : Nat := (n * 8 + 4) / 5

def padBits (n : Nat) : Nat := digitCount n * 5 - n * 8

theorem padBits_add (n : Nat) : n * 8 + padBits n = digitCount n * 5 := by
  rw [padBits, digitCount]
  omega

theorem padBits_lt (n : Nat) : padBits n < 5 := by
  rw [padBits, digitCount]
  omega

/-- The digits of a byte string: those of its number, behind which the zero bits stand. -/
def base32Number (data : Bytes) : List Nat :=
  Radix.encode 32 (digitCount data.length) (BigEndian.decode data * 2 ^ padBits data.length)

theorem group_accumulator {chunk : Bytes} (h : chunk.length ≤ 8) :
    (chunk.foldl (fun (a : UInt64) byte => (a <<< 8) ||| byte.toUInt64) 0).toNat =
      BigEndian.decode chunk := by
  induction chunk using List.reverseRecOn with
  | nil => rfl
  | append_singleton bytes b ih =>
    rw [List.length_append, List.length_singleton] at h
    have hlt : BigEndian.decode bytes < 256 ^ 7 :=
      (BigEndian.decode_lt bytes).trans_le (Nat.pow_le_pow_right (by decide) (by omega))
    have hb : b.toNat < 2 ^ 8 := b.toNat_lt
    rw [List.foldl_append, List.foldl_cons, List.foldl_nil, BigEndian.decode_concat, UInt64.toNat_or,
      UInt64.toNat_shiftLeft, ih (by omega), UInt8.toNat_toUInt64]
    rw [show (UInt64.toNat 8 % 64) = 8 by decide, Nat.mod_eq_of_lt (by rw [Nat.shiftLeft_eq]; omega),
      ← Nat.shiftLeft_add_eq_or_of_lt hb, Nat.shiftLeft_eq]

theorem group_digit {accumulator : UInt64} {index : Nat} (h : index < 8) :
    ((accumulator >>> UInt64.ofNat (index * 5)) &&& 31).toNat = accumulator.toNat / 32 ^ index % 32 := by
  have hshift : (UInt64.ofNat (index * 5)).toNat % 64 = index * 5 := by
    rw [UInt64.toNat_ofNat_of_lt' (by rw [UInt64.size]; omega)]
    omega
  rw [UInt64.toNat_and, UInt64.toNat_shiftRight, hshift, Nat.shiftRight_eq_div_pow, Nat.mul_comm,
    Nat.pow_mul]
  exact Nat.and_two_pow_sub_one_eq_mod _ 5

theorem base32Group_eq {chunk : Bytes} (h : chunk.length ≤ 5) :
    base32Group chunk = (base32Number chunk).map base32Char := by
  have hcount : digitCount chunk.length ≤ 8 := by
    rw [digitCount]
    omega
  have hpad := padBits_lt chunk.length
  have hlt : BigEndian.decode chunk < 256 ^ 5 :=
    (BigEndian.decode_lt chunk).trans_le (Nat.pow_le_pow_right (by decide) h)
  have hshift : (UInt64.ofNat (padBits chunk.length)).toNat % 64 = padBits chunk.length := by
    rw [UInt64.toNat_ofNat_of_lt' (by rw [UInt64.size]; omega)]
    omega
  have hpow : 2 ^ padBits chunk.length ≤ 2 ^ 4 := Nat.pow_le_pow_right (by decide) (by omega)
  have hsmall : BigEndian.decode chunk * 2 ^ padBits chunk.length < 2 ^ 64 :=
    calc BigEndian.decode chunk * 2 ^ padBits chunk.length ≤ 256 ^ 5 * 2 ^ 4 :=
          Nat.mul_le_mul hlt.le hpow
      _ < 2 ^ 64 := by decide
  rw [base32Number, Radix.encode_eq_map_range, List.map_map]
  refine List.map_congr_left fun index hindex => ?_
  rw [List.mem_reverse, List.mem_range] at hindex
  have hindex : index < 8 := lt_of_lt_of_le hindex hcount
  rw [group_digit hindex, UInt64.toNat_shiftLeft, group_accumulator (by omega)]
  change base32Char (BigEndian.decode chunk <<<
    ((UInt64.ofNat (padBits chunk.length)).toNat % 64) % 2 ^ 64 / 32 ^ index % 32) = _
  rw [hshift, Nat.shiftLeft_eq, Nat.mod_eq_of_lt hsmall, Function.comp_apply]

/-- The bytes and the zero bits behind them fill whole digits. -/
theorem pow_digitCount (n : Nat) : 256 ^ n * 2 ^ padBits n = 32 ^ digitCount n := by
  rw [show 256 = 2 ^ 8 by decide, show 32 = 2 ^ 5 by decide, ← Nat.pow_mul, ← Nat.pow_mul,
    ← Nat.pow_add, Nat.mul_comm 8, padBits_add, Nat.mul_comm]

theorem number_lt (data : Bytes) :
    BigEndian.decode data * 2 ^ padBits data.length < 32 ^ digitCount data.length := by
  rw [← pow_digitCount]
  exact Nat.mul_lt_mul_of_pos_right (BigEndian.decode_lt data) (Nat.two_pow_pos _)

/-- Groups of five bytes fill whole digits, so that the groups follow each other. -/
theorem base32Number_append {front rest : Bytes} (h : front.length = 5) :
    base32Number (front ++ rest) = base32Number front ++ base32Number rest := by
  have hcount : digitCount (front ++ rest).length = 8 + digitCount rest.length := by
    rw [List.length_append, h, digitCount, digitCount]
    omega
  have hpad : padBits (front ++ rest).length = padBits rest.length := by
    have h₁ := padBits_add (front ++ rest).length
    have h₂ := padBits_add rest.length
    rw [List.length_append, h] at h₁ hcount ⊢
    omega
  have hfront : base32Number front = Radix.encode 32 8 (BigEndian.decode front) := by
    rw [base32Number, h, show padBits 5 = 0 by decide, pow_zero, Nat.mul_one]
    rfl
  rw [base32Number, hcount, hpad, BigEndian.decode_append, Nat.add_mul, Nat.mul_assoc,
    pow_digitCount, Radix.encode_mul_add (number_lt rest), hfront, base32Number]

theorem base32Encode_eq (data : Bytes) : base32Encode data = (base32Number data).map base32Char := by
  induction hn : data.length using Nat.strong_induction_on generalizing data with
  | _ n ih =>
    subst hn
    by_cases hnil : data = []
    · subst hnil
      rfl
    · rw [base32Encode, Radix.toChunks_eq (by decide) hnil, List.flatMap_cons]
      have hrest : (data.drop 5).length < data.length := by
        rw [List.length_drop]
        have := List.length_pos_iff.mpr hnil
        omega
      have ih := ih _ hrest _ rfl
      rw [base32Encode] at ih
      rw [ih, base32Group_eq (by rw [List.length_take]; omega), ← List.map_append]
      by_cases hlong : 5 ≤ data.length
      · rw [← base32Number_append (by rw [List.length_take]; omega), List.take_append_drop]
      · rw [List.take_of_length_le (by omega), List.drop_eq_nil_of_le (by omega)]
        rw [show base32Number [] = [] by decide, List.append_nil]

/-- What the variables of `base32_decode` hold after `count` digits of the number
`number`: the accumulator its low word, the output its high bits. -/
structure Decoded (number count : Nat) (accumulator : UInt32) (bits : Nat) (output : Bytes) :
    Prop where
  word : accumulator.toNat = number % 2 ^ 32
  count_eq : count * 5 = output.length * 8 + bits
  bits_lt : bits < 8
  output_eq : BigEndian.decode output = number / 2 ^ bits

theorem Decoded.start : Decoded 0 0 0 0 [] := ⟨rfl, rfl, by decide, rfl⟩

theorem accumulate_toNat {number : Nat} {accumulator : UInt32} {value : UInt8}
    (hword : accumulator.toNat = number % 2 ^ 32) (hvalue : value.toNat < 32) :
    ((accumulator <<< 5) ||| value.toUInt32).toNat = (number * 32 + value.toNat) % 2 ^ 32 := by
  have hlow : (accumulator.toNat <<< 5) % 2 ^ 32 = (number % 2 ^ 27) <<< 5 := by
    rw [hword, Nat.shiftLeft_eq, Nat.shiftLeft_eq]
    omega
  rw [UInt32.toNat_or, UInt32.toNat_shiftLeft, UInt8.toNat_toUInt32,
    show UInt32.toNat 5 % 32 = 5 by decide, hlow, ← Nat.shiftLeft_add_eq_or_of_lt hvalue,
    Nat.shiftLeft_eq]
  omega

/-- The bits that are cut off above the word lie above the byte that is taken out. -/
theorem pushed_toNat {number bits : Nat} {accumulator : UInt32} (hbits : bits < 8)
    (hword : accumulator.toNat = number % 2 ^ 32) :
    (accumulator >>> UInt32.ofNat bits).toUInt8.toNat = number / 2 ^ bits % 256 := by
  have hshift : (UInt32.ofNat bits).toNat % 32 = bits := by
    rw [UInt32.toNat_ofNat_of_lt' (by rw [UInt32.size]; omega)]
    omega
  have hpow : 2 ^ 32 = 2 ^ bits * 2 ^ (32 - bits) := by
    rw [← Nat.pow_add]
    congr 1
    omega
  have hdvd : 256 ∣ 2 ^ (32 - bits) := pow_dvd_pow 2 (show 8 ≤ 32 - bits by omega)
  rw [UInt32.toNat_toUInt8, UInt32.toNat_shiftRight, hshift, hword, Nat.shiftRight_eq_div_pow, hpow,
    Nat.mod_mul_right_div_self, Nat.mod_mod_of_dvd _ hdvd]

theorem Decoded.more {number count bits : Nat} {accumulator : UInt32} {output : Bytes} {value : UInt8}
    (h : Decoded number count accumulator bits output) (hvalue : value.toNat < 32)
    (hbits : bits + 5 < 8) :
    Decoded (number * 32 + value.toNat) (count + 1) ((accumulator <<< 5) ||| value.toUInt32)
      (bits + 5) output where
  word := accumulate_toNat h.word hvalue
  count_eq := by
    have := h.count_eq
    omega
  bits_lt := hbits
  output_eq := by
    rw [h.output_eq, Nat.pow_add, Nat.mul_comm, Nat.mul_comm (2 ^ bits), ← Nat.div_div_eq_div_mul]
    congr 1
    omega

theorem Decoded.push {number count bits : Nat} {accumulator : UInt32} {output : Bytes} {value : UInt8}
    (h : Decoded number count accumulator bits output) (hvalue : value.toNat < 32)
    (hbits : 8 ≤ bits + 5) :
    Decoded (number * 32 + value.toNat) (count + 1) ((accumulator <<< 5) ||| value.toUInt32)
      (bits + 5 - 8)
      (output ++ [(((accumulator <<< 5) ||| value.toUInt32) >>>
        UInt32.ofNat (bits + 5 - 8)).toUInt8]) where
  word := accumulate_toNat h.word hvalue
  count_eq := by
    have := h.count_eq
    rw [List.length_append, List.length_singleton]
    omega
  bits_lt := by
    have := h.bits_lt
    omega
  output_eq := by
    obtain ⟨rest, hrest⟩ : ∃ rest, bits + 5 = rest + 8 := ⟨bits + 5 - 8, by omega⟩
    have hlt : rest < 8 := by
      have := h.bits_lt
      omega
    have hhigh : number / 2 ^ bits = (number * 32 + value.toNat) / 2 ^ rest / 256 := by
      rw [Nat.div_div_eq_div_mul, show 256 = 2 ^ 8 by decide, ← Nat.pow_add, ← hrest, Nat.pow_add,
        Nat.mul_comm (2 ^ bits), ← Nat.div_div_eq_div_mul]
      congr 1
      omega
    rw [BigEndian.decode_concat, show bits + 5 - 8 = rest by omega,
      pushed_toNat hlt (accumulate_toNat h.word hvalue), h.output_eq, hhigh]
    omega

/-- The digits that were read determine what the variables hold. -/
theorem Decoded.unique {number count bits bits' : Nat} {accumulator accumulator' : UInt32}
    {output output' : Bytes} (h : Decoded number count accumulator bits output)
    (h' : Decoded number count accumulator' bits' output') : bits = bits' ∧ output = output' := by
  have hcount := h.count_eq
  have hcount' := h'.count_eq
  have hbits := h.bits_lt
  have hbits' := h'.bits_lt
  obtain rfl : bits = bits' := by omega
  refine ⟨rfl, BigEndian.decode_injective (by omega) ?_⟩
  rw [h.output_eq, h'.output_eq]

/-- What `base32_decode` checks of the last bits. -/
theorem leftover_iff {number bits : Nat} {accumulator : UInt32} (hbits : bits < 8)
    (hword : accumulator.toNat = number % 2 ^ 32) :
    accumulator &&& ((1 <<< UInt32.ofNat bits) - 1) = 0 ↔ number % 2 ^ bits = 0 := by
  have hmask : ((1 <<< UInt32.ofNat bits) - 1 : UInt32).toNat = 2 ^ bits - 1 := by
    interval_cases bits <;> decide
  have hdvd : 2 ^ bits ∣ 2 ^ 32 := pow_dvd_pow 2 (by omega)
  rw [← UInt32.toNat_inj, UInt32.toNat_and, hmask, Nat.and_two_pow_sub_one_eq_mod, hword,
    Nat.mod_mod_of_dvd _ hdvd]
  rfl

/-- The values of the digits in the text; padding and spaces have none. -/
def base32Values : Bytes → Option (List Nat)
  | [] => some []
  | byte :: rest =>
    if byte = 0x3d ∨ byte = 0x20 then base32Values rest
    else
      match base32Value byte with
      | none => none
      | some value => (base32Values rest).map (value.toNat :: ·)

theorem base32Value_lt {byte value : UInt8} (h : base32Value byte = some value) : value.toNat < 32 := by
  have hall : ∀ b : UInt8, ∀ d ∈ base32Value b, d.toNat < 32 := Text.forall_byte (by decide)
  exact hall byte value h

/-- The decoder accepts `count` digits of the number `number` as the bytes `result`. -/
def Finished (number count : Nat) (result : Bytes) : Prop :=
  ∃ accumulator bits, Decoded number count accumulator bits result ∧ bits < 5 ∧
    number % 2 ^ bits = 0

theorem base32Loop_nil_eq_ok_iff {number count bits : Nat} {accumulator : UInt32}
    {output result : Bytes} (h : Decoded number count accumulator bits output) :
    base32Loop accumulator bits output [] = .ok result ↔ Finished number count result := by
  have hleft := leftover_iff h.bits_lt h.word
  rw [base32Loop]
  constructor
  · intro hok
    split_ifs at hok with hbad
    cases hok
    exact ⟨accumulator, bits, h, by omega, hleft.mp (not_not.mp fun hne => hbad (Or.inr hne))⟩
  · rintro ⟨accumulator', bits', hdone, hbits, hrest⟩
    obtain ⟨rfl, rfl⟩ := h.unique hdone
    refine if_neg ?_
    rintro (hge | hne)
    · omega
    · exact hne (hleft.mpr hrest)

/-- The loop accepts what leaves no bits over behind the last byte. -/
theorem base32Loop_eq_ok_iff {number count bits : Nat} {accumulator : UInt32}
    {output input result : Bytes} (h : Decoded number count accumulator bits output) :
    base32Loop accumulator bits output input = .ok result ↔
      ∃ values, base32Values input = some values ∧
        Finished (number * 32 ^ values.length + Radix.decode 32 values) (count + values.length)
          result := by
  induction input generalizing number count bits accumulator output with
  | nil =>
    rw [base32Loop_nil_eq_ok_iff h]
    simp [base32Values, Radix.decode]
  | cons byte rest ih =>
    rw [base32Loop, base32Values]
    by_cases hskip : byte = 0x3d ∨ byte = 0x20
    · rw [if_pos hskip, if_pos hskip]
      exact ih h
    · rw [if_neg hskip, if_neg hskip]
      cases hvalue : base32Value byte with
      | none =>
        constructor
        · intro hok
          cases hok
        · rintro ⟨values, hvalues, -⟩
          cases hvalues
      | some value =>
        have hlt := base32Value_lt hvalue
        have hcons : ∀ values : List Nat,
            (number * 32 + value.toNat) * 32 ^ values.length + Radix.decode 32 values =
              number * 32 ^ (value.toNat :: values).length +
                Radix.decode 32 (value.toNat :: values) := by
          intro values
          rw [List.length_cons, Radix.decode]
          ring
        have hcount : ∀ values : List Nat,
            count + 1 + values.length = count + (value.toNat :: values).length := by
          intro values
          rw [List.length_cons]
          omega
        have hnext : ∀ {accumulator' bits' output'},
            Decoded (number * 32 + value.toNat) (count + 1) accumulator' bits' output' →
            (base32Loop accumulator' bits' output' rest = .ok result ↔
              ∃ values, (base32Values rest).map (value.toNat :: ·) = some values ∧
                Finished (number * 32 ^ values.length + Radix.decode 32 values)
                  (count + values.length) result) := by
          intro accumulator' bits' output' hdecoded
          rw [ih hdecoded]
          constructor
          · rintro ⟨values, hvalues, hdone⟩
            rw [hcons, hcount] at hdone
            exact ⟨value.toNat :: values, by rw [hvalues]; rfl, hdone⟩
          · rintro ⟨values, hvalues, hdone⟩
            obtain ⟨tail, htail, rfl⟩ := Option.map_eq_some_iff.mp hvalues
            rw [← hcons, ← hcount] at hdone
            exact ⟨tail, htail, hdone⟩
        by_cases hbits : 8 ≤ bits + 5
        · refine Iff.trans (Eq.to_iff ?_) (hnext (h.push hlt hbits))
          simp only [if_pos hbits]
        · refine Iff.trans (Eq.to_iff ?_) (hnext (h.more hlt (Nat.lt_of_not_le hbits)))
          simp only [if_neg hbits]

theorem lt_of_mem_base32Number {data : Bytes} {d : Nat} (h : d ∈ base32Number data) : d < 32 :=
  Radix.lt_of_mem_encode (by decide) h

theorem decode_base32Number (data : Bytes) :
    Radix.decode 32 (base32Number data) = BigEndian.decode data * 2 ^ padBits data.length := by
  rw [base32Number, Radix.decode_encode_mod, Nat.mod_eq_of_lt (number_lt data)]

/-- The decoder accepts exactly the digits that the encoder writes. -/
theorem finished_iff {values : List Nat} {result : Bytes} (hvalues : ∀ v ∈ values, v < 32) :
    Finished (Radix.decode 32 values) values.length result ↔ values = base32Number result := by
  have hadd := padBits_add result.length
  have hlt := padBits_lt result.length
  constructor
  · rintro ⟨accumulator, bits, hdone, hbits, hrest⟩
    have hcount := hdone.count_eq
    have hlen : values.length = digitCount result.length := by omega
    obtain rfl : bits = padBits result.length := by omega
    have hnumber : Radix.decode 32 values =
        BigEndian.decode result * 2 ^ padBits result.length := by
      rw [hdone.output_eq, Nat.div_mul_cancel (Nat.dvd_of_mod_eq_zero hrest)]
    rw [base32Number, ← hlen, ← hnumber, Radix.encode_decode hvalues]
  · rintro rfl
    have hpos := Nat.two_pow_pos (padBits result.length)
    rw [decode_base32Number]
    refine ⟨UInt32.ofNat (BigEndian.decode result * 2 ^ padBits result.length),
      padBits result.length, ⟨UInt32.toNat_ofNat', ?_, by omega, ?_⟩, hlt, ?_⟩
    · rw [base32Number, Radix.length_encode]
      omega
    · rw [Nat.mul_div_cancel _ hpos]
    · rw [Nat.mul_mod_left]

theorem lt_of_mem_base32Values {input : Bytes} {values : List Nat}
    (h : base32Values input = some values) : ∀ v ∈ values, v < 32 := by
  induction input generalizing values with
  | nil =>
    cases h
    intro v hv
    cases hv
  | cons byte rest ih =>
    rw [base32Values] at h
    split_ifs at h with hskip
    · exact ih h
    · cases hvalue : base32Value byte with
      | none =>
        rw [hvalue] at h
        cases h
      | some value =>
        rw [hvalue] at h
        obtain ⟨tail, htail, rfl⟩ := Option.map_eq_some_iff.mp h
        intro v hv
        rcases List.mem_cons.mp hv with rfl | hv
        · exact base32Value_lt hvalue
        · exact ih htail v hv

theorem base32Decode_eq_ok_iff_values {text : List Char} {result : Bytes} :
    base32Decode text = .ok result ↔ base32Values (utf8 text) = some (base32Number result) := by
  rw [base32Decode, base32Loop_eq_ok_iff Decoded.start]
  simp only [Nat.zero_mul, Nat.zero_add]
  constructor
  · rintro ⟨values, hvalues, hdone⟩
    rw [hvalues, (finished_iff (lt_of_mem_base32Values hvalues)).mp hdone]
  · intro h
    exact ⟨_, h, (finished_iff fun _ hv => lt_of_mem_base32Number hv).mpr rfl⟩

theorem base32Char_eq (index : Nat) : base32Char index =
    ['A', 'B', 'C', 'D', 'E', 'F', 'G', 'H', 'I', 'J', 'K', 'L', 'M', 'N', 'O', 'P', 'Q', 'R', 'S', 'T', 'U',
      'V', 'W', 'X', 'Y', 'Z', '2', '3', '4', '5', '6', '7'].getD index 'A' :=
  congrArg (·.getD index 'A') String.toList_ofList

theorem base32Value_base32Char {d : Nat} (hd : d < 32) :
    base32Value (base32Char d).toUInt8 = some (UInt8.ofNat d) := by
  rw [base32Char_eq]
  revert d
  decide

/-- The decoder reads a character as it reads the upper-case one, which is the digit
of the value. -/
theorem base32Value_toUpper {c : Char} (hc : c.toNat < 128) :
    base32Value c.toUpper.toUInt8 = base32Value c.toUInt8 ∧
      ∀ v ∈ base32Value c.toUInt8, c.toUpper = base32Char v.toNat := by
  have hall : ∀ n < 128, base32Value (Char.ofNat n).toUpper.toUInt8 = base32Value (Char.ofNat n).toUInt8 ∧
      ∀ v ∈ base32Value (Char.ofNat n).toUInt8, (Char.ofNat n).toUpper = base32Char v.toNat := by
    simp only [base32Char_eq]
    decide
  rw [← Char.ofNat_toNat c]
  exact hall c.toNat hc

/-- A character has the value of a digit if in upper case it is that digit. -/
theorem base32Value_eq_some_iff {c : Char} (hc : c.toNat < 128) {d : Nat} (hd : d < 32) :
    base32Value c.toUInt8 = some (UInt8.ofNat d) ↔ c.toUpper = base32Char d := by
  obtain ⟨hupper, hdigit⟩ := base32Value_toUpper hc
  constructor
  · intro h
    have hchar := hdigit _ h
    rwa [UInt8.toNat_ofNat_of_lt' (hd.trans (by decide))] at hchar
  · intro h
    rw [← hupper, h, base32Value_base32Char hd]

/-- Neither has a character outside ASCII a value, nor is it a digit. -/
theorem toUpper_ne_base32Char {c : Char} (hc : 128 ≤ c.toNat) {d : Nat} (hd : d < 32) :
    c.toUpper ≠ base32Char d := by
  have hupper : c.toUpper = c := by
    refine dif_neg ?_
    rintro ⟨-, hz⟩
    have : c.toNat ≤ 122 := hz
    omega
  have hdigit : ∀ d < 32, (base32Char d).toNat < 128 := by decide
  intro h
  have := hdigit d hd
  rw [← h, hupper] at this
  omega

theorem base32Value_eq_none {b : UInt8} (hb : 128 ≤ b.toNat) :
    base32Value b = none ∧ ¬ (b = 0x3d ∨ b = 0x20) := by
  have hall : ∀ b : UInt8, 128 ≤ b.toNat → base32Value b = none ∧ ¬ (b = 0x3d ∨ b = 0x20) :=
    Text.forall_byte (by decide)
  exact hall b hb

theorem base32Cleaned_cons (c : Char) (text : List Char) :
    base32Cleaned (c :: text) =
      if c = ' ' ∨ c = '=' then base32Cleaned text else c.toUpper :: base32Cleaned text := by
  rw [base32Cleaned, List.filter_cons]
  by_cases hskip : c = ' ' ∨ c = '='
  · have hkeep : (!(c == ' ' || c == '=')) = false := by rcases hskip with rfl | rfl <;> rfl
    rw [hkeep, if_pos hskip]
    rfl
  · have hkeep : (!(c == ' ' || c == '=')) = true := by simpa using hskip
    rw [hkeep, if_neg hskip]
    rfl

theorem ascii_skip {c : Char} (hc : c.toNat < 128) :
    (c.toUInt8 = 0x3d ∨ c.toUInt8 = 0x20) ↔ (c = ' ' ∨ c = '=') := by
  have hall : ∀ n < 128, ((Char.ofNat n).toUInt8 = 0x3d ∨ (Char.ofNat n).toUInt8 = 0x20) ↔
      (Char.ofNat n = ' ' ∨ Char.ofNat n = '=') := by
    decide
  rw [← Char.ofNat_toNat c]
  exact hall c.toNat hc

/-- The values of a text that starts with a digit. -/
theorem base32Values_cons_eq_some_iff {byte : UInt8} {rest : Bytes} {values : List Nat}
    (hskip : ¬ (byte = 0x3d ∨ byte = 0x20)) :
    base32Values (byte :: rest) = some values ↔
      ∃ d tail, values = d :: tail ∧ d < 32 ∧ base32Value byte = some (UInt8.ofNat d) ∧
        base32Values rest = some tail := by
  rw [base32Values, if_neg hskip]
  constructor
  · intro h
    cases hvalue : base32Value byte with
    | none =>
      rw [hvalue] at h
      cases h
    | some value =>
      rw [hvalue] at h
      obtain ⟨tail, htail, rfl⟩ := Option.map_eq_some_iff.mp h
      exact ⟨value.toNat, tail, rfl, base32Value_lt hvalue, by rw [UInt8.ofNat_toNat], htail⟩
  · rintro ⟨d, tail, rfl, hd, hvalue, htail⟩
    have hnat : (UInt8.ofNat d).toNat = d := UInt8.toNat_ofNat_of_lt' (by rw [UInt8.size]; omega)
    rw [hvalue]
    change (base32Values rest).map ((UInt8.ofNat d).toNat :: ·) = _
    rw [htail, hnat, Option.map_some]

theorem base32Values_utf8_eq_some_iff {text : List Char} {values : List Nat} :
    base32Values (utf8 text) = some values ↔
      (∀ v ∈ values, v < 32) ∧ base32Cleaned text = values.map base32Char := by
  induction text generalizing values with
  | nil =>
    constructor
    · intro h
      cases h
      exact ⟨List.forall_mem_nil _, rfl⟩
    · rintro ⟨-, h⟩
      rw [List.map_eq_nil_iff.mp h.symm]
      rfl
  | cons c text ih =>
    rw [utf8_cons, base32Cleaned_cons]
    rcases Nat.lt_or_ge c.toNat 128 with hc | hc
    · rw [utf8EncodeChar_of_lt hc, List.singleton_append]
      by_cases hskip : c = ' ' ∨ c = '='
      · rw [base32Values, if_pos ((ascii_skip hc).mpr hskip), if_pos hskip]
        exact ih
      · rw [base32Values_cons_eq_some_iff (mt (ascii_skip hc).mp hskip), if_neg hskip]
        constructor
        · rintro ⟨d, tail, rfl, hd, hvalue, htail⟩
          obtain ⟨hlt, hclean⟩ := ih.mp htail
          refine ⟨List.forall_mem_cons.mpr ⟨hd, hlt⟩, ?_⟩
          rw [List.map_cons, hclean, (base32Value_eq_some_iff hc hd).mp hvalue]
        · rintro ⟨hlt, hclean⟩
          obtain ⟨d, tail, rfl, hd, htail⟩ := List.map_eq_cons_iff.mp hclean.symm
          obtain ⟨hd32, hlt⟩ := List.forall_mem_cons.mp hlt
          exact ⟨d, tail, rfl, hd32, (base32Value_eq_some_iff hc hd32).mpr hd.symm,
            ih.mpr ⟨hlt, htail.symm⟩⟩
    · have hskip : ¬ (c = ' ' ∨ c = '=') := by
        rintro (rfl | rfl) <;> exact absurd hc (by decide)
      obtain ⟨b, bs, hbytes⟩ : ∃ b bs, String.utf8EncodeChar c = b :: bs := by
        refine List.exists_cons_of_ne_nil fun hnil => ?_
        have := String.length_utf8EncodeChar c
        rw [hnil] at this
        exact absurd this.symm (Nat.ne_of_gt (Char.utf8Size_pos c))
      have hb : 128 ≤ b.toNat := le_of_mem_utf8EncodeChar hc (by rw [hbytes]; exact List.mem_cons_self)
      obtain ⟨hnone, hbyte⟩ := base32Value_eq_none hb
      rw [hbytes, List.cons_append, base32Values_cons_eq_some_iff hbyte, if_neg hskip]
      constructor
      · rintro ⟨d, tail, -, -, hvalue, -⟩
        rw [hnone] at hvalue
        cases hvalue
      · rintro ⟨hlt, hclean⟩
        obtain ⟨d, tail, rfl, hd, -⟩ := List.map_eq_cons_iff.mp hclean.symm
        exact absurd hd.symm (toUpper_ne_base32Char hc (hlt d List.mem_cons_self))

theorem base32Decode_eq_ok_iff {text : List Char} {data : Bytes} :
    base32Decode text = .ok data ↔ base32Cleaned text = base32Encode data := by
  rw [base32Decode_eq_ok_iff_values, base32Values_utf8_eq_some_iff, base32Encode_eq]
  exact and_iff_right fun v hv => lt_of_mem_base32Number hv

/-- The encoder writes neither spaces, padding nor lower-case letters. -/
theorem base32Cleaned_encode (data : Bytes) : base32Cleaned (base32Encode data) = base32Encode data := by
  have hall : ∀ d < 32, (base32Char d).toUpper = base32Char d ∧
      (!(base32Char d == ' ' || base32Char d == '=')) = true := by
    decide
  have hmem : ∀ c ∈ base32Encode data, c.toUpper = c ∧ (!(c == ' ' || c == '=')) = true := by
    intro c hc
    rw [base32Encode_eq] at hc
    obtain ⟨d, hd, rfl⟩ := List.mem_map.mp hc
    exact hall d (lt_of_mem_base32Number hd)
  rw [base32Cleaned, List.filter_eq_self.mpr fun c hc => (hmem c hc).2]
  exact (List.map_congr_left fun c hc => (hmem c hc).1).trans (List.map_id _)

theorem base32Loop_error {accumulator : UInt32} {bits : Nat} {output input : Bytes} {e : UriError}
    (h : base32Loop accumulator bits output input = .error e) : e = .secret := by
  induction input generalizing accumulator bits output with
  | nil =>
    rw [base32Loop] at h
    split_ifs at h
    cases h
    rfl
  | cons byte rest ih =>
    rw [base32Loop] at h
    split_ifs at h
    · exact ih h
    · cases hvalue : base32Value byte with
      | none =>
        rw [hvalue] at h
        cases h
        rfl
      | some value =>
        simp only [hvalue] at h
        split_ifs at h <;> exact ih h

theorem base32Decode_eq_error {text : List Char} (h : ∀ data, base32Cleaned text ≠ base32Encode data) :
    base32Decode text = .error .secret := by
  cases hdecode : base32Decode text with
  | ok data => exact absurd (base32Decode_eq_ok_iff.mp hdecode) (h data)
  | error e => rw [base32Loop_error hdecode]

/-- The decoder accepts what the encoder writes, up to case, spaces and padding, and
nothing else: no length that no byte string has, no bits behind the last byte. -/
theorem base32_canonical :
    (∀ data, base32Decode (base32Encode data) = .ok data) ∧
      (∀ text data, base32Decode text = .ok data ↔ base32Cleaned text = base32Encode data) ∧
      (∀ text, (∀ data, base32Cleaned text ≠ base32Encode data) →
        base32Decode text = .error .secret) ∧
      (∀ text, (base32Cleaned text).length % 8 ∈ [1, 3, 6] → base32Decode text = .error .secret) ∧
      (∀ text values, (∀ v ∈ values, v < 32) → base32Cleaned text = values.map base32Char →
        Radix.decode 32 values % 2 ^ (values.length * 5 % 8) ≠ 0 →
          base32Decode text = .error .secret) := by
  refine ⟨fun data => base32Decode_eq_ok_iff.mpr (base32Cleaned_encode data),
    fun text data => base32Decode_eq_ok_iff, fun text => base32Decode_eq_error, ?_, ?_⟩
  · intro text hlen
    refine base32Decode_eq_error fun data hdata => ?_
    rw [hdata, base32Encode_eq, List.length_map, base32Number, Radix.length_encode, digitCount] at hlen
    simp only [List.mem_cons, List.not_mem_nil, or_false] at hlen
    omega
  · intro text values hvalues htext hrest
    refine base32Decode_eq_error fun data hdata => hrest ?_
    have hsame := base32Decode_eq_ok_iff_values.mp (base32Decode_eq_ok_iff.mpr hdata)
    rw [base32Values_utf8_eq_some_iff.mpr ⟨hvalues, htext⟩] at hsame
    cases hsame
    have hbits : (base32Number data).length * 5 % 8 = padBits data.length := by
      have hadd := padBits_add data.length
      have hlt := padBits_lt data.length
      rw [base32Number, Radix.length_encode]
      omega
    rw [hbits, decode_base32Number, Nat.mul_mod_left]

end Oath
