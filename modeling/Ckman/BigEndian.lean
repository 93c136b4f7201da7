import Ckman.Radix
import Mathlib.Data.List.Basic

/-!
# Byte strings as numbers

Fixed-width big-endian encodings of natural numbers and their decoding, over
lists of bytes, and the same in little-endian order. The width is the number of bytes.
-/
namespace BigEndian

/-- The low `n` bytes of `x`, most significant first. -/
def encode : Nat → Nat → List UInt8
  | 0, _ => []
  | n + 1, x => UInt8.ofNat (x / 256 ^ n) :: encode n x

def decode : List UInt8 → Nat
  | [] => 0
  | b :: bs => b.toNat * 256 ^ bs.length + decode bs

@[simp] theorem length_encode (n x : Nat) : (encode n x).length = n := by
  induction n with
  | zero => rfl
  | succ n ih => simp [encode, ih]

/-- The bytes are the digits in base 256. -/
theorem map_toNat_encode (n x : Nat) : (encode n x).map UInt8.toNat = Radix.encode 256 n x := by
  induction n with
  | zero => rfl
  | succ n ih =>
    have hb : (UInt8.ofNat (x / 256 ^ n)).toNat = x / 256 ^ n % 256 := by simp
    rw [encode, List.map_cons, hb, ih, Radix.encode]

theorem decode_eq_radix (bs : List UInt8) : decode bs = Radix.decode 256 (bs.map UInt8.toNat) := by
  induction bs with
  | nil => rfl
  | cons b bs ih => rw [decode, ih, List.map_cons, Radix.decode, List.length_map]

theorem toNat_digit (bs : List UInt8) : ∀ d ∈ bs.map UInt8.toNat, d < 256 := by
  intro d hd
  obtain ⟨b, -, rfl⟩ := List.mem_map.mp hd
  exact b.toNat_lt

theorem map_toNat_injective : Function.Injective (List.map UInt8.toNat) :=
  List.map_injective_iff.mpr fun _ _ => UInt8.toNat_inj.mp

theorem decode_encode_mod (n x : Nat) : decode (encode n x) = x % 256 ^ n := by
  rw [decode_eq_radix, map_toNat_encode, Radix.decode_encode_mod]

/-- A number that fits the width is recovered. -/
theorem decode_encode {n x : Nat} (h : x < 256 ^ n) : decode (encode n x) = x := by
  rw [decode_encode_mod, Nat.mod_eq_of_lt h]

theorem decode_lt (bs : List UInt8) : decode bs < 256 ^ bs.length := by
  have h := Radix.decode_lt (toNat_digit bs)
  rwa [List.length_map, ← decode_eq_radix] at h

theorem decode_append (bs cs : List UInt8) :
    decode (bs ++ cs) = decode bs * 256 ^ cs.length + decode cs := by
  simp only [decode_eq_radix, List.map_append, Radix.decode_append, List.length_map]

theorem decode_concat (bs : List UInt8) (b : UInt8) :
    decode (bs ++ [b]) = decode bs * 256 + b.toNat := by
  simp [decode_append, decode]

/-- Byte strings of one length are told apart by their numbers. -/
theorem decode_injective {bs cs : List UInt8} (hlen : bs.length = cs.length)
    (h : decode bs = decode cs) : bs = cs := by
  rw [decode_eq_radix, decode_eq_radix] at h
  exact map_toNat_injective
    (Radix.decode_injective (toNat_digit bs) (toNat_digit cs) (by simpa using hlen) h)

theorem encode_decode (bs : List UInt8) : encode bs.length (decode bs) = bs :=
  decode_injective (length_encode _ _) (decode_encode (decode_lt bs))

end BigEndian

namespace LittleEndian

/-- The number that a byte string denotes when its first byte is the least significant one. -/
def decode : List UInt8 → Nat
  | [] => 0
  | b :: bs => b.toNat + 256 * decode bs

theorem decode_append (bs cs : List UInt8) :
    decode (bs ++ cs) = decode bs + 256 ^ bs.length * decode cs := by
  induction bs with
  | nil => simp [decode]
  | cons b bs ih =>
    rw [List.cons_append, decode, decode, ih, List.length_cons, pow_succ]
    ring

theorem decode_reverse (bs : List UInt8) : BigEndian.decode bs.reverse = decode bs := by
  induction bs with
  | nil => rfl
  | cons b bs ih =>
    rw [List.reverse_cons, BigEndian.decode_concat, ih, decode]
    ring

theorem decode_lt (bs : List UInt8) : decode bs < 256 ^ bs.length := by
  rw [← decode_reverse, ← List.length_reverse]
  exact BigEndian.decode_lt _

/-- The low `n` bytes of `x`, least significant first. -/
def encode (n x : Nat) : List UInt8 := (BigEndian.encode n x).reverse

@[simp] theorem length_encode (n x : Nat) : (encode n x).length = n := by
  rw [encode, List.length_reverse, BigEndian.length_encode]

theorem decode_encode {n x : Nat} (h : x < 256 ^ n) : decode (encode n x) = x := by
  rw [encode, ← decode_reverse, List.reverse_reverse, BigEndian.decode_encode h]

end LittleEndian
