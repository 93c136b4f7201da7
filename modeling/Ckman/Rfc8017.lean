import Ckman.BigEndian
import Ckman.Der
import Mathlib.Data.Nat.Size

/-!
# RSASSA-PKCS1-v1_5

The signature verification of RFC 8017 over numbers and octet strings, with the
hash value already in its DER encoding.
-/
namespace Rfc8017

abbrev Octets := List UInt8

def octets (n : Nat) : Nat := if n = 0 then 0 else Nat.log 256 n + 1

def os2ip (x : Octets) : Nat := BigEndian.decode x

/-- `none` is "integer too large". -/
def i2osp (x length : Nat) : Option Octets :=
  if x < 256 ^ length then some (BigEndian.encode length x) else none

structure PublicKey where
  n : Nat
  e : Nat
  deriving DecidableEq, Repr

/-- `none` is "signature representative out of range". -/
def PublicKey.rsavp1 (key : PublicKey) (s : Nat) : Option Nat :=
  if s < key.n then some (s ^ key.e % key.n) else none

/-- DER of `SEQUENCE { SEQUENCE { OID, NULL }, OCTET STRING }`. -/
def digestInfo (oid digest : Octets) : Octets :=
  Der.tlv 0x30 (Der.tlv 0x30 (Der.tlv 0x06 oid ++ Der.tlv 0x05 []) ++ Der.tlv 0x04 digest)

/-- EMSA-PKCS1-v1_5; `none` is "intended encoded message length too short". -/
def emsaEncode (info : Octets) (length : Nat) : Option Octets :=
  if length < info.length + 11 then none
  else some ([0x00, 0x01] ++ List.replicate (length - info.length - 3) 0xff ++ [0x00] ++ info)

/-- RSASSA-PKCS1-V1_5-VERIFY: the length is checked, the message is recovered
and encoded again, and the two are compared. -/
def verify (key : PublicKey) (info signature : Octets) : Bool :=
  let k := octets key.n
  if signature.length = k then
    match (key.rsavp1 (os2ip signature)).bind (i2osp · k), emsaEncode info k with
    | some em, some expected => em = expected
    | _, _ => false
  else false

/-- A valid signature has the length of the modulus, is below it, and its power
is the encoded hash value. -/
structure Valid (key : PublicKey) (info signature : Octets) : Prop where
  length : signature.length = octets key.n
  range : os2ip signature < key.n
  encoded : emsaEncode info (octets key.n) =
    some (BigEndian.encode (octets key.n) (os2ip signature ^ key.e % key.n))

theorem lt_octets (n : Nat) : n < 256 ^ octets n := by
  by_cases h : n = 0
  · simp [octets, h]
  · rw [octets, if_neg h]
    exact Nat.lt_pow_succ_log_self (by decide) n

/-- The number of octets from the number of bits. -/
theorem size_div (n : Nat) : (n.size + 7) / 8 = octets n := by
  by_cases h : n = 0
  · subst h
    rfl
  · rw [octets, if_neg h]
    have hpow : ∀ k, 256 ^ k = 2 ^ (8 * k) := fun k => by rw [pow_mul]; rfl
    have hlow : 8 * Nat.log 256 n < n.size := by
      rw [Nat.lt_size, ← hpow]
      exact Nat.pow_log_le_self 256 h
    have hhigh : n.size ≤ 8 * (Nat.log 256 n + 1) := by
      rw [Nat.size_le, ← hpow]
      exact Nat.lt_pow_succ_log_self (by decide) n
    omega

variable {key : PublicKey} {info signature : Octets}

/-- The power of a signature in range is always written. -/
theorem rsavp1_i2osp (s : Nat) :
    (key.rsavp1 s).bind (i2osp · (octets key.n)) =
      if s < key.n then some (BigEndian.encode (octets key.n) (s ^ key.e % key.n)) else none := by
  rw [PublicKey.rsavp1]
  by_cases hrange : s < key.n
  · have hpower : s ^ key.e % key.n < 256 ^ octets key.n :=
      lt_trans (Nat.mod_lt _ (Nat.zero_lt_of_lt hrange)) (lt_octets key.n)
    rw [if_pos hrange, if_pos hrange, Option.bind_some, i2osp, if_pos hpower]
  · rw [if_neg hrange, if_neg hrange, Option.bind_none]

theorem verify_iff_valid : verify key info signature = true ↔ Valid key info signature := by
  have hcases : verify key info signature = true ↔ signature.length = octets key.n ∧ os2ip signature < key.n ∧
      emsaEncode info (octets key.n) =
        some (BigEndian.encode (octets key.n) (os2ip signature ^ key.e % key.n)) := by
    rw [verify, rsavp1_i2osp]
    by_cases hlength : signature.length = octets key.n
    · by_cases hrange : os2ip signature < key.n
      · cases emsaEncode info (octets key.n) <;> simp [hlength, hrange, eq_comm]
      · simp [hlength, hrange]
    · simp [hlength]
  rw [hcases]
  exact ⟨fun ⟨hlength, hrange, hencoded⟩ => ⟨hlength, hrange, hencoded⟩,
    fun ⟨hlength, hrange, hencoded⟩ => ⟨hlength, hrange, hencoded⟩⟩

/-- What is encoded has the length asked for and at least eight octets of
padding. -/
theorem emsaEncode_eq_some {length : Nat} {em : Octets} (h : emsaEncode info length = some em) :
    em.length = length ∧
      ∃ padding, 8 ≤ padding ∧ em = [0x00, 0x01] ++ List.replicate padding 0xff ++ [0x00] ++ info := by
  rw [emsaEncode] at h
  split_ifs at h with hshort
  cases h
  refine ⟨?_, _, ?_, rfl⟩
  · simp only [List.length_append, List.length_cons, List.length_nil, List.length_replicate]
    omega
  · omega

theorem emsaEncode_eq_none_iff {length : Nat} : emsaEncode info length = none ↔ length < info.length + 11 := by
  rw [emsaEncode]
  split_ifs with hshort <;> simp [hshort]

end Rfc8017
