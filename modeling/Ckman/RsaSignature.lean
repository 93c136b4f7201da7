import Ckman.KeyExport
import Ckman.Rfc8017

/-!
# RSA signatures on the host

The padding of a message for the RSA operation of the card, and the check that
`keys export --verify` makes of the signature that the card returns.
-/
namespace RsaSignature

open Host Keys

set_option maxRecDepth 8000

inductive HashAlgorithm where
  | sha256
  | sha384
  | sha512
  deriving DecidableEq, Repr

namespace HashAlgorithm

/-- DER headers of the sequence, the OID with NULL, and the octet string. -/
def digestInfoPrefix : HashAlgorithm → Bytes
  | .sha256 =>
    [0x30, 0x31, 0x30, 0x0d, 0x06, 0x09, 0x60, 0x86, 0x48, 0x01, 0x65, 0x03, 0x04, 0x02, 0x01, 0x05, 0x00,
      0x04, 0x20]
  | .sha384 =>
    [0x30, 0x41, 0x30, 0x0d, 0x06, 0x09, 0x60, 0x86, 0x48, 0x01, 0x65, 0x03, 0x04, 0x02, 0x02, 0x05, 0x00,
      0x04, 0x30]
  | .sha512 =>
    [0x30, 0x51, 0x30, 0x0d, 0x06, 0x09, 0x60, 0x86, 0x48, 0x01, 0x65, 0x03, 0x04, 0x02, 0x03, 0x05, 0x00,
      0x04, 0x40]

def outputLength : HashAlgorithm → Nat
  | .sha256 => 32
  | .sha384 => 48
  | .sha512 => 64

/-- The contents of the OID `2.16.840.1.101.3.4.2.x`. -/
def oid : HashAlgorithm → Bytes
  | .sha256 => [0x60, 0x86, 0x48, 0x01, 0x65, 0x03, 0x04, 0x02, 0x01]
  | .sha384 => [0x60, 0x86, 0x48, 0x01, 0x65, 0x03, 0x04, 0x02, 0x02]
  | .sha512 => [0x60, 0x86, 0x48, 0x01, 0x65, 0x03, 0x04, 0x02, 0x03]

end HashAlgorithm

inductive X509Error where
  | unsupportedHash
  deriving DecidableEq, Repr

/-- `rsa::Error`. -/
inductive RsaError where
  | verification
  deriving DecidableEq, Repr

structure RsaPublicKey where
  n : Nat
  e : Nat
  deriving DecidableEq, Repr

def RsaPublicKey.size (key : RsaPublicKey) : Nat := (key.n.size + 7) / 8

/-- `BigUint::modpow`. -/
def modpow (base exponent modulus : Nat) : Nat := base ^ exponent % modulus

/-- `Vec::resize`. -/
def resize (bytes : Bytes) (length : Nat) (value : UInt8) : Bytes :=
  bytes.take length ++ List.replicate (length - bytes.length) value

section Program

-- `HashAlgorithm::hash`.
variable (hash : HashAlgorithm → Bytes → Bytes)

/-- EMSA-PKCS1-v1_5 encoded message for an RSA private operation: hash the
message, wrap in DigestInfo, pad to the modulus width. -/
def rsaPkcs1v15Encode (algorithm : HashAlgorithm) (message : Bytes) (modulusBytes : Nat) :
    Except X509Error Bytes := do
  let info := algorithm.digestInfoPrefix ++ hash algorithm message
  refuse (modulusBytes < info.length + 11) .unsupportedHash
  pure (resize [0, 1] (modulusBytes - info.length - 1) 0xff ++ [0] ++ info)

def rsaPkcs1v15Verify (key : RsaPublicKey) (message signature : Bytes) : Except RsaError Bool :=
  let modulusBytes := key.size
  match rsaPkcs1v15Encode hash .sha256 message modulusBytes with
  | .error _ => .error .verification
  | .ok expected =>
    if signature.length ≠ modulusBytes then .ok false
    else
      let signatureInt := BigEndian.decode signature
      if key.n ≤ signatureInt then .ok false
      else
        let em := toBytesBe (modpow signatureInt key.e key.n)
        let padded := List.replicate (modulusBytes - em.length) 0 ++ em
        .ok (padded = expected)

end Program

section Correctness

variable {hash : HashAlgorithm → Bytes → Bytes}

/-- The headers and a digest of the right length are the DER of the digest. -/
theorem digestInfo_eq (algorithm : HashAlgorithm) {digest : Bytes} (h : digest.length = algorithm.outputLength) :
    algorithm.digestInfoPrefix ++ digest = Rfc8017.digestInfo algorithm.oid digest := by
  cases algorithm <;>
    simp [HashAlgorithm.digestInfoPrefix, HashAlgorithm.oid, HashAlgorithm.outputLength, Rfc8017.digestInfo, Der.tlv,
      Der.lengthBytes] at h ⊢ <;> simp [h]

/-- The encoder is that of the standard. -/
theorem rsaPkcs1v15Encode_eq (hlength : ∀ algorithm message, (hash algorithm message).length = algorithm.outputLength)
    (algorithm : HashAlgorithm) (message : Bytes) (modulusBytes : Nat) :
    rsaPkcs1v15Encode hash algorithm message modulusBytes =
      okOr (Rfc8017.emsaEncode (Rfc8017.digestInfo algorithm.oid (hash algorithm message)) modulusBytes)
        .unsupportedHash := by
  rw [rsaPkcs1v15Encode, digestInfo_eq algorithm (hlength algorithm message), Rfc8017.emsaEncode]
  by_cases hshort : modulusBytes <
      (Rfc8017.digestInfo algorithm.oid (hash algorithm message)).length + 11
  · simp [refuse, okOr, hshort]
  · generalize Rfc8017.digestInfo algorithm.oid (hash algorithm message) = info at hshort ⊢
    have htake : ([0, 1] : Bytes).take (modulusBytes - info.length - 1) = [0, 1] :=
      List.take_of_length_le (by simp only [List.length_cons, List.length_nil]; omega)
    have hpadding : modulusBytes - info.length - 1 - 2 = modulusBytes - info.length - 3 := by omega
    simp only [refuse, hshort, if_false, okOr, Except.ok_bind, resize, htake, List.length_cons, List.length_nil,
      Nat.zero_add, Nat.reduceAdd, hpadding]
    rfl

theorem size_eq_octets (key : RsaPublicKey) : key.size = Rfc8017.octets key.n := Rfc8017.size_div key.n

/-- The leading zeros that the conversion to bytes drops are put back. -/
theorem padded_eq {n width : Nat} (hwidth : 0 < width) (h : n < 256 ^ width) :
    List.replicate (width - (toBytesBe n).length) 0 ++ toBytesBe n = BigEndian.encode width n := by
  have hpad := pad_toBytesBe (n := n) hwidth
  rw [pad, if_pos h, Except.bind_eq_ok_iff] at hpad
  obtain ⟨-, -, hpad⟩ := hpad
  exact Except.ok.inj hpad

/-- The power of a signature in range, in as many bytes as the modulus has. -/
theorem padded_power (key : RsaPublicKey) {s : Nat} (h : s < key.n) :
    List.replicate (key.size - (toBytesBe (modpow s key.e key.n)).length) 0 ++ toBytesBe (modpow s key.e key.n) =
      BigEndian.encode key.size (s ^ key.e % key.n) := by
  have hpower : modpow s key.e key.n < 256 ^ key.size := by
    rw [size_eq_octets]
    exact lt_trans (Nat.mod_lt _ (Nat.zero_lt_of_lt h)) (Rfc8017.lt_octets key.n)
  have hpositive : 0 < key.size := by
    rw [size_eq_octets, Rfc8017.octets, if_neg (Nat.ne_zero_of_lt h)]
    exact Nat.succ_pos _
  exact padded_eq hpositive hpower

/-- The check accepts what the verification of the standard accepts. -/
theorem rsaPkcs1v15Verify_iff (hlength : ∀ algorithm message, (hash algorithm message).length = algorithm.outputLength)
    (key : RsaPublicKey) (message signature : Bytes) :
    rsaPkcs1v15Verify hash key message signature = .ok true ↔
      Rfc8017.verify ⟨key.n, key.e⟩ (Rfc8017.digestInfo HashAlgorithm.sha256.oid (hash .sha256 message)) signature =
        true := by
  generalize hinfo : Rfc8017.digestInfo HashAlgorithm.sha256.oid (hash .sha256 message) = info
  rw [rsaPkcs1v15Verify, rsaPkcs1v15Encode_eq hlength, hinfo, Rfc8017.verify, Rfc8017.rsavp1_i2osp,
    ← size_eq_octets, Rfc8017.os2ip]
  cases Rfc8017.emsaEncode info key.size with
  | none =>
    by_cases hlength : signature.length = key.size <;> simp [okOr]
  | some expected =>
    by_cases hlength : signature.length = key.size
    · by_cases hrange : BigEndian.decode signature < key.n
      · have hle : ¬ key.n ≤ BigEndian.decode signature := Nat.not_le.mpr hrange
        simp only [okOr, hlength, hle, hrange, padded_power key hrange]
        simp
      · simp [okOr, hlength, hrange, Nat.le_of_not_lt hrange]
    · simp [okOr, hlength]

/-- For every key, message and signature the check accepts exactly the valid
signatures of the standard, and for every hash the encoder gives the whole
block with at least eight bytes of padding or finds the modulus too short. -/
theorem rsaPkcs1v15_standard (hlength : ∀ algorithm message, (hash algorithm message).length = algorithm.outputLength) :
    (∀ key message signature,
      let info := Rfc8017.digestInfo HashAlgorithm.sha256.oid (hash .sha256 message)
      (rsaPkcs1v15Verify hash key message signature = .ok true ↔
        Rfc8017.verify ⟨key.n, key.e⟩ info signature = true) ∧
      (rsaPkcs1v15Verify hash key message signature = .ok true ↔
        signature.length = Rfc8017.octets key.n ∧ Rfc8017.os2ip signature < key.n ∧
          Rfc8017.emsaEncode info (Rfc8017.octets key.n) =
            some (BigEndian.encode (Rfc8017.octets key.n) (Rfc8017.os2ip signature ^ key.e % key.n)))) ∧
    ∀ algorithm message k,
      let info := Rfc8017.digestInfo algorithm.oid (hash algorithm message)
      (∀ em, rsaPkcs1v15Encode hash algorithm message k = .ok em →
        em.length = k ∧
          ∃ padding, 8 ≤ padding ∧ em = [0x00, 0x01] ++ List.replicate padding 0xff ++ [0x00] ++ info) ∧
      ((∃ error, rsaPkcs1v15Encode hash algorithm message k = .error error) ↔ k < info.length + 11) := by
  refine ⟨fun key message signature => ⟨rsaPkcs1v15Verify_iff hlength key message signature, ?_⟩,
    fun algorithm message k => ⟨fun em hem => ?_, ?_⟩⟩
  · rw [rsaPkcs1v15Verify_iff hlength, Rfc8017.verify_iff_valid]
    exact ⟨fun h => ⟨h.length, h.range, h.encoded⟩, fun h => ⟨h.1, h.2.1, h.2.2⟩⟩
  · rw [rsaPkcs1v15Encode_eq hlength, okOr_eq_ok_iff] at hem
    exact Rfc8017.emsaEncode_eq_some hem
  · rw [rsaPkcs1v15Encode_eq hlength, ← Rfc8017.emsaEncode_eq_none_iff]
    simp only [okOr_eq_error_iff, and_true]
    exact ⟨fun ⟨_, h⟩ => h, fun h => ⟨.unsupportedHash, h⟩⟩

end Correctness

/-! A 2048-bit key with a signature made by another implementation. -/

namespace Fixture

def key : RsaPublicKey where
  n := 0xb3e1bebbff199b6b2766c08b88c7dbca404f21e3ace6f755ad88b143ddb5148b090e14dec47def8bfab2edaa29d623bc0befc1e351b6c7704a1c03e09dded703734b6907259ac11e68153fb2fd7352fb158a7bc57d18e8d186243df687aa9772eb47dfb232dc5352b3bc39dfdfa8c54dbbeb2814a134ac880c92dcf99c956d3dd62b6d11284dba3cff7e83ac67154dafa7139a1119943ea539f7e8c494f7ac43b997a91beea2bb502eed453a37149ce544cbeb10ee3156c793c0c2514c5bfaffb4c2e3d6f4521f5c276aece6132cd8e0b5c9355367941ae92867bd7f3300aac8d192ee930c653df2ffcadae8f374b4a43538c621c56af553c5db220075754d8b
  e := 65537

def message : Bytes :=
  [0x63, 0x6b, 0x6d, 0x61, 0x6e, 0x20, 0x52, 0x53, 0x41, 0x20, 0x65, 0x78, 0x70, 0x6f, 0x72, 0x74, 0x20, 0x76,
    0x65, 0x72, 0x69, 0x66, 0x69, 0x63, 0x61, 0x74, 0x69, 0x6f, 0x6e, 0x20, 0x66, 0x69, 0x78, 0x74, 0x75,
    0x72, 0x65, 0x0a]

def signature : Bytes := BigEndian.encode 256
  0x22d0ab105a897ce786a10445bf3b0e5c98523880311168e1652dac16d1a7f3826e13d286699542fe6faed19f4b47f39a970f02abda92b5f109fb289c107fbfaf2d5374668bb66bb62f2cf0228fd38d75e3a9102ac6ba0b7cdb75cc5948892a5dc42978be79c0bdb6eff16f9cb6a75312f765f813ffb65fc5d4fd8b10e7d876462897d669784806ad65c995769908de21024f942438716b428a89caa7e3eae8b0011c7f774e0ed362c1ac9513e3a598b9161f0a3c567b944022bc79b4b7da0f93014ac130f0ae35a330f92689ef5f0f7bb38d841a51592fad5feaf0dfc47834c9f0235b61466c819c2a652fb60ff98a0a920d0010beb523e5e758165fff90c042

/-- The SHA-256 digest of the message; other digests are not looked at. -/
def hash (algorithm : HashAlgorithm) (text : Bytes) : Bytes :=
  if algorithm = .sha256 ∧ text = message then
    BigEndian.encode 32 0xadeaa50a0228e97847719af16f6baab43e458edec894523032798376a113eda
  else List.replicate algorithm.outputLength 0

theorem length_hash (algorithm : HashAlgorithm) (text : Bytes) :
    (hash algorithm text).length = algorithm.outputLength := by
  rw [hash]
  split
  · next h => rw [h.1, BigEndian.length_encode, HashAlgorithm.outputLength]
  · rw [List.length_replicate]

end Fixture

theorem rsaPkcs1v15_standard_fixture :
    rsaPkcs1v15Verify Fixture.hash Fixture.key Fixture.message Fixture.signature = .ok true ∧
      rsaPkcs1v15Verify Fixture.hash Fixture.key Fixture.message (0 :: Fixture.signature) ≠ .ok true ∧
      ∃ em, rsaPkcs1v15Encode Fixture.hash .sha256 Fixture.message 256 = .ok em ∧ em.length = 256 := by
  obtain ⟨hverify, hencode⟩ := rsaPkcs1v15_standard Fixture.length_hash
  have haccept : Rfc8017.verify ⟨Fixture.key.n, Fixture.key.e⟩
      (Rfc8017.digestInfo HashAlgorithm.sha256.oid (Fixture.hash .sha256 Fixture.message)) Fixture.signature = true := by
    decide +kernel
  have hlong : (0 :: Fixture.signature).length ≠ Rfc8017.octets Fixture.key.n := by decide
  have hroom : ¬ 256 < (Rfc8017.digestInfo HashAlgorithm.sha256.oid
      (Fixture.hash .sha256 Fixture.message)).length + 11 := by decide
  refine ⟨(hverify _ _ _).1.mpr haccept, fun h => hlong ((hverify _ _ _).2.mp h).1, ?_⟩
  cases hem : rsaPkcs1v15Encode Fixture.hash .sha256 Fixture.message 256 with
  | error error => exact absurd ((hencode .sha256 Fixture.message 256).2.mp ⟨error, hem⟩) hroom
  | ok em => exact ⟨em, rfl, ((hencode .sha256 Fixture.message 256).1 em hem).1⟩

end RsaSignature
