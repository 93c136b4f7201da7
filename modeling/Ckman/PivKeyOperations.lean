import Ckman.X509Building

/-!
# Operations with the private keys of the PIV applet

What the host asks the card to do with a private key. A message is prepared for
the key: hashed, padded or left to the card. The algorithm identifier of a
certificate names a signature scheme, and the prepared operation is the one that
this scheme prescribes.
-/
namespace PivKeys

open Host X509
open Piv (Algorithm Slot)
open RsaSignature (HashAlgorithm rsaPkcs1v15Encode)

inductive SignInput where
  | rsaEncodedBlock (block : Bytes)
  | digest (digest : Bytes)
  | message (message : Bytes)
  deriving DecidableEq, Repr

inductive StreamingSignInput where
  | sm2 (message : Bytes) (userId : Option Bytes)
  | mlDsa65 (message : Bytes)
  deriving DecidableEq, Repr

inductive SignOperation where
  | sign (algorithm : Algorithm) (input : SignInput)
  | streaming (input : StreamingSignInput)
  deriving DecidableEq, Repr

inductive Sm2Role where
  | initiator | responder
  deriving DecidableEq, Repr

structure Sm2AgreementInput where
  role : Sm2Role
  peerStatic : Bytes
  peerEphemeral : Bytes
  userId : Option Bytes
  peerId : Option Bytes
  keyLen : UInt16
  deriving DecidableEq, Repr

structure Sm2Agreement where
  key : Bytes
  ephemeralPublic : Bytes
  deriving DecidableEq, Repr

inductive KeyOperation where
  | sign (operation : SignOperation)
  | decrypt (algorithm : Algorithm) (ciphertext : Bytes)
  | derive (algorithm : Algorithm) (peer : Bytes)
  | decapsulate (ciphertext : Bytes)
  | agreeSm2 (input : Sm2AgreementInput)
  deriving DecidableEq, Repr

abbrev KeyOperation.Output : KeyOperation → Type
  | .agreeSm2 _ => Sm2Agreement
  | _ => Bytes

def modulusBytes : Algorithm → Nat
  | .rsa1024 => 128
  | .rsa2048 => 256
  | .rsa3072 => 384
  | _ => 512

-- `HashAlgorithm::hash`.
variable (digest : HashAlgorithm → Bytes → Bytes)

/-- The operation that `sign_message` asks the card for. -/
def messageOperation (algorithm : Algorithm) (hash : Option HashAlgorithm) (message : Bytes) :
    Except BuildError SignOperation :=
  match algorithm with
  | .rsa1024 | .rsa2048 | .rsa3072 | .rsa4096 => do
    let hash ← okOr hash .unsupportedHash
    let encoded ← (rsaPkcs1v15Encode digest hash message (modulusBytes algorithm)).mapError fun _ => .unsupportedHash
    pure (.sign algorithm (.rsaEncodedBlock encoded))
  | .eccP256 | .eccP384 | .eccP521 | .secp256k1 => do
    let hash ← okOr hash .unsupportedHash
    pure (.sign algorithm (.digest (digest hash message)))
  | .ed25519 => pure (.sign algorithm (.message message))
  -- Firmware computes SM3(ZA || M) itself; the default user ID applies.
  | .sm2 => pure (.streaming (.sm2 message none))
  -- Pure ML-DSA-65 with the firmware's hardcoded empty context.
  | .mlDsa65 => pure (.streaming (.mlDsa65 message))
  | .x25519 => .error (.notSigning "X25519")
  | .mlKem768 => .error (.notSigning "ML-KEM-768")

inductive Scheme where
  | pkcs1 (hash : HashAlgorithm)
  | ecdsa (hash : HashAlgorithm)
  | ed25519
  | sm2
  | mlDsa65
  deriving DecidableEq, Repr

namespace Scheme

def oid : Scheme → String
  | pkcs1 hash => rsaOid hash
  | ecdsa hash => ecdsaOid hash
  | ed25519 => "1.3.101.112"
  | sm2 => "1.2.156.10197.1.501"
  | mlDsa65 => "2.16.840.1.101.3.4.3.18"

def keys : Scheme → List Algorithm
  | pkcs1 _ => [.rsa1024, .rsa2048, .rsa3072, .rsa4096]
  | ecdsa _ => [.eccP256, .eccP384, .eccP521, .secp256k1]
  | ed25519 => [.ed25519]
  | sm2 => [.sm2]
  | mlDsa65 => [.mlDsa65]

def hash : Scheme → Option HashAlgorithm
  | pkcs1 hash | ecdsa hash => some hash
  | ed25519 | sm2 | mlDsa65 => none

/-- The parameters of the identifier: NULL for RSA, absent otherwise. -/
def parameters : Scheme → Option Any
  | pkcs1 _ => some Any.null
  | _ => none

/-- What the card has to do so that a key signs a message by the scheme: the raw
operation on the encoded message of RFC 8017, on the digest, or on the message. -/
def Signs (scheme : Scheme) (key : Algorithm) (message : Bytes) (operation : SignOperation) : Prop :=
  match scheme with
  | pkcs1 hash => ∃ encoded, Rfc8017.emsaEncode (Rfc8017.digestInfo hash.oid (digest hash message))
      (modulusBytes key) = some encoded ∧ operation = .sign key (.rsaEncodedBlock encoded)
  | ecdsa hash => operation = .sign key (.digest (digest hash message))
  | ed25519 => operation = .sign key (.message message)
  | sm2 => operation = .streaming (.sm2 message none)
  | mlDsa65 => operation = .streaming (.mlDsa65 message)

end Scheme

section Schemes

variable {digest} {key : Algorithm} {hash : Option HashAlgorithm}

/-- An identifier is found exactly for a key and the hash of one of its schemes. -/
theorem signatureOid_ok_iff {oid : String} : signatureOid key hash = .ok oid ↔
    ∃ scheme : Scheme, key ∈ scheme.keys ∧ hash = scheme.hash ∧ oid = scheme.oid := by
  constructor
  · intro h
    cases key with
    | x25519 | mlKem768 => cases h
    | ed25519 =>
      cases hash with
      | some hash => cases h
      | none => exact ⟨.ed25519, by simp [Scheme.keys], rfl, (Except.ok.inj h).symm⟩
    | sm2 =>
      cases hash with
      | some hash => cases h
      | none => exact ⟨.sm2, by simp [Scheme.keys], rfl, (Except.ok.inj h).symm⟩
    | mlDsa65 =>
      cases hash with
      | some hash => cases h
      | none => exact ⟨.mlDsa65, by simp [Scheme.keys], rfl, (Except.ok.inj h).symm⟩
    | rsa1024 | rsa2048 | rsa3072 | rsa4096 =>
      cases hash with
      | none => cases h
      | some hash => exact ⟨.pkcs1 hash, by simp [Scheme.keys], rfl, (Except.ok.inj h).symm⟩
    | eccP256 | eccP384 | eccP521 | secp256k1 =>
      cases hash with
      | none => cases h
      | some hash => exact ⟨.ecdsa hash, by simp [Scheme.keys], rfl, (Except.ok.inj h).symm⟩
  · rintro ⟨scheme, hkey, rfl, rfl⟩
    cases scheme <;> simp only [Scheme.keys, List.mem_cons, List.not_mem_nil, or_false] at hkey
    case pkcs1 h => rcases hkey with rfl | rfl | rfl | rfl <;> rfl
    case ecdsa h => rcases hkey with rfl | rfl | rfl | rfl <;> rfl
    all_goals subst hkey; rfl

/-- A message is prepared as the scheme prescribes. Only an RSA key can be too short
for it. -/
theorem messageOperation_signs (hlength : ∀ hash message, (digest hash message).length = hash.outputLength)
    {scheme : Scheme} (hkey : key ∈ scheme.keys) {message : Bytes} {operation : SignOperation}
    (h : messageOperation digest key scheme.hash message = .ok operation) :
    scheme.Signs digest key message operation := by
  cases scheme with
  | pkcs1 hash =>
    have hrsa : ((rsaPkcs1v15Encode digest hash message (modulusBytes key)).mapError
        (fun _ => BuildError.unsupportedHash) >>= fun encoded => pure (.sign key (.rsaEncodedBlock encoded))) =
        .ok operation := by
      simp only [Scheme.keys, List.mem_cons, List.not_mem_nil, or_false] at hkey
      rcases hkey with rfl | rfl | rfl | rfl <;> exact h
    rw [RsaSignature.rsaPkcs1v15Encode_eq hlength] at hrsa
    rw [Scheme.Signs]
    cases hencoded : Rfc8017.emsaEncode (Rfc8017.digestInfo hash.oid (digest hash message)) (modulusBytes key) with
    | none =>
      rw [hencoded] at hrsa
      cases hrsa
    | some encoded =>
      rw [hencoded] at hrsa
      exact ⟨encoded, rfl, (Except.ok.inj hrsa).symm⟩
  | ecdsa hash =>
    simp only [Scheme.keys, List.mem_cons, List.not_mem_nil, or_false] at hkey
    rcases hkey with rfl | rfl | rfl | rfl <;> exact (Except.ok.inj h).symm
  | ed25519 | sm2 | mlDsa65 =>
    simp only [Scheme.keys, List.mem_singleton] at hkey
    subst hkey
    exact (Except.ok.inj h).symm

/-- The identifier of a certificate, in terms of the scheme that it names. -/
theorem signatureAlgorithm_ok {codec : Codec} (hcodec : codec.Documented) {algorithm : AlgorithmIdentifier}
    (h : signatureAlgorithm codec key hash = .ok algorithm) :
    ∃ scheme : Scheme, key ∈ scheme.keys ∧ hash = scheme.hash ∧ algorithm.oid.dotted = scheme.oid ∧
      algorithm.parameters = scheme.parameters := by
  rw [signatureAlgorithm] at h
  cases hoid : signatureOid key hash with
  | error e =>
    rw [hoid] at h
    cases h
  | ok text =>
    obtain ⟨scheme, hkey, hhash, rfl⟩ := signatureOid_ok_iff.mp hoid
    cases hparsed : codec.oid scheme.oid with
    | error e =>
      rw [hoid] at h
      simp [codecError, hparsed, Except.mapError, Bind.bind, Except.bind] at h
    | ok oid =>
      rw [hoid] at h
      simp only [codecError, hparsed, Except.mapError, Bind.bind, Except.bind, pure, Except.pure] at h
      obtain rfl := Except.ok.inj h
      refine ⟨scheme, hkey, hhash, hcodec.oid _ _ hparsed, ?_⟩
      cases scheme <;> simp only [Scheme.keys, List.mem_cons, List.not_mem_nil, or_false] at hkey
      case pkcs1 h => rcases hkey with rfl | rfl | rfl | rfl <;> rfl
      case ecdsa h => rcases hkey with rfl | rfl | rfl | rfl <;> rfl
      all_goals subst hkey; rfl

end Schemes

end PivKeys
