import Ckman.Attestation
import Ckman.BigEndian
import Ckman.Pem
import Ckman.PivSlots
import Mathlib.Data.Nat.Log
import Mathlib.Data.Nat.Size

/-!
# Private keys

The key module: PKCS#8 (plain and encrypted), PKCS#1 RSA and SEC1 EC keys and
the seed formats. DER decoding, decryption, curve arithmetic, RSA and the
post-quantum key generation belong to other crates and are parameters.
-/
namespace Keys

open Host
open X509 (Oid Any)
open Attestation (AlgorithmIdentifier BitString)
open Pem (KeyError)
open Piv (Algorithm)

inductive Material where
  | rsa (exponent : { bytes : Bytes // bytes.length = 4 }) (p q dp dq qinv : Bytes)
  /-- An EC scalar or a seed; the algorithm says which. -/
  | ec (bytes : Bytes)
  deriving DecidableEq, Repr

structure ImportedKey where
  algorithm : Algorithm
  material : Material
  deriving DecidableEq, Repr

/-- `rsa::RsaPrivateKey`. -/
structure RsaPrivateKey where
  n : Nat
  e : Nat
  d : Nat
  primes : List Nat
  deriving DecidableEq, Repr

/-- `pkcs1::RsaPublicKey`, by the bytes of its integers. -/
structure RsaPublicKey where
  modulus : Bytes
  publicExponent : Bytes
  deriving DecidableEq, Repr

/-- SEC1 ECPrivateKey, including its optional curve and public point. -/
structure EcPrivateKey where
  version : UInt8
  privateKey : Bytes
  parameters : Option Oid
  publicKey : Option BitString
  deriving DecidableEq, Repr

/-- `pkcs8::PrivateKeyInfo`. -/
structure PrivateKeyInfo where
  algorithm : AlgorithmIdentifier
  privateKey : Bytes
  publicKey : Option Bytes
  deriving DecidableEq, Repr

/-- The form of a post-quantum key with its seed and its expanded key. -/
structure Both where
  seed : Bytes
  expandedKey : Bytes
  deriving DecidableEq, Repr

structure Pbkdf2Params where
  salt : Bytes
  iterationCount : Nat
  keyLength : Option Nat
  prf : String
  deriving DecidableEq, Repr

structure ScryptParams where
  salt : Bytes
  costParameter : Nat
  blockSize : Nat
  parallelization : Nat
  keyLength : Option Nat
  deriving DecidableEq, Repr

inductive Kdf where
  | pbkdf2 (params : Pbkdf2Params)
  | scrypt (params : ScryptParams)
  deriving DecidableEq, Repr

def Kdf.keyLength : Kdf → Option Nat
  | .pbkdf2 params => params.keyLength
  | .scrypt params => params.keyLength

/-- `pbes2::EncryptionScheme`. -/
inductive Cipher where
  | aes128Cbc (iv : Bytes)
  | aes192Cbc (iv : Bytes)
  | aes256Cbc (iv : Bytes)
  deriving DecidableEq, Repr

def Cipher.keySize : Cipher → Nat
  | .aes128Cbc _ => 16
  | .aes192Cbc _ => 24
  | .aes256Cbc _ => 32

/-- `pkcs5::EncryptionScheme`; the parameters of PBES1 are not read. -/
inductive EncryptionScheme where
  | pbes1 (parameters : Bytes)
  | pbes2 (kdf : Kdf) (encryption : Cipher)
  deriving DecidableEq, Repr

/-- `pkcs8::EncryptedPrivateKeyInfo`. -/
structure EncryptedPrivateKeyInfo where
  encryptionAlgorithm : EncryptionScheme
  encryptedData : Bytes
  deriving DecidableEq, Repr

inductive Curve where
  | p256 | p384 | p521 | k256 | sm2
  deriving DecidableEq, Repr

/-- What a key generation from a seed returns. -/
structure Derived where
  pub : Bytes
  expanded : Bytes
  deriving DecidableEq, Repr

/-- The functions of other crates; `Secret` and `Point` are the key types of
the curve crates. -/
structure Crates (Secret Point : Type) where
  /-- `PrivateKeyInfo::from_der`. -/
  privateKeyInfo : Bytes → Option PrivateKeyInfo
  /-- `EncryptedPrivateKeyInfo::from_der`. -/
  encryptedPrivateKeyInfo : Bytes → Option EncryptedPrivateKeyInfo
  /-- `EcPrivateKey::from_der`. -/
  ecPrivateKey : Bytes → Option EcPrivateKey
  /-- `OctetStringRef::from_der`. -/
  octetString : Bytes → Option Bytes
  /-- `AnyRef::from_der`. -/
  anyRef : Bytes → Option Any
  /-- `Both::from_der`. -/
  both : Bytes → Option Both
  /-- `AnyRef::decode_as::<ObjectIdentifier>`. -/
  decodeOid : Any → Option Oid
  /-- `RsaPrivateKey::from_pkcs1_der`. -/
  rsaPrivateKey : Bytes → Option RsaPrivateKey
  /-- `RsaPrivateKey::to_pkcs1_der`. -/
  rsaPrivateDer : RsaPrivateKey → Option Bytes
  /-- `pkcs1::RsaPublicKey::from_der`. -/
  rsaPublicKey : Bytes → Option RsaPublicKey
  /-- `RsaPrivateKey::crt_coefficient`. -/
  crtCoefficient : RsaPrivateKey → Option Nat
  /-- `PrivateKeyMaterial::ec_scalar` accepts the scalar. -/
  ecScalar : Algorithm → Bytes → Bool
  /-- `SecretKey::from_slice`. -/
  secretKey : Curve → Bytes → Option Secret
  /-- `SecretKey::public_key`. -/
  publicOf : Curve → Secret → Point
  /-- `PublicKey::from_sec1_bytes`. -/
  publicKey : Curve → Bytes → Option Point
  /-- `MontgomeryPoint::mul_base_clamped`, as bytes. -/
  montgomeryBase : Bytes → Bytes
  /-- `EdwardsPoint::mul_base_clamped`, compressed. -/
  edwardsBase : Bytes → Bytes
  sha512 : Bytes → Bytes
  /-- `ml_dsa_65::KG::keygen_from_seed`. -/
  mlDsa65 : Bytes → Derived
  /-- `ml_kem_768::KG::keygen_from_seed` on `d` and `z`. -/
  mlKem768 : Bytes → Bytes → Derived
  /-- `scrypt::Params::try_from` accepts the parameters. -/
  scryptParams : ScryptParams → Bool
  /-- `EncryptedPrivateKeyInfo::decrypt` with a password. -/
  decryptKey : EncryptedPrivateKeyInfo → Bytes → Option Bytes

/-- `BigUint::to_bytes_be`: as few bytes as the number has, one for zero. -/
def toBytesBe (n : Nat) : Bytes := BigEndian.encode (Nat.log 256 n + 1) n

theorem decode_toBytesBe (n : Nat) : BigEndian.decode (toBytesBe n) = n :=
  BigEndian.decode_encode (Nat.lt_pow_succ_log_self (by decide) n)

variable {Secret Point : Type} (crates : Crates Secret Point)

/-- The components that the applets take. A key that was read has primes above
one, so that no divisor is zero. -/
def rsaMaterial (key : RsaPrivateKey) : Except KeyError Material :=
  match key.primes with
  | [p, q] => do
    let dp := key.d % (p - 1)
    let dq := key.d % (q - 1)
    let qinv ← okOr (crates.crtCoefficient key) .encoding
    let exponentBytes := toBytesBe key.e
    if h : exponentBytes.length ≤ 4 then
      let exponent := List.replicate (4 - exponentBytes.length) 0 ++ exponentBytes
      .ok (.rsa ⟨exponent, by simp only [exponent, List.length_append, List.length_replicate]; omega⟩
        (toBytesBe p) (toBytesBe q) (toBytesBe dp) (toBytesBe dq) (toBytesBe qinv))
    else .error .unsupported
  | _ => .error .unsupported

def rsaImported (key : RsaPrivateKey) : Except KeyError ImportedKey :=
  if key.n.size = 1024 then (rsaMaterial crates key).map (⟨.rsa1024, ·⟩)
  else if key.n.size = 2048 then (rsaMaterial crates key).map (⟨.rsa2048, ·⟩)
  else if key.n.size = 3072 then (rsaMaterial crates key).map (⟨.rsa3072, ·⟩)
  else if key.n.size = 4096 then (rsaMaterial crates key).map (⟨.rsa4096, ·⟩)
  else .error .unsupported

/-- Read a key and compare its canonical encoding with the input, which rejects
inconsistent CRT fields. -/
def decodeRsaPrivate (der : Bytes) : Except KeyError RsaPrivateKey := do
  let key ← okOr (crates.rsaPrivateKey der) .encoding
  let canonical ← okOr (crates.rsaPrivateDer key) .encoding
  refuse (canonical ≠ der) .encoding
  pure key

def fromPkcs1 (der : Bytes) : Except KeyError ImportedKey := do
  let key ← decodeRsaPrivate crates der
  rsaImported crates key

def curveAlgorithm (curve : Oid) : Option Algorithm :=
  if curve.dotted = "1.2.840.10045.3.1.7" then some .eccP256
  else if curve.dotted = "1.3.132.0.34" then some .eccP384
  else if curve.dotted = "1.3.132.0.35" then some .eccP521
  else if curve.dotted = "1.3.132.0.10" then some .secp256k1
  else if curve.dotted = "1.2.156.10197.1.301" then some .sm2
  else none

def curveOf : Algorithm → Option Curve
  | .eccP256 => some .p256
  | .eccP384 => some .p384
  | .eccP521 => some .p521
  | .secp256k1 => some .k256
  | .sm2 => some .sm2
  | _ => none

/-- The same fixed-width and range checks as the card import. -/
def ecImported (algorithm : Algorithm) (bytes : Bytes) : Except KeyError ImportedKey := do
  refuse (crates.ecScalar algorithm bytes = false) .encoding
  pure ⟨algorithm, .ec bytes⟩

def validateEcPublicKey [DecidableEq Point] (algorithm : Algorithm) (scalar pub : Bytes) :
    Except KeyError Unit :=
  match curveOf algorithm with
  | none => .error .unsupported
  | some curve => do
    let secret ← okOr (crates.secretKey curve scalar) .encoding
    let supplied ← okOr (crates.publicKey curve pub) .encoding
    refuse (crates.publicOf curve secret ≠ supplied) .encoding

def checkInnerPublic [DecidableEq Point] (algorithm : Algorithm) (scalar : Bytes) :
    Option BitString → Except KeyError Unit
  | none => pure ()
  | some bits => do
    let pub ← okOr bits.asBytes .encoding
    validateEcPublicKey crates algorithm scalar pub

def fromEcPrivate [DecidableEq Point] (der : Bytes) (outerCurve : Option Oid) :
    Except KeyError ImportedKey := do
  let key ← okOr (crates.ecPrivateKey der) .encoding
  refuse (key.version ≠ 1) .encoding
  refuse (outerCurve.isSome ∧ key.parameters.isSome ∧ outerCurve ≠ key.parameters) .encoding
  let curve ← okOr (outerCurve.or key.parameters) .encoding
  let algorithm ← okOr (curveAlgorithm curve) .unsupported
  let imported ← ecImported crates algorithm key.privateKey
  checkInnerPublic crates algorithm key.privateKey key.publicKey
  pure imported

def fromSec1 [DecidableEq Point] (der : Bytes) : Except KeyError ImportedKey :=
  fromEcPrivate crates der none

namespace Pq

def widths : Algorithm → Option (Nat × Nat)
  | .mlDsa65 => some (32, 4032)
  | .mlKem768 => some (64, 2400)
  | _ => none

def octetStringTag : X509.Tag := .other 0x04
def sequenceTag : X509.Tag := .other 0x30

/-- The primitive context-specific tag `[0]`. -/
def implicitTag : X509.Tag := .other 0x80

def encodedSeed (privateKey : Bytes) (width expandedWidth : Nat) :
    Except KeyError (Bytes × Option Bytes) := do
  let value ← okOr (crates.anyRef privateKey) .encoding
  if value.tag = implicitTag then pure (value.value, none)
  else if value.tag = sequenceTag then do
    let both ← okOr (crates.both privateKey) .encoding
    refuse (both.expandedKey.length ≠ expandedWidth) .encoding
    pure (both.seed, some both.expandedKey)
  else if value.tag = octetStringTag ∧ value.value.length = width then pure (value.value, none)
  else if value.tag = octetStringTag ∧ value.value.length = expandedWidth then
    .error .unsupported
  else .error .encoding

def derive (algorithm : Algorithm) (seed : Bytes) : Except KeyError Derived :=
  match algorithm with
  | .mlDsa65 => do
    refuse (seed.length ≠ 32) .encoding
    pure (crates.mlDsa65 seed)
  | .mlKem768 => do
    refuse (seed.length ≠ 64) .encoding
    pure (crates.mlKem768 (seed.take 32) (seed.drop 32))
  | _ => .error .unsupported

/-- Redundant fields have to be the ones that the seed derives. -/
def checkDerived (algorithm : Algorithm) (seed : Bytes) (expanded publicKey : Option Bytes) :
    Except KeyError Unit :=
  if expanded.isSome ∨ publicKey.isSome then do
    let derived ← derive crates algorithm seed
    refuse (expanded.any (· ≠ derived.expanded) ∨ publicKey.any (· ≠ derived.pub)) .encoding
  else pure ()

def seed (algorithm : Algorithm) (privateKey : Bytes) (publicKey : Option Bytes) :
    Except KeyError Bytes :=
  match widths algorithm with
  | none => .error .unsupported
  | some (width, expandedWidth) => do
    let (seed, expanded) ← (if privateKey.length = width then .ok (privateKey, none)
      else encodedSeed crates privateKey width expandedWidth)
    refuse (seed.length ≠ width) .encoding
    checkDerived crates algorithm seed expanded publicKey
    pure seed

end Pq

def seedAlgorithm (oid : String) : Option (Algorithm × Nat) :=
  if oid = "1.3.101.112" then some (.ed25519, 32)
  else if oid = "1.3.101.110" then some (.x25519, 32)
  else if oid = "2.16.840.1.101.3.4.3.18" then some (.mlDsa65, 32)
  else if oid = "2.16.840.1.101.3.4.4.2" then some (.mlKem768, 64)
  else none

def seedPublicKey (algorithm : Algorithm) (seed : Bytes) : Except KeyError Bytes := do
  refuse (seed.length ≠ 32) .encoding
  match algorithm with
  | .x25519 => .ok (crates.montgomeryBase seed)
  | .ed25519 => .ok (crates.edwardsBase ((crates.sha512 seed).take 32))
  | _ => .error .unsupported

/-- The seed of a Curve25519 key: raw, or nested in an OCTET STRING. -/
def curve25519Seed (privateKey : Bytes) (width : Nat) : Except KeyError Bytes :=
  if privateKey.length = width then .ok privateKey
  else okOr (crates.octetString privateKey) .encoding

/-- The outer public key of a Curve25519 key; the post-quantum algorithms have
checked theirs with the seed. -/
def checkSeedPublic (algorithm : Algorithm) (seed : Bytes) (publicKey : Option Bytes) :
    Except KeyError Unit :=
  if algorithm = .ed25519 ∨ algorithm = .x25519 then
    match publicKey with
    | none => pure ()
    | some supplied => do
      let derived ← seedPublicKey crates algorithm seed
      refuse (supplied ≠ derived) .encoding
  else pure ()

def fromSeedOid (oid : String) (privateKey : Bytes) (publicKey : Option Bytes) :
    Except KeyError ImportedKey := do
  let (algorithm, width) ← okOr (seedAlgorithm oid) .unsupported
  let seed ← (if algorithm = .mlDsa65 ∨ algorithm = .mlKem768 then
      Pq.seed crates algorithm privateKey publicKey
    else curve25519Seed crates privateKey width)
  refuse (seed.length ≠ width) .encoding
  checkSeedPublic crates algorithm seed publicKey
  pure ⟨algorithm, .ec seed⟩

/-- `AnyRef::NULL`. -/
def null : Any := ⟨.other 0x05, []⟩

def checkRsaPublic (key : RsaPrivateKey) : Option Bytes → Except KeyError Unit
  | none => pure ()
  | some pub => do
    let supplied ← okOr (crates.rsaPublicKey pub) .encoding
    refuse (toBytesBe key.n ≠ supplied.modulus ∨ toBytesBe key.e ≠ supplied.publicExponent) .encoding

def checkOuterPublic [DecidableEq Point] (imported : ImportedKey) :
    Option Bytes → Except KeyError Unit
  | none => pure ()
  | some pub =>
    match imported.material with
    | .ec scalar => validateEcPublicKey crates imported.algorithm scalar pub
    | .rsa .. => .error .encoding

def rsaFromPkcs8 (info : PrivateKeyInfo) : Except KeyError ImportedKey := do
  refuse (info.algorithm.parameters.any (· ≠ null)) .encoding
  let key ← decodeRsaPrivate crates info.privateKey
  checkRsaPublic crates key info.publicKey
  rsaImported crates key

def ecFromPkcs8 [DecidableEq Point] (info : PrivateKeyInfo) : Except KeyError ImportedKey := do
  let curve ← okOr (info.algorithm.parameters.bind crates.decodeOid) .encoding
  let imported ← fromEcPrivate crates info.privateKey (some curve)
  checkOuterPublic crates imported info.publicKey
  pure imported

/-- The seed formats require absent parameters. -/
def seedFromPkcs8 (info : PrivateKeyInfo) : Except KeyError ImportedKey := do
  refuse info.algorithm.parameters.isSome .encoding
  fromSeedOid crates info.algorithm.oid.dotted info.privateKey info.publicKey

def fromPkcs8 [DecidableEq Point] (der : Bytes) : Except KeyError ImportedKey := do
  let info ← okOr (crates.privateKeyInfo der) .encoding
  if info.algorithm.oid.dotted = "1.2.840.113549.1.1.1" then rsaFromPkcs8 crates info
  else if info.algorithm.oid.dotted = "1.2.840.10045.2.1" then ecFromPkcs8 crates info
  else seedFromPkcs8 crates info

/-- A cost above one that is a power of two, in parameters that convert. -/
def checkScrypt (params : ScryptParams) : Except KeyError Unit := do
  refuse (params.costParameter < 2 ∨ 2 ^ Nat.log2 params.costParameter ≠ params.costParameter) .encoding
  refuse (crates.scryptParams params = false) .encoding

/-- A scheme that can be decrypted; no password is needed to refuse another. -/
def checkEncryptionScheme : EncryptionScheme → Except KeyError Unit
  | .pbes1 _ => .error .unsupportedEncryption
  | .pbes2 kdf encryption => do
    refuse (kdf.keyLength.any (· ≠ encryption.keySize)) .encoding
    match kdf with
    | .pbkdf2 params => refuse (params.iterationCount = 0) .encoding
    | .scrypt params => checkScrypt crates params

def decryptPkcs8 [DecidableEq Point] (der : Bytes) (password : Option Bytes) :
    Except KeyError ImportedKey := do
  let encrypted ← okOr (crates.encryptedPrivateKeyInfo der) .encoding
  checkEncryptionScheme crates encrypted.encryptionAlgorithm
  let password ← okOr password .password
  let decrypted ← okOr (crates.decryptKey encrypted password) .password
  fromPkcs8 crates decrypted

end Keys
