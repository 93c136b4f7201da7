import Ckman.PivSlots
import Ckman.RsaSignature
import Ckman.X509Name

/-!
# Building certificates and requests

The to-be-signed part of a certificate is encoded and signed once; the signed
bytes are then decoded again and assembled with the signature. The `der`,
`spki` and `x509_cert` crates are parameters.
-/
namespace X509

open Host
open Piv (Algorithm)
open RsaSignature (HashAlgorithm)

structure AlgorithmIdentifier where
  oid : Oid
  parameters : Option Any
  deriving DecidableEq, Repr

/-- `Any::null()`. -/
def Any.null : Any := ⟨.other 5, []⟩

structure BitString where
  unusedBits : Nat
  bytes : Bytes
  deriving DecidableEq, Repr

structure SubjectPublicKeyInfo where
  algorithm : AlgorithmIdentifier
  subjectPublicKey : BitString
  deriving DecidableEq, Repr

/-- A time by its seconds since the epoch, in one of its two encodings. -/
inductive Time where
  | utcTime (seconds : Nat)
  | generalTime (seconds : Nat)
  deriving DecidableEq, Repr

def Time.seconds : Time → Nat
  | utcTime seconds => seconds
  | generalTime seconds => seconds

structure Validity where
  notBefore : Time
  notAfter : Time
  deriving DecidableEq, Repr

inductive Version where
  | v1 | v2 | v3
  deriving DecidableEq, Repr

/-- The unique identifiers and the extensions are kept encoded. -/
structure TbsCertificate where
  version : Version
  serialNumber : Nat
  signature : AlgorithmIdentifier
  issuer : Name
  validity : Validity
  subject : Name
  subjectPublicKeyInfo : SubjectPublicKeyInfo
  issuerUniqueId : Option Bytes
  subjectUniqueId : Option Bytes
  extensions : Option Bytes
  deriving DecidableEq, Repr

structure Certificate where
  tbsCertificate : TbsCertificate
  signatureAlgorithm : AlgorithmIdentifier
  signature : BitString
  deriving DecidableEq, Repr

/-- A request with its attributes encoded. -/
structure CertReqInfo where
  version : Version
  subject : Name
  publicKey : SubjectPublicKeyInfo
  attributes : List Bytes
  deriving DecidableEq, Repr

structure CertReq where
  info : CertReqInfo
  algorithm : AlgorithmIdentifier
  signature : BitString
  deriving DecidableEq, Repr

structure Codec extends Der where
  /-- `SerialNumber::new`, by the number that the bytes stand for. -/
  serialNumber : Bytes → Except String Nat
  /-- `SubjectPublicKeyInfo::from_der`. -/
  spkiFromDer : Bytes → Except String SubjectPublicKeyInfo
  /-- `BitString::new`. -/
  bitString : Nat → Bytes → Except String BitString
  tbsToDer : TbsCertificate → Except String Bytes
  tbsFromDer : Bytes → Except String TbsCertificate
  certificateToDer : Certificate → Except String Bytes
  infoToDer : CertReqInfo → Except String Bytes
  infoFromDer : Bytes → Except String CertReqInfo
  requestToDer : CertReq → Except String Bytes

/-- Documented behaviour of the crates: what was encoded is read back. -/
structure Codec.Documented (codec : Codec) : Prop where
  /-- The dotted form of an identifier names it. -/
  oid : ∀ text oid, codec.oid text = .ok oid → oid.dotted = text
  serialNumber : ∀ bytes serial, codec.serialNumber bytes = .ok serial → serial = BigEndian.decode bytes
  bitString : ∀ unused bytes bits, codec.bitString unused bytes = .ok bits → bits = ⟨unused, bytes⟩
  tbs : ∀ tbs bytes, codec.tbsToDer tbs = .ok bytes → codec.tbsFromDer bytes = .ok tbs
  info : ∀ info bytes, codec.infoToDer info = .ok bytes → codec.infoFromDer bytes = .ok info

/-- The errors of the module: those of the subject parser and of the DER crates,
and those of the builders. -/
inductive BuildError where
  | parse (error : X509Error)
  | unsupportedAlgorithm
  | unsupportedHash
  | timeRange
  | invalidValidity
  | signatureAlgorithmMismatch
  | notSigning (algorithm : String)
  deriving DecidableEq, Repr

def BuildError.message : BuildError → String
  | .parse (.rfc4514 message) => "invalid RFC 4514 string: " ++ message
  | .parse (.der message) => "ASN.1 encoding failed: " ++ message
  | .unsupportedAlgorithm => "algorithm cannot sign certificates"
  | .unsupportedHash => "hash not supported for this algorithm"
  | .timeRange => "timestamp out of ASN.1 time range"
  | .invalidValidity => "certificate validity ends before it starts"
  | .signatureAlgorithmMismatch => "certificate signature algorithm does not match its TBS identifier"
  | .notSigning algorithm => "algorithm " ++ algorithm ++ " cannot sign certificates or CSRs"

/-- `map_err(der)`. -/
def codecError {α : Type} (r : Except String α) : Except BuildError α := r.mapError fun e => .parse (.der e)

def ecdsaOid : HashAlgorithm → String
  | .sha256 => "1.2.840.10045.4.3.2"
  | .sha384 => "1.2.840.10045.4.3.3"
  | .sha512 => "1.2.840.10045.4.3.4"

def rsaOid : HashAlgorithm → String
  | .sha256 => "1.2.840.113549.1.1.11"
  | .sha384 => "1.2.840.113549.1.1.12"
  | .sha512 => "1.2.840.113549.1.1.13"

def signatureOid : Algorithm → Option HashAlgorithm → Except BuildError String
  | .ed25519, none => .ok "1.3.101.112"
  -- SM2 signs SM3(ZA || M); no hash parameter.
  | .sm2, none => .ok "1.2.156.10197.1.501"
  -- ML-DSA-65, empty context; parameters are absent by definition.
  | .mlDsa65, none => .ok "2.16.840.1.101.3.4.3.18"
  | .x25519, _ => .error (.notSigning "X25519")
  | .mlKem768, _ => .error (.notSigning "ML-KEM-768")
  | .eccP521, h | .secp256k1, h | .eccP256, h | .eccP384, h => (okOr h .unsupportedHash).map ecdsaOid
  | .rsa1024, h | .rsa2048, h | .rsa3072, h | .rsa4096, h => (okOr h .unsupportedHash).map rsaOid
  | _, _ => .error .unsupportedAlgorithm

def isRsa : Algorithm → Bool
  | .rsa1024 | .rsa2048 | .rsa3072 | .rsa4096 => true
  | _ => false

/-- Signature algorithm identifier for a key algorithm and hash. Ed25519 takes
no hash (PureEdDSA). -/
def signatureAlgorithm (codec : Codec) (key : Algorithm) (hash : Option HashAlgorithm) :
    Except BuildError AlgorithmIdentifier := do
  let oid ← signatureOid key hash
  let oid ← codecError (codec.oid oid)
  pure ⟨oid, if isRsa key then some Any.null else none⟩

/-- 9999-12-31 23:59:59 UTC, the last time of the crates. -/
def lastSecond : Nat := 253402300799

/-- 2050-01-01 00:00:00 UTC, the first time that a UTCTime cannot express. -/
def firstGeneralSecond : Nat := 2524608000

def time (unixSeconds : Int) : Except BuildError Time :=
  if unixSeconds < 0 ∨ lastSecond < unixSeconds.toNat then .error .timeRange
  else if unixSeconds.toNat < firstGeneralSecond then .ok (.utcTime unixSeconds.toNat)
  else .ok (.generalTime unixSeconds.toNat)

/-- Validate and encode a certificate validity interval, in Unix seconds. -/
def validity (notBefore notAfter : Int) : Except BuildError Validity := do
  if notAfter < notBefore then throw .invalidValidity
  let first ← time notBefore
  let last ← time notAfter
  pure ⟨first, last⟩

def spki (codec : Codec) (derBytes : Bytes) : Except BuildError SubjectPublicKeyInfo :=
  codecError (codec.spkiFromDer derBytes)

/-- Build the to-be-signed certificate bytes for a self-signed certificate. -/
def tbsSelfSigned (codec : Codec) (spkiDer : Bytes) (subject : Name) (serial : Bytes) (notBefore notAfter : Int)
    (signature : AlgorithmIdentifier) : Except BuildError Bytes := do
  let serialNumber ← codecError (codec.serialNumber serial)
  let validity ← validity notBefore notAfter
  let subjectPublicKeyInfo ← spki codec spkiDer
  codecError (codec.tbsToDer ⟨.v3, serialNumber, signature, subject, validity, subject, subjectPublicKeyInfo,
    none, none, none⟩)

def assembleCertificate (codec : Codec) (tbsDer : Bytes) (signatureAlgorithm : AlgorithmIdentifier)
    (signature : Bytes) : Except BuildError Bytes := do
  let tbsCertificate ← codecError (codec.tbsFromDer tbsDer)
  if tbsCertificate.signature ≠ signatureAlgorithm then throw .signatureAlgorithmMismatch
  let signature ← codecError (codec.bitString 0 signature)
  codecError (codec.certificateToDer ⟨tbsCertificate, signatureAlgorithm, signature⟩)

def certificationRequestInfo (codec : Codec) (spkiDer : Bytes) (subject : Name) : Except BuildError Bytes := do
  let publicKey ← spki codec spkiDer
  codecError (codec.infoToDer ⟨.v1, subject, publicKey, []⟩)

def assembleCsr (codec : Codec) (criDer : Bytes) (signatureAlgorithm : AlgorithmIdentifier) (signature : Bytes) :
    Except BuildError Bytes := do
  let info ← codecError (codec.infoFromDer criDer)
  let signature ← codecError (codec.bitString 0 signature)
  codecError (codec.requestToDer ⟨info, signatureAlgorithm, signature⟩)

end X509
