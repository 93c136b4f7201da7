import Ckman.BigEndian
import Ckman.PivCard
import Ckman.X509Name

/-!
# PIV attestation policy

`attestation::verify` for the fixed leaf, F9 issuer, root chain. Certificate
decoding, DER encoding and P-256 verification belong to other crates and are
parameters. `Policy` states the whole policy on its own, in terms of the
certificates and the observations, and `verify` accepts exactly what meets it.
-/
namespace Attestation

open Host X509
open Piv (KnownOrUnknown KeyOrigin PinPolicy TouchPolicy PublicKey MetadataFields)

inductive Version where
  | v1 | v2 | v3
  deriving DecidableEq, Repr

structure BitString where
  unusedBits : UInt8
  rawBytes : Bytes
  deriving DecidableEq, Repr

/-- `as_bytes`: only a whole number of octets has bytes. -/
def BitString.asBytes (bits : BitString) : Option Bytes :=
  if bits.unusedBits = 0 then some bits.rawBytes else none

structure AlgorithmIdentifier where
  oid : Oid
  parameters : Option Any
  deriving DecidableEq, Repr

structure SubjectPublicKeyInfo where
  algorithm : AlgorithmIdentifier
  subjectPublicKey : BitString
  deriving DecidableEq, Repr

structure Extension where
  extnId : Oid
  critical : Bool
  extnValue : Bytes
  deriving DecidableEq, Repr

structure TbsCertificate where
  version : Version
  serialNumber : Bytes
  signature : AlgorithmIdentifier
  issuer : Name
  /-- Unix seconds of `validity.not_before`. -/
  notBefore : Nat
  /-- Unix seconds of `validity.not_after`. -/
  notAfter : Nat
  subject : Name
  subjectPublicKeyInfo : SubjectPublicKeyInfo
  issuerUniqueId : Option BitString
  subjectUniqueId : Option BitString
  extensions : Option (List Extension)
  deriving DecidableEq, Repr

structure Certificate where
  tbsCertificate : TbsCertificate
  signatureAlgorithm : AlgorithmIdentifier
  signature : BitString
  deriving DecidableEq, Repr

structure BasicConstraints where
  ca : Bool
  pathLenConstraint : Option UInt8
  deriving DecidableEq, Repr

structure KeyUsage where
  keyCertSign : Bool
  crlSign : Bool
  deriving DecidableEq, Repr

/-- The certificate, signature and hash functions of other crates. -/
structure Crates (VerifyingKey Signature : Type) where
  der : Der
  certificate : Bytes → Option Certificate
  basicConstraints : Bytes → Option BasicConstraints
  keyUsage : Bytes → Option KeyUsage
  /-- `SubjectPublicKeyInfo::to_der`. -/
  spkiDer : SubjectPublicKeyInfo → Option Bytes
  /-- `TbsCertificate::to_der`. -/
  tbsDer : TbsCertificate → Option Bytes
  /-- `PublicKey::to_spki_der`. -/
  publicKeyDer : PublicKey → Option Bytes
  verifyingKey : Bytes → Option VerifyingKey
  signature : Bytes → Option Signature
  verify : VerifyingKey → Bytes → Signature → Bool
  sha256 : Bytes → Bytes

structure Evidence where
  certificate : Bytes
  issuer : Bytes
  /-- `slot.reference()`. -/
  slot : UInt8
  serial : Bytes
  serialSize : serial.length = 4
  target : MetadataFields
  signer : MetadataFields

structure VerifiedAttestation where
  rootFingerprint : Bytes
  deriving DecidableEq, Repr

inductive AttestationError where
  | certificate (role reason : String)
  | binding (reason : String)
  /-- The caller did not supply exactly one bounded PEM or DER root. -/
  | trustRoot
  deriving DecidableEq, Repr

abbrev Checked (α : Type) := Except AttestationError α

def maxCertificateBytes : Nat := 16 * 1024

def serialOid : Oid := ⟨[1, 3, 6, 1, 4, 1, 66602, 1, 1]⟩
def policiesOid : Oid := ⟨[1, 3, 6, 1, 4, 1, 66602, 1, 2]⟩
def basicConstraintsOid : Oid := ⟨[2, 5, 29, 19]⟩
def keyUsageOid : Oid := ⟨[2, 5, 29, 15]⟩
def ecdsaSha256 : Oid := ⟨[1, 2, 840, 10045, 4, 3, 2]⟩

def invalid (role reason : String) : AttestationError := .certificate role reason

variable {VerifyingKey Signature : Type} (crates : Crates VerifyingKey Signature)

def parse (bytes : Bytes) (role : String) : Checked Certificate := do
  refuse (bytes.length > maxCertificateBytes) (invalid role "certificate exceeds size limit")
  okOr (crates.certificate bytes) (invalid role "malformed DER")

def extension (cert : Certificate) (oid : Oid) : Option Bytes :=
  cert.tbsCertificate.extensions.bind fun extensions =>
    (extensions.find? (fun ext => ext.extnId = oid)).map (·.extnValue)

/-- The loop over the extensions; `seen` is `extensions[..i]`. -/
def checkExtensions (role : String) (seen : List Extension) : List Extension → Checked Unit
  | [] => .ok ()
  | ext :: rest => do
    refuse (seen.any (fun other => other.extnId = ext.extnId)) (invalid role "duplicate extension")
    refuse (ext.critical ∧ ext.extnId ≠ basicConstraintsOid ∧ ext.extnId ≠ keyUsageOid)
      (invalid role "unsupported critical extension")
    checkExtensions role (seen ++ [ext]) rest

/-- `if let Some(extensions) = &tbs.extensions`. -/
def checkPresentExtensions (role : String) : Option (List Extension) → Checked Unit
  | some extensions => checkExtensions role [] extensions
  | none => .ok ()

/-- `map(decode).transpose()` on an optional extension. -/
def decodeExtension {α : Type} (decode : Bytes → Option α) (value : Option Bytes)
    (error : AttestationError) : Checked (Option α) :=
  match value with
  | none => .ok none
  | some bytes => (okOr (decode bytes) error).map some

/-- The usage of a signer with `depth` CA certificates below it. -/
def checkCa (role : String) (bc : Option BasicConstraints) (ku : Option KeyUsage) (depth : UInt8) :
    Checked Unit := do
  let bc ← okOr (bc.filter (·.ca)) (invalid role "signer must be a CA")
  refuse (bc.pathLenConstraint.any (depth > ·)) (invalid role "CA path length exceeded")
  refuse (ku.any (fun ku => !ku.keyCertSign))
    (invalid role "signer KeyUsage does not allow certificate signing")

def checkEndEntity (role : String) (bc : Option BasicConstraints) (ku : Option KeyUsage) :
    Checked Unit :=
  refuse (bc.any (fun bc => bc.ca || bc.pathLenConstraint.isSome) ∨
      ku.any (fun ku => ku.keyCertSign || ku.crlSign))
    (invalid role "target attestation must be an end-entity certificate")

def checkProfile (cert : Certificate) (role : String) (now : Nat) (caDepth : Option UInt8) :
    Checked Unit := do
  let tbs := cert.tbsCertificate
  refuse (tbs.version ≠ .v3 ∨ tbs.issuerUniqueId.isSome ∨ tbs.subjectUniqueId.isSome)
    (invalid role "unsupported certificate version or unique identifiers")
  refuse (cert.signatureAlgorithm ≠ tbs.signature ∨ cert.signatureAlgorithm.oid ≠ ecdsaSha256 ∨
      cert.signatureAlgorithm.parameters.isSome)
    (invalid role "expected matching ECDSA/SHA-256 signature identifiers without parameters")
  refuse (tbs.notBefore > tbs.notAfter ∨ now < tbs.notBefore ∨ now > tbs.notAfter)
    (invalid role "certificate is expired or not yet valid")
  checkPresentExtensions role tbs.extensions
  let bc ← decodeExtension crates.basicConstraints (extension cert basicConstraintsOid)
    (invalid role "malformed BasicConstraints")
  let ku ← decodeExtension crates.keyUsage (extension cert keyUsageOid)
    (invalid role "malformed KeyUsage")
  match caDepth with
  | some depth => checkCa role bc ku depth
  | none => checkEndEntity role bc ku

def verifySignature (cert issuer : Certificate) (role : String) : Checked Unit := do
  refuse (cert.tbsCertificate.issuer ≠ issuer.tbsCertificate.subject)
    (invalid role "issuer name does not match signer subject")
  let spki ← okOr (crates.spkiDer issuer.tbsCertificate.subjectPublicKeyInfo)
    (invalid role "invalid signer SPKI")
  let key ← okOr (crates.verifyingKey spki) (invalid role "signer must use P-256")
  let signature ← okOr (cert.signature.asBytes.bind crates.signature)
    (invalid role "invalid ECDSA signature encoding")
  let tbs ← okOr (crates.tbsDer cert.tbsCertificate) (invalid role "invalid TBS certificate")
  refuse (crates.verify key tbs signature = false) (invalid role "signature verification failed")

def metadataSpki (fields : MetadataFields) : Checked Bytes := do
  let key ← okOr fields.publicKey (.binding "public key metadata missing or unsupported")
  okOr (crates.publicKeyDer key) (.binding "invalid public key metadata")

def pinWire : Option (KnownOrUnknown PinPolicy) → Checked UInt8
  | some (.known .never) => .ok 1
  | some (.known .once) => .ok 2
  | some (.known .always) => .ok 3
  | _ => .error (.binding "PIN policy missing or unknown")

def touchWire : Option (KnownOrUnknown TouchPolicy) → Checked UInt8
  | some (.known .never) => .ok 1
  | some (.known .always) => .ok 2
  | some (.known .cached) => .ok 3
  | _ => .error (.binding "touch policy missing or unknown")

def verify (evidence : Evidence) (root : Bytes) (nowUnix : Nat) : Checked VerifiedAttestation := do
  let leaf ← parse crates evidence.certificate "attestation"
  let issuer ← parse crates evidence.issuer "F9 issuer"
  let rootCert ← parse crates root "root"
  checkProfile crates leaf "attestation" nowUnix none
  checkProfile crates issuer "F9 issuer" nowUnix (some 0)
  -- One non-self-issued intermediate CA is below the root.
  let intermediateCount : UInt8 :=
    if issuer.tbsCertificate.subject ≠ issuer.tbsCertificate.issuer then 1 else 0
  checkProfile crates rootCert "root" nowUnix (some intermediateCount)
  refuse (rootCert.tbsCertificate.issuer ≠ rootCert.tbsCertificate.subject)
    (invalid "root" "trust root must be self-issued")
  verifySignature crates rootCert rootCert "root"
  verifySignature crates issuer rootCert "F9 issuer"
  verifySignature crates leaf issuer "attestation"
  refuse (evidence.target.origin ≠ some (.known .generated))
    (.binding "target key is not reported as generated on device")
  let targetSpki ← metadataSpki crates evidence.target
  let signerSpki ← metadataSpki crates evidence.signer
  refuse (crates.spkiDer leaf.tbsCertificate.subjectPublicKeyInfo ≠ some targetSpki)
    (.binding "target public key mismatch")
  refuse (crates.spkiDer issuer.tbsCertificate.subjectPublicKeyInfo ≠ some signerSpki)
    (.binding "F9 public key does not match issuer certificate")
  let expectedSubject ← (parseRfc4514 crates.der
    ("CN=CanoKey PIV Attestation " ++ hexEncode [evidence.slot])).mapError
      (fun _ => .binding "invalid target slot")
  refuse (leaf.tbsCertificate.subject ≠ expectedSubject) (.binding "target slot subject mismatch")
  refuse (extension leaf serialOid ≠ some evidence.serial)
    (.binding "device serial extension missing or mismatched")
  let pin ← pinWire evidence.target.pinPolicy
  let touch ← touchWire evidence.target.touchPolicy
  refuse (extension leaf policiesOid ≠ some [pin, touch])
    (.binding "PIN/touch policy extension missing or mismatched")
  pure ⟨crates.sha256 root⟩

def Certificate.extensions (cert : Certificate) : List Extension :=
  cert.tbsCertificate.extensions.getD []

/-- Some extension of the certificate has this identifier and value. -/
def Carries (cert : Certificate) (oid : Oid) (value : Bytes) : Prop :=
  ∃ ext ∈ cert.extensions, ext.extnId = oid ∧ ext.extnValue = value

structure Profile (now : Nat) (cert : Certificate) : Prop where
  version : cert.tbsCertificate.version = .v3
  uniqueIds : cert.tbsCertificate.issuerUniqueId = none ∧
    cert.tbsCertificate.subjectUniqueId = none
  identifiers : cert.signatureAlgorithm = cert.tbsCertificate.signature
  ecdsa : cert.signatureAlgorithm.oid = ecdsaSha256 ∧ cert.signatureAlgorithm.parameters = none
  valid : cert.tbsCertificate.notBefore ≤ now ∧ now ≤ cert.tbsCertificate.notAfter
  distinct : (cert.extensions.map (·.extnId)).Nodup
  critical : ∀ ext ∈ cert.extensions, ext.critical = true →
    ext.extnId = basicConstraintsOid ∨ ext.extnId = keyUsageOid

/-- A CA with `depth` non-self-issued CA certificates below it. -/
structure Signer (depth : Nat) (cert : Certificate) : Prop where
  constraints : ∃ value bc, Carries cert basicConstraintsOid value ∧
    crates.basicConstraints value = some bc ∧ bc.ca = true ∧
    ∀ limit, bc.pathLenConstraint = some limit → depth ≤ limit.toNat
  usage : ∀ value, Carries cert keyUsageOid value →
    ∃ ku, crates.keyUsage value = some ku ∧ ku.keyCertSign = true

structure EndEntity (cert : Certificate) : Prop where
  constraints : ∀ value, Carries cert basicConstraintsOid value →
    ∃ bc, crates.basicConstraints value = some bc ∧ bc.ca = false ∧ bc.pathLenConstraint = none
  usage : ∀ value, Carries cert keyUsageOid value →
    ∃ ku, crates.keyUsage value = some ku ∧ ku.keyCertSign = false ∧ ku.crlSign = false

/-- P-256 ECDSA with SHA-256, over encodings. -/
def Verifies (spki tbs signature : Bytes) : Prop :=
  ∃ key sig, crates.verifyingKey spki = some key ∧ crates.signature signature = some sig ∧
    crates.verify key tbs sig = true

def SignedBy (cert signer : Certificate) : Prop :=
  cert.tbsCertificate.issuer = signer.tbsCertificate.subject ∧
  ∃ spki tbs signature, crates.spkiDer signer.tbsCertificate.subjectPublicKeyInfo = some spki ∧
    crates.tbsDer cert.tbsCertificate = some tbs ∧ cert.signature.asBytes = some signature ∧
    Verifies crates spki tbs signature

/-- The certificate is about the key that the metadata reports. -/
def SameKey (cert : Certificate) (fields : MetadataFields) : Prop :=
  ∃ key spki, fields.publicKey = some key ∧ crates.publicKeyDer key = some spki ∧
    crates.spkiDer cert.tbsCertificate.subjectPublicKeyInfo = some spki

def selfIssued (cert : Certificate) : Bool :=
  cert.tbsCertificate.subject = cert.tbsCertificate.issuer

def pinByte : PinPolicy → Option UInt8
  | .never => some 1
  | .once => some 2
  | .always => some 3
  | .default => none

def touchByte : TouchPolicy → Option UInt8
  | .never => some 1
  | .always => some 2
  | .cached => some 3
  | .default => none

structure Chain (leaf issuer root : Certificate) (now : Nat) : Prop where
  profiles : ∀ cert ∈ [leaf, issuer, root], Profile now cert
  endEntity : EndEntity crates leaf
  /-- No CA certificate is below the issuer. -/
  issuerCa : Signer crates 0 issuer
  /-- Below the root, the issuer counts unless it is self-issued. -/
  rootCa : Signer crates ([issuer].countP (fun cert => !selfIssued cert)) root
  rootSelfIssued : selfIssued root = true
  rootSigned : SignedBy crates root root
  issuerSigned : SignedBy crates issuer root
  leafSigned : SignedBy crates leaf issuer

/-- The signed evidence agrees with what was observed on the device. -/
structure Bound (leaf issuer : Certificate) (evidence : Evidence) : Prop where
  generated : evidence.target.origin = some (.known .generated)
  targetKey : SameKey crates leaf evidence.target
  signerKey : SameKey crates issuer evidence.signer
  subject : leaf.tbsCertificate.subject = [[⟨commonName,
    ⟨.utf8String, asBytes ("CanoKey PIV Attestation " ++ hexEncode [evidence.slot])⟩⟩]]
  serial : Carries leaf serialOid evidence.serial
  policies : ∃ pin touch pinCode touchCode, evidence.target.pinPolicy = some (.known pin) ∧
    evidence.target.touchPolicy = some (.known touch) ∧ pinByte pin = some pinCode ∧
    touchByte touch = some touchCode ∧ Carries leaf policiesOid [pinCode, touchCode]

def Decodes (bytes : Bytes) (cert : Certificate) : Prop :=
  bytes.length ≤ maxCertificateBytes ∧ crates.certificate bytes = some cert

def Policy (evidence : Evidence) (root : Bytes) (now : Nat) : Prop :=
  ∃ leaf issuer rootCert, Decodes crates evidence.certificate leaf ∧
    Decodes crates evidence.issuer issuer ∧ Decodes crates root rootCert ∧
    Chain crates leaf issuer rootCert now ∧ Bound crates leaf issuer evidence

theorem parse_iff {bytes : Bytes} {role : String} {cert : Certificate} :
    parse crates bytes role = .ok cert ↔ Decodes crates bytes cert := by
  simp only [parse, Except.bind_eq_ok_iff, refuse_eq_ok_iff, okOr_eq_ok_iff, Decodes, gt_iff_lt,
    Nat.not_lt, exists_const]

theorem extension_eq_find (cert : Certificate) (oid : Oid) :
    extension cert oid = (cert.extensions.find? (fun ext => ext.extnId = oid)).map (·.extnValue) := by
  simp only [extension, Certificate.extensions]
  cases cert.tbsCertificate.extensions <;> rfl

theorem extension_eq_none_iff {cert : Certificate} {oid : Oid} :
    extension cert oid = none ↔ ∀ value, ¬ Carries cert oid value := by
  simp only [extension_eq_find, Option.map_eq_none_iff, List.find?_eq_none, decide_eq_true_eq,
    Carries, not_exists, not_and]
  constructor
  · intro h value ext hext hid
    exact absurd hid (h ext hext)
  · intro h ext hext hid
    exact h ext.extnValue ext hext hid rfl

/-- Without duplicates the first extension is the extension. -/
theorem extension_eq_some_iff {cert : Certificate} {oid : Oid} {value : Bytes}
    (hd : (cert.extensions.map (·.extnId)).Nodup) :
    extension cert oid = some value ↔ Carries cert oid value := by
  rw [extension_eq_find, Carries]
  generalize cert.extensions = extensions at hd
  induction extensions with
  | nil => simp
  | cons ext rest ih =>
    rw [List.map_cons, List.nodup_cons] at hd
    by_cases hid : ext.extnId = oid
    · have hrest : ∀ other ∈ rest, other.extnId ≠ oid := by
        intro other hother ho
        exact hd.1 (hid ▸ ho ▸ List.mem_map_of_mem hother)
      rw [List.find?_cons_of_pos (by simpa using hid), Option.map_some, Option.some.injEq]
      constructor
      · intro hv
        exact ⟨ext, by simp, hid, hv⟩
      · rintro ⟨other, hother, ho, hv⟩
        rcases List.mem_cons.mp hother with rfl | hother
        · exact hv
        · exact absurd ho (hrest other hother)
    · rw [List.find?_cons_of_neg (by simpa using hid), ih hd.2]
      simp [hid]

theorem checkExtensions_iff {role : String} {seen extensions : List Extension} :
    checkExtensions role seen extensions = .ok () ↔
      (∀ ext ∈ extensions, ∀ other ∈ seen, other.extnId ≠ ext.extnId) ∧
      (extensions.map (·.extnId)).Nodup ∧
      ∀ ext ∈ extensions, ext.critical = true →
        ext.extnId = basicConstraintsOid ∨ ext.extnId = keyUsageOid := by
  induction extensions generalizing seen with
  | nil => simp [checkExtensions]
  | cons ext rest ih =>
    simp only [checkExtensions, Except.bind_eq_ok_iff, refuse_eq_ok_iff, ih, List.any_eq_true,
      decide_eq_true_eq, exists_const]
    constructor
    · rintro ⟨hdup, hcrit, hseen, hnodup, hrest⟩
      refine ⟨?_, ?_, ?_⟩
      · intro e he other ho heq
        rcases List.mem_cons.mp he with rfl | he
        · exact hdup ⟨other, ho, heq⟩
        · exact hseen e he other (List.mem_append_left _ ho) heq
      · rw [List.map_cons, List.nodup_cons]
        refine ⟨?_, hnodup⟩
        intro hmem
        obtain ⟨e, he, heq⟩ := List.mem_map.mp hmem
        exact hseen e he ext (by simp) heq.symm
      · intro e he hc
        rcases List.mem_cons.mp he with rfl | he
        · by_contra hno
          exact hcrit ⟨hc, fun h => hno (.inl h), fun h => hno (.inr h)⟩
        · exact hrest e he hc
    · rintro ⟨hseen, hnodup, hcrit⟩
      rw [List.map_cons, List.nodup_cons] at hnodup
      refine ⟨?_, ?_, ?_, hnodup.2, fun e he => hcrit e (List.mem_cons_of_mem _ he)⟩
      · rintro ⟨other, ho, heq⟩
        exact hseen ext (by simp) other ho heq
      · rintro ⟨hc, hbc, hku⟩
        rcases hcrit ext (by simp) hc with h | h
        · exact hbc h
        · exact hku h
      · intro e he other ho heq
        rcases List.mem_append.mp ho with ho | ho
        · exact hseen e (List.mem_cons_of_mem _ he) other ho heq
        · obtain rfl : other = ext := by simpa using ho
          exact hnodup.1 (heq ▸ List.mem_map_of_mem he)

theorem decodeExtension_iff {α : Type} {decode : Bytes → Option α} {value : Option Bytes}
    {error : AttestationError} {r : Option α} :
    decodeExtension decode value error = .ok r ↔
      (value = none ∧ r = none) ∨
      ∃ bytes a, value = some bytes ∧ decode bytes = some a ∧ r = some a := by
  cases value with
  | none => simp [decodeExtension, eq_comm]
  | some bytes =>
    cases h : decode bytes with
    | none => simp [decodeExtension, okOr, h, Except.map]
    | some a => simp [decodeExtension, okOr, h, Except.map, eq_comm]

section Usage

variable {cert : Certificate} {oid : Oid} {role : String} {α : Type} {decode : Bytes → Option α}
  {error : AttestationError} {P : α → Prop}

/-- An optional extension that must satisfy `P` when it is present. -/
theorem optional_iff (hd : (cert.extensions.map (·.extnId)).Nodup) :
    (∃ r, decodeExtension decode (extension cert oid) error = .ok r ∧ ∀ a, r = some a → P a) ↔
      ∀ value, Carries cert oid value → ∃ a, decode value = some a ∧ P a := by
  simp only [decodeExtension_iff]
  constructor
  · rintro ⟨r, ⟨hnone, -⟩ | ⟨bytes, a, hsome, ha, rfl⟩, hP⟩ value hc
    · exact absurd hc (extension_eq_none_iff.mp hnone value)
    · rw [(extension_eq_some_iff hd).mpr hc, Option.some.injEq] at hsome
      exact ⟨a, hsome ▸ ha, hP a rfl⟩
  · intro h
    cases hv : extension cert oid with
    | none => exact ⟨none, .inl ⟨rfl, rfl⟩, by simp⟩
    | some value =>
      obtain ⟨a, ha, hP⟩ := h value ((extension_eq_some_iff hd).mp hv)
      refine ⟨some a, .inr ⟨value, a, rfl, ha, rfl⟩, ?_⟩
      intro b hb
      cases hb
      exact hP

/-- An extension that must be present and satisfy `P`. -/
theorem required_iff (hd : (cert.extensions.map (·.extnId)).Nodup) :
    (∃ r, decodeExtension decode (extension cert oid) error = .ok r ∧ ∃ a, r = some a ∧ P a) ↔
      ∃ value a, Carries cert oid value ∧ decode value = some a ∧ P a := by
  simp only [decodeExtension_iff]
  constructor
  · rintro ⟨r, ⟨-, rfl⟩ | ⟨bytes, a, hsome, ha, rfl⟩, b, hr, hP⟩
    · cases hr
    · cases hr
      exact ⟨bytes, a, (extension_eq_some_iff hd).mp hsome, ha, hP⟩
  · rintro ⟨value, a, hc, ha, hP⟩
    exact ⟨some a, .inr ⟨value, a, (extension_eq_some_iff hd).mpr hc, ha, rfl⟩, a, rfl, hP⟩

theorem checkCa_iff {bc : Option BasicConstraints} {ku : Option KeyUsage} {depth : UInt8} :
    checkCa role bc ku depth = .ok () ↔
      (∃ b, bc = some b ∧ b.ca = true ∧
        ∀ limit, b.pathLenConstraint = some limit → depth.toNat ≤ limit.toNat) ∧
      ∀ k, ku = some k → k.keyCertSign = true := by
  simp only [checkCa, Except.bind_eq_ok_iff, okOr_eq_ok_iff, refuse_eq_ok_iff,
    Option.filter_eq_some_iff, exists_const, Option.any_eq_true, not_exists, not_and]
  constructor
  · rintro ⟨b, ⟨rfl, hca⟩, hlen, hku⟩
    refine ⟨⟨b, rfl, hca, ?_⟩, ?_⟩
    · intro limit hl
      have h := hlen limit hl
      rw [decide_eq_true_eq, gt_iff_lt, UInt8.lt_iff_toNat_lt] at h
      omega
    · intro k hk
      have h := hku k hk
      simpa using h
  · rintro ⟨⟨b, rfl, hca, hlen⟩, hku⟩
    refine ⟨b, ⟨rfl, hca⟩, ?_, ?_⟩
    · intro limit hl
      rw [decide_eq_true_eq, gt_iff_lt, UInt8.lt_iff_toNat_lt]
      have h := hlen limit hl
      omega
    · intro k hk
      simp [hku k hk]

theorem checkEndEntity_iff {bc : Option BasicConstraints} {ku : Option KeyUsage} :
    checkEndEntity role bc ku = .ok () ↔
      (∀ b, bc = some b → b.ca = false ∧ b.pathLenConstraint = none) ∧
      ∀ k, ku = some k → k.keyCertSign = false ∧ k.crlSign = false := by
  rw [checkEndEntity, refuse_eq_ok_iff, not_or]
  refine and_congr ?_ ?_
  · cases bc <;> simp
  · cases ku <;> simp

end Usage

/-- `check_profile` up to the usage of the certificate. -/
theorem checkProfile_iff {cert : Certificate} {role : String} {now : Nat}
    {caDepth : Option UInt8} :
    checkProfile crates cert role now caDepth = .ok () ↔
      Profile now cert ∧
      ∃ bc, decodeExtension crates.basicConstraints (extension cert basicConstraintsOid)
          (invalid role "malformed BasicConstraints") = .ok bc ∧
        ∃ ku, decodeExtension crates.keyUsage (extension cert keyUsageOid)
          (invalid role "malformed KeyUsage") = .ok ku ∧
          (match caDepth with
            | some depth => checkCa role bc ku depth
            | none => checkEndEntity role bc ku) = .ok () := by
  have hext : checkPresentExtensions role cert.tbsCertificate.extensions = .ok () ↔
      (cert.extensions.map (·.extnId)).Nodup ∧ ∀ ext ∈ cert.extensions, ext.critical = true →
        ext.extnId = basicConstraintsOid ∨ ext.extnId = keyUsageOid := by
    rw [Certificate.extensions]
    cases cert.tbsCertificate.extensions with
    | none => simp [checkPresentExtensions]
    | some extensions => simp [checkPresentExtensions, checkExtensions_iff]
  simp only [checkProfile, Except.bind_eq_ok_iff, refuse_eq_ok_iff, exists_const, hext]
  constructor
  · rintro ⟨hv, ha, ht, ⟨hd, hc⟩, hrest⟩
    simp only [not_or, not_not, Option.not_isSome_iff_eq_none] at hv ha
    exact ⟨⟨hv.1, hv.2, ha.1, ha.2, by omega, hd, hc⟩, hrest⟩
  · rintro ⟨hp, hrest⟩
    have hv := hp.valid
    refine ⟨?_, ?_, by omega, ⟨hp.distinct, hp.critical⟩, hrest⟩
    · simp [hp.version, hp.uniqueIds]
    · rw [← hp.identifiers, hp.ecdsa.1, hp.ecdsa.2]
      simp

theorem checkProfile_ca {cert : Certificate} {role : String} {now : Nat} {depth : UInt8}
    {u : Unit} : checkProfile crates cert role now (some depth) = .ok u ↔
      Profile now cert ∧ Signer crates depth.toNat cert := by
  rw [checkProfile_iff]
  refine and_congr_right fun hp => ?_
  simp only [checkCa_iff]
  constructor
  · rintro ⟨bc, hbc, ku, hku, hb, hk⟩
    have hc : ∃ r, decodeExtension crates.basicConstraints (extension cert basicConstraintsOid)
        (invalid role "malformed BasicConstraints") = .ok r ∧ ∃ b, r = some b ∧ b.ca = true ∧
        ∀ limit, b.pathLenConstraint = some limit → depth.toNat ≤ limit.toNat := ⟨bc, hbc, hb⟩
    have hu : ∃ r, decodeExtension crates.keyUsage (extension cert keyUsageOid)
        (invalid role "malformed KeyUsage") = .ok r ∧ ∀ k, r = some k → k.keyCertSign = true :=
      ⟨ku, hku, hk⟩
    exact ⟨(required_iff hp.distinct).mp hc, (optional_iff hp.distinct).mp hu⟩
  · rintro ⟨hc, hu⟩
    obtain ⟨bc, hbc, hb⟩ := (required_iff hp.distinct).mpr hc
    obtain ⟨ku, hku, hk⟩ := (optional_iff hp.distinct).mpr hu
    exact ⟨bc, hbc, ku, hku, hb, hk⟩

theorem checkProfile_endEntity {cert : Certificate} {role : String} {now : Nat} {u : Unit} :
    checkProfile crates cert role now none = .ok u ↔
      Profile now cert ∧ EndEntity crates cert := by
  rw [checkProfile_iff]
  refine and_congr_right fun hp => ?_
  simp only [checkEndEntity_iff]
  constructor
  · rintro ⟨bc, hbc, ku, hku, hb, hk⟩
    have hc : ∃ r, decodeExtension crates.basicConstraints (extension cert basicConstraintsOid)
        (invalid role "malformed BasicConstraints") = .ok r ∧
        ∀ b, r = some b → b.ca = false ∧ b.pathLenConstraint = none := ⟨bc, hbc, hb⟩
    have hu : ∃ r, decodeExtension crates.keyUsage (extension cert keyUsageOid)
        (invalid role "malformed KeyUsage") = .ok r ∧
        ∀ k, r = some k → k.keyCertSign = false ∧ k.crlSign = false := ⟨ku, hku, hk⟩
    exact ⟨(optional_iff hp.distinct).mp hc, (optional_iff hp.distinct).mp hu⟩
  · rintro ⟨hc, hu⟩
    obtain ⟨bc, hbc, hb⟩ := (optional_iff hp.distinct).mpr hc
    obtain ⟨ku, hku, hk⟩ := (optional_iff hp.distinct).mpr hu
    exact ⟨bc, hbc, ku, hku, hb, hk⟩

theorem verifySignature_iff {cert signer : Certificate} {role : String} {u : Unit} :
    verifySignature crates cert signer role = .ok u ↔ SignedBy crates cert signer := by
  simp only [verifySignature, Except.bind_eq_ok_iff, refuse_eq_ok_iff, okOr_eq_ok_iff, exists_const,
    not_not, ne_eq, SignedBy, Verifies, Option.bind_eq_some_iff, Bool.not_eq_false]
  refine and_congr_right fun _ => ?_
  constructor
  · rintro ⟨spki, hspki, key, hkey, sig, ⟨bytes, hbytes, hsig⟩, tbs, htbs, hverify⟩
    exact ⟨spki, tbs, bytes, hspki, htbs, hbytes, key, sig, hkey, hsig, hverify⟩
  · rintro ⟨spki, tbs, bytes, hspki, htbs, hbytes, key, sig, hkey, hsig, hverify⟩
    exact ⟨spki, hspki, key, hkey, sig, ⟨bytes, hbytes, hsig⟩, tbs, htbs, hverify⟩

theorem metadataSpki_iff {fields : MetadataFields} {spki : Bytes} :
    metadataSpki crates fields = .ok spki ↔
      ∃ key, fields.publicKey = some key ∧ crates.publicKeyDer key = some spki := by
  simp only [metadataSpki, Except.bind_eq_ok_iff, okOr_eq_ok_iff]

theorem pinWire_iff {policy : Option (KnownOrUnknown PinPolicy)} {code : UInt8} :
    pinWire policy = .ok code ↔ ∃ pin, policy = some (.known pin) ∧ pinByte pin = some code := by
  rcases policy with _ | ⟨pin | raw⟩
  · simp [pinWire]
  · cases pin <;> simp [pinWire, pinByte]
  · simp [pinWire]

theorem touchWire_iff {policy : Option (KnownOrUnknown TouchPolicy)} {code : UInt8} :
    touchWire policy = .ok code ↔
      ∃ touch, policy = some (.known touch) ∧ touchByte touch = some code := by
  rcases policy with _ | ⟨touch | raw⟩
  · simp [touchWire]
  · cases touch <;> simp [touchWire, touchByte]
  · simp [touchWire]

/-- The hexadecimal digits are plain characters. -/
theorem plain_hexDigit (n : Nat) : Plain (hexDigit n) ∧ hexDigit n ≠ ' ' := by
  by_cases h : n < 16
  · have hall : ∀ m < 16, Plain (hexDigit m) ∧ hexDigit m ≠ ' ' := by decide
    exact hall n h
  · have hout : hexDigit n = '0' := by
      rw [hexDigit, List.getD_eq_getElem?_getD, List.getElem?_eq_none (by simpa using h)]
      rfl
    rw [hout]
    decide

/-- The subject that the slot requires, read by the subject parser. -/
theorem expectedSubject {der : Der} (hder : der.Documented) (slot : UInt8) :
    parseRfc4514 der ("CN=CanoKey PIV Attestation " ++ hexEncode [slot]) =
      .ok [[⟨commonName, ⟨.utf8String, asBytes ("CanoKey PIV Attestation " ++ hexEncode [slot])⟩⟩]] := by
  let digits := [hexDigit (slot.toNat / 16), hexDigit (slot.toNat % 16)]
  let text := "CanoKey PIV Attestation ".toList ++ digits
  have hhex : hexEncode [slot] = String.ofList digits := by simp [hexEncode, digits]
  have hvalue : "CanoKey PIV Attestation " ++ hexEncode [slot] = String.ofList text := by
    rw [hhex, String.ofList_append, String.ofList_toList]
  have hfull : "CN=CanoKey PIV Attestation " ++ hexEncode [slot] =
      String.ofList ('C' :: 'N' :: '=' :: text) := by
    have hcn : "CN=CanoKey PIV Attestation " = String.ofList ('C' :: 'N' :: '=' ::
      "CanoKey PIV Attestation ".toList) := by simp
    rw [hhex, hcn, ← String.ofList_append]
    rfl
  have hplain : ∀ c ∈ text, Plain c := by
    intro c hc
    rcases List.mem_append.mp hc with hc | hc
    · have hall : ∀ c ∈ "CanoKey PIV Attestation ".toList, Plain c := by simp [Plain]
      exact hall c hc
    · simp only [digits, List.mem_cons, List.not_mem_nil, or_false] at hc
      rcases hc with rfl | rfl
      · exact (plain_hexDigit _).1
      · exact (plain_hexDigit _).1
  have hlast : text.getLast? ≠ some ' ' := by
    simp only [text, digits, List.getLast?_append, List.getLast?_cons_cons, List.getLast?_singleton,
      Option.some_or, ne_eq, Option.some.injEq]
    exact (plain_hexDigit _).2
  have hhead : text.head? = some 'C' := by
    rw [List.head?_append]
    rfl
  have hlen : text.length < derLengthLimit := by
    have h : text.length = 26 := by
      rw [List.length_append]
      rfl
    rw [h]
    decide
  rw [hfull, hvalue]
  exact parseRfc4514_commonName hder hplain (by rw [hhead]; decide) hlast hlen

/-! The three certificates of the repository's fixture directory, with the
crates as they behave on them. -/

namespace Fixture

/-- So many bytes, written as one number. -/
def ofHex (length digits : Nat) : Bytes := BigEndian.encode length digits

def rootDer : Bytes :=
  ofHex 42 0x308201433081eba003020102020101300a06082a8648ce3d04030230183116301406035504030c0d5465 ++
  ofHex 42 0x73742050495620526f6f74301e170d3230303130313030303030305a170d343030313031303030303030 ++
  ofHex 42 0x5a30183116301406035504030c0d546573742050495620526f6f743059301306072a8648ce3d02010608 ++
  ofHex 42 0x2a8648ce3d030107034200046b17d1f2e12c4247f8bce6e563a440f277037d812deb33a0f4a13945d898 ++
  ofHex 42 0xc2964fe342e2fe1a7f9b8ee7eb4a7c0f9e162bce33576b315ececbb6406837bf51f5a326302430120603 ++
  ofHex 42 0x551d130101ff040830060101ff020101300e0603551d0f0101ff040403020106300a06082a8648ce3d04 ++
  ofHex 42 0x0302034700304402205b68a81cc97494fb0685f44f26845acdba3cac487c0d68f0b16c91b5d66fe7ba02 ++
  ofHex 33 0x200e5d75ac58fd42306378ccb99ee93b25b7d9085b86130595973362d305e5244d

def issuerDer : Bytes :=
  ofHex 42 0x3082014a3081f0a003020102020102300a06082a8648ce3d04030230183116301406035504030c0d5465 ++
  ofHex 42 0x73742050495620526f6f74301e170d3230303130313030303030305a170d343030313031303030303030 ++
  ofHex 42 0x5a301d311b301906035504030c125465737420504956204639204973737565723059301306072a8648ce ++
  ofHex 42 0x3d020106082a8648ce3d030107034200047cf27b188d034f7e8a52380304b51ac3c08969e277f21b35a6 ++
  ofHex 42 0x0b48fc4766997807775510db8ed040293d9ac69f7430dbba7dade63ce982299e04b79d227873d1a32630 ++
  ofHex 42 0x2430120603551d130101ff040830060101ff020100300e0603551d0f0101ff040403020106300a06082a ++
  ofHex 42 0x8648ce3d0403020349003046022100d3bae7fa6a44b98eed66c9e394a6952bddc89d162c895af90f43bc ++
  ofHex 40 0x7969c3b2a3022100a2ce6bcbe8f471b83ad5a3e64942470c3897be691956bc09c03d050b15b3580e

def leafDer : Bytes :=
  ofHex 42 0x308201583081ffa003020102020103300a06082a8648ce3d040302301d311b301906035504030c125465 ++
  ofHex 42 0x73742050495620463920497373756572301e170d3230303130313030303030305a170d34303031303130 ++
  ofHex 42 0x30303030305a30253123302106035504030c1a43616e6f4b657920504956204174746573746174696f6e ++
  ofHex 42 0x2039613059301306072a8648ce3d020106082a8648ce3d030107034200045ecbe4d1a6330a44c8f7ef95 ++
  ofHex 42 0x1d4bf165e6c6b721efada985fb41661bc6e7fd6c8734640c4998ff7e374b06ce1a64a2ecd82ab036384f ++
  ofHex 42 0xb83d9a79b127a27d5032a32830263012060a2b0601040184882a01010404112233443010060a2b060104 ++
  ofHex 42 0x0184882a010204020201300a06082a8648ce3d040302034800304502200ffb2babc2c155887d811ac5cd ++
  ofHex 42 0xdb1676c4eb885ee3c669a446a2902dd44871cd022100f7a2334c9cb0e7c2425e2daeb4716a3de91a7603 ++
  ofHex 12 0x7bd75f0d1d6095b16c5c5452

def name (text : String) : Name := [[⟨commonName, ⟨.utf8String, asBytes text⟩⟩]]

def spkiHeader : Bytes := ofHex 26 0x3059301306072a8648ce3d020106082a8648ce3d030107034200

def p256 : AlgorithmIdentifier :=
  ⟨⟨[1, 2, 840, 10045, 2, 1]⟩, some ⟨.other 6, ofHex 8 0x2a8648ce3d030107⟩⟩

/-- The uncompressed point of a certificate, 26 bytes into its SPKI. -/
def point (der : Bytes) (spki : Nat) : Bytes := (der.drop (spki + 26)).take 65

def certificate (der : Bytes) (serial : UInt8) (issuer subject : String) (spki signature : Nat)
    (extensions : List Extension) : Certificate where
  tbsCertificate := {
    version := .v3
    serialNumber := [serial]
    signature := ⟨ecdsaSha256, none⟩
    issuer := name issuer
    notBefore := 1577836800
    notAfter := 2208988800
    subject := name subject
    subjectPublicKeyInfo := ⟨p256, ⟨0, point der spki⟩⟩
    issuerUniqueId := none
    subjectUniqueId := none
    extensions := some extensions }
  signatureAlgorithm := ⟨ecdsaSha256, none⟩
  signature := ⟨0, der.drop signature⟩

def caExtensions (limit : UInt8) : List Extension := [
  ⟨basicConstraintsOid, true, [0x30, 0x06, 0x01, 0x01, 0xff, 0x02, 0x01, limit]⟩,
  ⟨keyUsageOid, true, [0x03, 0x02, 0x01, 0x06]⟩]

def rootCert : Certificate :=
  certificate rootDer 1 "Test PIV Root" "Test PIV Root" 111 257 (caExtensions 1)

def issuerCert : Certificate :=
  certificate issuerDer 2 "Test PIV Root" "Test PIV F9 Issuer" 116 262 (caExtensions 0)

def leafCert : Certificate :=
  certificate leafDer 3 "Test PIV F9 Issuer" "CanoKey PIV Attestation 9a" 129 277 [
    ⟨serialOid, false, [0x11, 0x22, 0x33, 0x44]⟩, ⟨policiesOid, false, [0x02, 0x01]⟩]

def tbsBytes (der : Bytes) (length : Nat) : Bytes := (der.drop 4).take length

/-- The crates on this chain. The signature check accepts the signatures of
the three certificates under the keys that made them. -/
def testCrates : Crates Bytes Bytes where
  der := referenceDer
  certificate bytes :=
    if bytes = rootDer then some rootCert
    else if bytes = issuerDer then some issuerCert
    else if bytes = leafDer then some leafCert
    else none
  basicConstraints value :=
    if value.take 7 = [0x30, 0x06, 0x01, 0x01, 0xff, 0x02, 0x01] then some ⟨true, value[7]?⟩ else none
  keyUsage value := if value = [0x03, 0x02, 0x01, 0x06] then some ⟨true, true⟩ else none
  spkiDer spki :=
    if spki.algorithm = p256 then some (spkiHeader ++ spki.subjectPublicKey.rawBytes) else none
  tbsDer tbs :=
    if tbs = rootCert.tbsCertificate then some (tbsBytes rootDer 238)
    else if tbs = issuerCert.tbsCertificate then some (tbsBytes issuerDer 243)
    else if tbs = leafCert.tbsCertificate then some (tbsBytes leafDer 258)
    else none
  publicKeyDer key := some (spkiHeader ++ key.point)
  verifyingKey spki := some spki
  signature bytes := some bytes
  verify key tbs signature :=
    (key, tbs, signature) ∈ [
      (spkiHeader ++ point rootDer 111, tbsBytes rootDer 238, rootDer.drop 257),
      (spkiHeader ++ point rootDer 111, tbsBytes issuerDer 243, issuerDer.drop 262),
      (spkiHeader ++ point issuerDer 116, tbsBytes leafDer 258, leafDer.drop 277)]
  sha256 bytes :=
    if bytes = rootDer then
      ofHex 32 0x7bd1327efa17e6071d2c66328dfcd5081907645e33551ed86d3cfd4d37a02d16
    else []

def metadata (der : Bytes) (spki : Nat) : MetadataFields where
  algorithmId := some 0x11
  isDefault := none
  pinPolicy := some (.known .once)
  touchPolicy := some (.known .never)
  origin := some (.known .generated)
  publicKey := some ⟨0x11, point der spki⟩

def evidence : Evidence where
  certificate := leafDer
  issuer := issuerDer
  slot := 0x9a
  serial := [0x11, 0x22, 0x33, 0x44]
  serialSize := rfl
  target := metadata leafDer 129
  signer := metadata issuerDer 116

end Fixture

/-- `verify` accepts exactly the evidence that meets the whole policy, and then
reports the fingerprint of the root. -/
theorem verify_iff (hder : crates.der.Documented) (evidence : Evidence) (root : Bytes) (now : Nat)
    (report : VerifiedAttestation) :
    verify crates evidence root now = .ok report ↔
      Policy crates evidence root now ∧ report = ⟨crates.sha256 root⟩ := by
  simp only [verify, Except.bind_eq_ok_iff, parse_iff, checkProfile_ca, checkProfile_endEntity,
    refuse_eq_ok_iff, verifySignature_iff, metadataSpki_iff, pinWire_iff, touchWire_iff,
    Except.mapError_eq_ok_iff, expectedSubject hder, exists_const, not_not, ne_eq]
  have hdepth : ∀ cert : Certificate,
      (if ¬ cert.tbsCertificate.subject = cert.tbsCertificate.issuer then (1 : UInt8) else 0).toNat =
        [cert].countP (fun cert => !selfIssued cert) := by
    intro cert
    by_cases h : cert.tbsCertificate.subject = cert.tbsCertificate.issuer <;> simp [selfIssued, h]
  have hself : ∀ cert : Certificate, cert.tbsCertificate.issuer = cert.tbsCertificate.subject ↔
      selfIssued cert = true := by
    intro cert
    simp [selfIssued, eq_comm]
  constructor
  · rintro ⟨leaf, hleaf, issuer, hissuer, rootCert, hroot, hlp, hip, hrp, hsi, hrs, his, hls, hgen,
      tspki, ⟨tkey, htkey, htder⟩, sspki, ⟨skey, hskey, hsder⟩, htsame, hssame, subject, hsub,
      hsubject, hserial, pinCode, ⟨pin, hpin, hpc⟩, touchCode, ⟨touch, htouch, htc⟩, hpol, hrep⟩
    have hd := hlp.1.distinct
    cases hsub
    refine ⟨⟨leaf, issuer, rootCert, hleaf, hissuer, hroot, ?_, ?_⟩, ?_⟩
    · refine ⟨?_, hlp.2, hip.2, hdepth issuer ▸ hrp.2, (hself rootCert).mp hsi, hrs, his, hls⟩
      intro cert hc
      simp only [List.mem_cons, List.not_mem_nil, or_false] at hc
      rcases hc with rfl | rfl | rfl
      · exact hlp.1
      · exact hip.1
      · exact hrp.1
    · exact ⟨hgen, ⟨tkey, tspki, htkey, htder, htsame⟩, ⟨skey, sspki, hskey, hsder, hssame⟩, hsubject,
        (extension_eq_some_iff hd).mp hserial, pin, touch, pinCode, touchCode, hpin, htouch, hpc, htc,
        (extension_eq_some_iff hd).mp hpol⟩
    · cases hrep
      rfl
  · rintro ⟨⟨leaf, issuer, rootCert, hleaf, hissuer, hroot, hc, hb⟩, rfl⟩
    have hlp := hc.profiles leaf (by simp)
    obtain ⟨tkey, tspki, htkey, htder, htsame⟩ := hb.targetKey
    obtain ⟨skey, sspki, hskey, hsder, hssame⟩ := hb.signerKey
    obtain ⟨pin, touch, pinCode, touchCode, hpin, htouch, hpc, htc, hpol⟩ := hb.policies
    exact ⟨leaf, hleaf, issuer, hissuer, rootCert, hroot, ⟨hlp, hc.endEntity⟩,
      ⟨hc.profiles issuer (by simp), hc.issuerCa⟩,
      ⟨hc.profiles rootCert (by simp), (hdepth issuer).symm ▸ hc.rootCa⟩,
      (hself rootCert).mpr hc.rootSelfIssued, hc.rootSigned, hc.issuerSigned, hc.leafSigned,
      hb.generated, tspki, ⟨tkey, htkey, htder⟩, sspki, ⟨skey, hskey, hsder⟩, htsame, hssame, _, rfl,
      hb.subject, (extension_eq_some_iff hlp.distinct).mpr hb.serial, pinCode, ⟨pin, hpin, hpc⟩,
      touchCode, ⟨touch, htouch, htc⟩, (extension_eq_some_iff hlp.distinct).mpr hpol, rfl⟩

/-- The chain of the tests is accepted in 2030, so it meets the policy. -/
theorem verify_iff_fixture :
    Policy Fixture.testCrates Fixture.evidence Fixture.rootDer 1893456000 := by
  have hok : ∃ report,
      verify Fixture.testCrates Fixture.evidence Fixture.rootDer 1893456000 = .ok report := by
    refine ⟨⟨Fixture.testCrates.sha256 Fixture.rootDer⟩, ?_⟩
    decide +kernel
  obtain ⟨report, hreport⟩ := hok
  have hder : Fixture.testCrates.der.Documented := referenceDer_documented
  exact ((verify_iff Fixture.testCrates hder Fixture.evidence Fixture.rootDer 1893456000 report).mp hreport).1

end Attestation
