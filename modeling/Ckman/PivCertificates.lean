import Ckman.PivAccess
import Ckman.PivOverwrite
import Ckman.PivSigning
import Ckman.PublicKeyFile
import Ckman.Pkcs12
import Ckman.LeafCertificate

/-!
# The certificate commands

`piv certificates` stores a certificate from a file, has the card sign one for
its own key, or deletes one. What the commands print is left out.
-/
namespace PivCertificates

open Host Interaction CommandLine PivSession PivKeys
open Pem (KeyError pemDecode)
open Piv (Access Algorithm CertificateReference MetadataFields Operation PivError Slot TouchPolicy)
open RsaSignature (HashAlgorithm)
open X509 (BuildError)

/-- `canokey::x509::CertificateInfo`, as far as the commands look at it. -/
structure CertificateInfo where
  der : Bytes
  /-- The public key as a SubjectPublicKeyInfo. -/
  spkiDer : Bytes
  deriving DecidableEq, Repr

/-- The functions of libcanokey, for one device profile, and of the crates that
read and build certificates and keys. -/
structure CertificateCrates (Secret Point : Type) extends KeyCrates where
  piv : Piv.Crates
  slots : PivOverwrite.SlotCrates
  base64 : Pem.Base64
  publicKeys : Keys.SpkiCrates Secret Point
  pkcs12 : Pkcs12.Crates Secret Point
  names : Pkcs12.NameCrates
  /-- `PublicKey::algorithm`. -/
  algorithmOf : Piv.PublicKey → Algorithm
  /-- `canokey::x509::parse_der`. -/
  parseDer : Bytes → Except Piv.Error CertificateInfo
  writeCertificate : Slot → Bytes → Access → Except Piv.Error (Operation Unit)
  deleteCertificate : Slot → Access → Except Piv.Error (Operation Unit)
  /-- `profile.capability(Capability::CertificateDeletion).require()`. -/
  certificateDeletion : Except Piv.Error Unit
  /-- The error of a `TlvWriter` whose limit is exceeded. -/
  inputLimit : Piv.Error
  /-- How libcanokey displays an error. -/
  display : Piv.Error → String

/-- How a `KeyError` is displayed. -/
def keyMessage : KeyError → String
  | .pem => "invalid or unsupported PEM block"
  | .encoding => "invalid or unrecognized key encoding"
  | .unsupported => "unsupported key type"
  | .unsupportedEncryption => "unsupported private key encryption scheme; re-export using PBES2"
  | .password => "cannot decrypt the private key (wrong or missing password?)"
  | .rsaExponent => "only RSA keys with public exponent 65537 are supported"
  | .macMismatch => "PKCS#12 integrity check failed (wrong password or corrupted file?)"
  | .ambiguousCertificates => "several certificates in the bundle; extract the one to import"

variable {Secret Point : Type} (crates : CertificateCrates Secret Point)

/-- The container of a certificate: the DER, no compression, and no error code. -/
def certificateContainer (der : Bytes) : Option Bytes := do
  let written ← crates.piv.tlv.push [] 0x70 der
  let written ← crates.piv.tlv.push written 0x71 [0]
  crates.piv.tlv.push written 0xfe []

/-- Store a nonempty certificate in an ordinary or F9 container, retaining its key. -/
def writeCertificateAt (reference : CertificateReference) (der : Bytes) (access : Access) :
    Fallible (Piv.Answer IoError) (PivError IoError) Unit := do
  orThrow ((PivOverwrite.check crates.slots reference).mapError fun e => .drive (.protocol e))
  match reference with
  | .key slot => Piv.run (crates.writeCertificate slot der access)
  | .attestation => do
    orThrow (refuse (der = []) (.ofKind .invalidArgument))
    let object ← orThrow (okOr (certificateContainer crates der) (.drive (.protocol crates.inputLimit)))
    Piv.run (crates.piv.writeObject (PivOverwrite.objectId crates.slots reference) object access)

/-- Delete an ordinary or F9 certificate without deleting its key. -/
def deleteCertificateAt (reference : CertificateReference) (access : Access) :
    Fallible (Piv.Answer IoError) (PivError IoError) Unit := do
  orThrow ((PivOverwrite.check crates.slots reference).mapError fun e => .drive (.protocol e))
  match reference with
  | .key slot => Piv.run (crates.deleteCertificate slot access)
  | .attestation => do
    orThrow (crates.certificateDeletion.mapError fun e => .drive (.protocol e))
    Piv.run (crates.piv.writeObject (PivOverwrite.objectId crates.slots reference) [] access)

/-- Missing or unsupported optional records are expected. -/
def optionalPiv {α : Type} : Except (PivError IoError) α → Except CliError (Option α)
  | .ok value => .ok (some value)
  | .error (.drive (.protocol error)) =>
    if (error.phase = .construction ∨ error.phase = .command) ∧
        (error.kind = .notFound ∨ error.kind = .unsupportedFeature) then .ok none
    else .error (.piv (.drive (.protocol error)))
  | .error error => .error (.piv error)

/-- Message-signing algorithms take no hash. -/
def certificateHash : Algorithm → HashAlgorithm → Option HashAlgorithm
  | .ed25519, _ | .sm2, _ | .mlDsa65, _ => none
  | _, hash => some hash

def keyError {α : Type} (r : Except KeyError α) : Except CliError α := r.mapError fun e => .text (keyMessage e)

def buildError {α : Type} (r : Except BuildError α) : Except CliError α := r.mapError fun e => .text e.message

/-- `to_spki_der`, for a message that begins like this. -/
def spkiOf (cannot : String) (key : Piv.PublicKey) : Except CliError Bytes :=
  (crates.slots.spkiDer key).mapError fun e => .text (cannot ++ crates.display e)

/-- A given public key must be the one that the metadata of the slot shows. -/
def validateSlotPublicKey (fields : MetadataFields) (algorithm : Algorithm) (spki : Bytes) : Except CliError Unit :=
  match fields.publicKey with
  | none => .ok ()
  | some key => do
    let actual ← spkiOf crates "cannot encode the slot public key: " key
    if crates.algorithmOf key ≠ algorithm then
      throw (.text "the public key does not match the private key in the slot")
    let same ← keyError (Keys.publicKeysEqual crates.base64 crates.publicKeys actual spki)
    refuse (same = false) (.text "the public key does not match the private key in the slot")

def readSigningPublicKey (file : Except IoError Bytes) (hash : HashAlgorithm) : Except CliError Keys.ImportedPublicKey := do
  let data ← file.mapError .io
  let parsed ← keyError (Keys.parsePublicKey crates.base64 crates.publicKeys data)
  let _ ← buildError (X509.signatureAlgorithm crates.codec parsed.algorithm (certificateHash parsed.algorithm hash))
  pure parsed

def certificatesFromPfx [DecidableEq Point] (input : Bytes) (password : Option Bytes) : Except KeyError (List Bytes) := do
  let data ← Pkcs12.parsePfx crates.pkcs12 input password
  refuse (data.certificates = []) .encoding
  pure data.certificates

def invalidCertificate {α : Type} (r : Except KeyError α) : Except CliError α :=
  r.mapError fun e => .text ("invalid certificate: " ++ keyMessage e)

def parseOne (der : Bytes) : Except CliError CertificateInfo :=
  (crates.parseDer der).mapError fun e => .text ("invalid certificate: " ++ crates.display e)

/-- The certificates of a bundle, whose password is asked for where it needs one. -/
def bundleCertificates [DecidableEq Point] (data : Bytes) : Command (List Bytes) :=
  match certificatesFromPfx crates data none with
  | .error .password => do
    let entered ← promptPassword "Enter the PKCS#12 password: "
    orThrow (invalidCertificate (certificatesFromPfx crates data (some (asBytes entered))))
  | other => orThrow (invalidCertificate other)

/-- A certificate in PEM armour, bare, or as the leaf of a PKCS#12 bundle. -/
def parseCertificateInput [DecidableEq Point] (data : Bytes) : Command CertificateInfo := do
  let (label, decoded) ← orThrow (invalidCertificate (pemDecode crates.base64 data ["CERTIFICATE".toList]))
  if label ≠ [] then orThrow (parseOne crates decoded)
  else
    match crates.parseDer data with
    | .ok certificate => pure certificate
    | .error _ => do
      let certificates ← bundleCertificates crates data
      let leaf ← orThrow (invalidCertificate (Pkcs12.leafCertificate crates.names certificates))
      let der ← onCard (Piv.unwrap certificates[leaf]?)
      orThrow (parseOne crates der)

/-- The files that the arguments name are given by what reading them yields. -/
structure ImportArgs where
  reference : CertificateReference
  certificate : Except IoError Bytes
  managementKey : Option String

structure GenerateArgs where
  slot : Slot
  publicKey : Option (Except IoError Bytes)
  subject : String
  validDays : UInt32
  hash : HashAlgorithm
  managementKey : Option String
  pin : Option String
  /-- The seconds since the Unix epoch, if the clock is not before it. -/
  clock : Option UInt64

structure DeleteArgs where
  reference : CertificateReference
  managementKey : Option String

inductive CertificatesCommand where
  | importCertificate (args : ImportArgs)
  | generate (args : GenerateArgs)
  | delete (args : DeleteArgs)

def slotPublicKey (reference : CertificateReference) : Command (Option Piv.PublicKey) :=
  let read :=
    match reference with
    | .key slot => Piv.run (crates.slots.keyMetadata slot)
    | .attestation => Piv.run crates.slots.attestationMetadata
  Prog.bind (onCard read) fun result =>
    .pure ((optionalPiv result).map fun fields => fields.bind MetadataFields.publicKey)

/-- A certificate must be for the key that it is stored with. -/
def checkCertificateKey (parsed : CertificateInfo) : Option Piv.PublicKey → Except CliError Unit
  | none => .ok ()
  | some key => do
    let slotSpki ← spkiOf crates "cannot encode the slot public key: " key
    let same ← keyError (Keys.publicKeysEqual crates.base64 crates.publicKeys slotSpki parsed.spkiDer)
    refuse (same = false) (.text "the certificate does not match the private key in the slot")

def storeCertificate (reference : CertificateReference) (der : Bytes) (management : ResolvedManagement) : Command Unit :=
  sessionRun (do
    let access ← management.access crates.piv
    writeCertificateAt crates reference der access)

def importCertificate [DecidableEq Point] (args : ImportArgs) : Command Unit := do
  let data ← orThrow (args.certificate.mapError .io)
  let parsed ← parseCertificateInput crates data
  let key ← slotPublicKey crates args.reference
  orThrow (checkCertificateKey crates parsed key)
  PivOverwrite.certificate crates.piv crates.slots args.reference .replace
  let management ← resolveManagement crates.piv args.managementKey none
  storeCertificate crates args.reference parsed.der management

/-- `i64::try_from` and `checked_add`. -/
def toInt64 (n : Int) : Except BuildError Int := if n < 2 ^ 63 then .ok n else .error .timeRange

/-- The beginning and the end of the validity, as far as they are given. -/
def validityOf (args : GenerateArgs) : Except CliError (Int × Int) := do
  let clock ← okOr args.clock (.text "system clock is before the Unix epoch")
  let now ← buildError (toInt64 clock.toNat)
  let notAfter ← buildError (toInt64 (now + args.validDays.toNat * 86400))
  let _ ← buildError (X509.validity now notAfter)
  pure (now, notAfter)

/-- The public key to certify: the one that was supplied, or that of the metadata. -/
def signingKey (supplied : Option Keys.ImportedPublicKey) (fields : MetadataFields) : Except CliError (Bytes × Algorithm) :=
  match supplied with
  | some parsed => .ok (parsed.spkiDer, parsed.algorithm)
  | none => do
    let key ← okOr fields.publicKey (.text "no public key metadata for this slot; supply PUBLIC-KEY")
    let spki ← spkiOf crates "cannot encode the public key: " key
    pure (spki, crates.algorithmOf key)

def describeSign : SignError IoError → CliError
  | .piv error => .piv error
  | .x509 error => .text error.message

/-- Everything that is checked before the certificate is asked about. -/
def preparedKey (args : GenerateArgs) (supplied : Option Keys.ImportedPublicKey) (fields : MetadataFields) :
    Except CliError (Bytes × Algorithm) := do
  let (spki, algorithm) ← signingKey crates supplied fields
  validateSlotPublicKey crates fields algorithm spki
  let _ ← buildError (X509.signatureAlgorithm crates.codec algorithm (certificateHash algorithm args.hash))
  pure (spki, algorithm)

def signCertificate (args : GenerateArgs) (interval : Int × Int) (key : Bytes × Algorithm)
    (management : ResolvedManagement) (pin : Piv.Pin) : Command Bytes :=
  mapError describeSign (onCard (do
    let access ← mapError .piv (management.pinAndManagement crates.piv pin)
    generateSelfSignedCertificate crates.toKeyCrates
      ⟨args.slot, key.2, key.1, args.subject, certificateHash key.2 args.hash, access⟩ interval.1 interval.2))

def generate (args : GenerateArgs) : Command Unit := do
  let _ ← orThrow (buildError ((X509.parseRfc4514 crates.codec.toDer args.subject).mapError .parse))
  let interval ← orThrow (validityOf args)
  let supplied ← orThrow (args.publicKey.mapM (readSigningPublicKey crates · args.hash))
  let fields ← sessionRun (Piv.run (crates.slots.keyMetadata args.slot))
  let key ← orThrow (preparedKey crates args supplied fields)
  PivOverwrite.certificate crates.piv crates.slots (.key args.slot) .replace
  let management ← resolveManagement crates.piv args.managementKey args.pin
  let pin ← PivAccess.pinOf crates.piv management args.pin "Enter PIN"
  let der ← signCertificate crates args interval key management pin
  storeCertificate crates (.key args.slot) der management

def delete (args : DeleteArgs) : Command Unit := do
  PivOverwrite.certificate crates.piv crates.slots args.reference .delete
  let management ← resolveManagement crates.piv args.managementKey none
  sessionRun (do
    let access ← management.access crates.piv
    deleteCertificateAt crates args.reference access)

def certificates [DecidableEq Point] : CertificatesCommand → Command Unit
  | .importCertificate args => importCertificate crates args
  | .generate args => generate crates args
  | .delete args => delete crates args

end PivCertificates
