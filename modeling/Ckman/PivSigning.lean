import Ckman.Piv
import Ckman.PivKeyOperations
import Ckman.ReferenceCard

/-!
# Certificates signed on the card

The host builds what is to be signed, the card signs it once, and the host puts
both together. A run of either generator sends nothing to the card before
everything else has succeeded, and what it returns is determined by the one
operation that it asks the card for.
-/
namespace PivKeys

open Host Interaction X509
open Piv (Answer PivError Operation Access Slot Algorithm Device World environment)
open RsaSignature (HashAlgorithm)

variable {E : Type}

/-- The functions of libcanokey about private keys, for one device profile, and
of the crates that build certificates. -/
structure KeyCrates where
  codec : Codec
  /-- `HashAlgorithm::hash`. -/
  digest : HashAlgorithm → Bytes → Bytes
  perform : Slot → (operation : KeyOperation) → Access → Except Piv.Error (Operation operation.Output)

/-- `PivError`, with the errors of the builders. -/
inductive SignError (E : Type) where
  | piv (error : PivError E)
  | x509 (error : BuildError)
  deriving DecidableEq, Repr

structure SignRequest where
  slot : Slot
  /-- Key algorithm; must match the slot key. -/
  algorithm : Algorithm
  /-- The public key of the slot. -/
  spkiDer : Bytes
  /-- Subject as an RFC 4514 string. -/
  subject : String
  hash : Option HashAlgorithm
  access : Access

/-- `?` on a result of the builders. -/
def build {α : Type} (r : Except BuildError α) : Fallible (Answer E) (SignError E) α :=
  orThrow (r.mapError .x509)

variable (crates : KeyCrates)

/-- Hash and (for RSA) pad `message`, and sign it with the slot key. -/
def signMessage (slot : Slot) (algorithm : Algorithm) (hash : Option HashAlgorithm) (message : Bytes)
    (access : Access) : Fallible (Answer E) (SignError E) Bytes := do
  let operation ← build (messageOperation crates.digest algorithm hash message)
  mapError .piv (Piv.run (crates.perform slot (.sign operation) access))

def subjectOf (request : SignRequest) : Except BuildError Name :=
  (parseRfc4514 crates.codec.toDer request.subject).mapError .parse

/-- `serial[0] &= 0x7f`. -/
def clearSign (serial : Bytes) : Bytes := serial.modifyHead (· &&& 0x7f)

/-- Generate a self-signed certificate, signing with the slot key on-device. -/
def generateSelfSignedCertificate (request : SignRequest) (notBefore notAfter : Int) :
    Fallible (Answer E) (SignError E) Bytes := do
  let subject ← build (subjectOf crates request)
  let algorithm ← build (signatureAlgorithm crates.codec request.algorithm request.hash)
  let random ← mapError .piv (Piv.fill 16)
  -- Keep the serial INTEGER positive.
  let serial := clearSign random.val
  let tbs ← build (tbsSelfSigned crates.codec request.spkiDer subject serial notBefore notAfter algorithm)
  let signature ← signMessage crates request.slot request.algorithm request.hash tbs request.access
  build (assembleCertificate crates.codec tbs algorithm signature)

def generateCsr (request : SignRequest) : Fallible (Answer E) (SignError E) Bytes := do
  let subject ← build (subjectOf crates request)
  let algorithm ← build (signatureAlgorithm crates.codec request.algorithm request.hash)
  let cri ← build (certificationRequestInfo crates.codec request.spkiDer subject)
  let signature ← signMessage crates request.slot request.algorithm request.hash cri request.access
  build (assembleCsr crates.codec cri algorithm signature)

variable {crates : KeyCrates} {request : SignRequest} {notBefore notAfter : Int}

/-- The certificate that a request stands for, and its encoding. The sign bit of the
serial number is clear; that it is not zero is left to the random generator. -/
structure ToBeSigned (crates : KeyCrates) (request : SignRequest) (notBefore notAfter : Int) (tbs : TbsCertificate)
    (tbsDer : Bytes) : Prop where
  encoded : crates.codec.tbsToDer tbs = .ok tbsDer
  version : tbs.version = .v3
  subject : parseRfc4514 crates.codec.toDer request.subject = .ok tbs.subject
  selfIssued : tbs.issuer = tbs.subject
  publicKey : crates.codec.spkiFromDer request.spkiDer = .ok tbs.subjectPublicKeyInfo
  serial : tbs.serialNumber < 2 ^ 127
  ordered : 0 ≤ notBefore ∧ notBefore ≤ notAfter ∧ notAfter ≤ lastSecond
  notBefore : (tbs.validity.notBefore.seconds : Int) = notBefore
  notAfter : (tbs.validity.notAfter.seconds : Int) = notAfter
  plain : tbs.issuerUniqueId = none ∧ tbs.subjectUniqueId = none ∧ tbs.extensions = none

structure Requests (crates : KeyCrates) (request : SignRequest) (info : CertReqInfo) (criDer : Bytes) : Prop where
  encoded : crates.codec.infoToDer info = .ok criDer
  version : info.version = .v1
  subject : parseRfc4514 crates.codec.toDer request.subject = .ok info.subject
  publicKey : crates.codec.spkiFromDer request.spkiDer = .ok info.publicKey
  plain : info.attributes = []

theorem subjectOf_eq_ok_iff {subject : Name} :
    subjectOf crates request = .ok subject ↔ parseRfc4514 crates.codec.toDer request.subject = .ok subject := by
  rw [subjectOf]
  cases parseRfc4514 crates.codec.toDer request.subject <;> simp [Except.mapError]

theorem codecError_eq_ok_iff {α : Type} {r : Except String α} {a : α} : codecError r = .ok a ↔ r = .ok a := by
  cases r <;> simp [codecError, Except.mapError]

theorem time_ok {seconds : Int} {t : Time} (h : time seconds = .ok t) :
    0 ≤ seconds ∧ seconds ≤ lastSecond ∧ (t.seconds : Int) = seconds := by
  rw [time] at h
  split at h
  · cases h
  · rename_i hrange
    have hbounds : 0 ≤ seconds ∧ seconds ≤ lastSecond := by omega
    refine ⟨hbounds.1, hbounds.2, ?_⟩
    split at h <;> obtain rfl := Except.ok.inj h
    · exact Int.toNat_of_nonneg hbounds.1
    · exact Int.toNat_of_nonneg hbounds.1

/-- An interval that is accepted lies in the range of ASN.1 times. -/
theorem validity_ok {interval : Validity} (h : validity notBefore notAfter = .ok interval) :
    (0 ≤ notBefore ∧ notBefore ≤ notAfter ∧ notAfter ≤ lastSecond) ∧
      (interval.notBefore.seconds : Int) = notBefore ∧ (interval.notAfter.seconds : Int) = notAfter := by
  rw [validity] at h
  split at h
  · cases h
  · rename_i horder
    obtain ⟨first, hfirst, h⟩ := Except.bind_eq_ok_iff.mp h
    obtain ⟨last, hlast, h⟩ := Except.bind_eq_ok_iff.mp h
    obtain rfl := Except.ok.inj h
    obtain ⟨hlow, -, hfirst⟩ := time_ok hfirst
    obtain ⟨-, hhigh, hlast⟩ := time_ok hlast
    exact ⟨⟨hlow, by omega, hhigh⟩, hfirst, hlast⟩

/-- Sixteen bytes without the sign bit stand for a number below `2 ^ 127`. -/
theorem decode_clearSign {serial : Bytes} (h : serial.length = 16) : BigEndian.decode (clearSign serial) < 2 ^ 127 := by
  cases serial with
  | nil => cases h
  | cons b rest =>
    have hrest : BigEndian.decode rest < 256 ^ rest.length := BigEndian.decode_lt rest
    have hlen : rest.length = 15 := Nat.succ.inj h
    have hbyte : (b &&& 0x7f).toNat < 128 := by
      rw [UInt8.toNat_and]
      exact Nat.lt_succ_of_le Nat.and_le_right
    rw [clearSign, List.modifyHead_cons, BigEndian.decode, hlen]
    rw [hlen] at hrest
    omega

theorem tbsSelfSigned_ok (hcodec : crates.codec.Documented) {subject : Name} {serial : Bytes}
    {algorithm : AlgorithmIdentifier} {tbsDer : Bytes}
    (hsubject : parseRfc4514 crates.codec.toDer request.subject = .ok subject) (hserial : serial.length = 16)
    (h : tbsSelfSigned crates.codec request.spkiDer subject (clearSign serial) notBefore notAfter algorithm =
      .ok tbsDer) :
    ∃ tbs, ToBeSigned crates request notBefore notAfter tbs tbsDer ∧ tbs.signature = algorithm := by
  rw [tbsSelfSigned] at h
  obtain ⟨serialNumber, hnumber, h⟩ := Except.bind_eq_ok_iff.mp h
  obtain ⟨interval, hinterval, h⟩ := Except.bind_eq_ok_iff.mp h
  obtain ⟨publicKey, hkey, h⟩ := Except.bind_eq_ok_iff.mp h
  obtain rfl := hcodec.serialNumber _ _ (codecError_eq_ok_iff.mp hnumber)
  obtain ⟨hordered, hfirst, hlast⟩ := validity_ok hinterval
  refine ⟨_, ⟨codecError_eq_ok_iff.mp h, rfl, hsubject, rfl, codecError_eq_ok_iff.mp hkey, decode_clearSign hserial,
    hordered, hfirst, hlast, rfl, rfl, rfl⟩, rfl⟩

def signedCertificate (codec : Codec) (tbs : TbsCertificate) (signature : Bytes) : Except String Bytes := do
  let bits ← codec.bitString 0 signature
  codec.certificateToDer ⟨tbs, tbs.signature, bits⟩

def signedRequest (codec : Codec) (info : CertReqInfo) (algorithm : AlgorithmIdentifier) (signature : Bytes) :
    Except String Bytes := do
  let bits ← codec.bitString 0 signature
  codec.requestToDer ⟨info, algorithm, bits⟩

theorem codecError_bind {α β : Type} (r : Except String α) (f : α → Except String β) :
    codecError (r >>= f) = codecError r >>= fun a => codecError (f a) := by
  cases r <;> rfl

/-- What was encoded and signed is what the certificate contains. -/
theorem assembleCertificate_eq (hcodec : crates.codec.Documented) {tbs : TbsCertificate} {tbsDer : Bytes}
    (htbs : crates.codec.tbsToDer tbs = .ok tbsDer) (signature : Bytes) :
    assembleCertificate crates.codec tbsDer tbs.signature signature =
      codecError (signedCertificate crates.codec tbs signature) := by
  rw [assembleCertificate, hcodec.tbs tbs tbsDer htbs, signedCertificate, codecError_bind]
  simp [codecError, Except.mapError, Bind.bind, Except.bind]

theorem assembleCsr_eq (hcodec : crates.codec.Documented) {info : CertReqInfo} {algorithm : AlgorithmIdentifier}
    {criDer : Bytes} (hinfo : crates.codec.infoToDer info = .ok criDer) (signature : Bytes) :
    assembleCsr crates.codec criDer algorithm signature =
      codecError (signedRequest crates.codec info algorithm signature) := by
  rw [assembleCsr, hcodec.info info criDer hinfo, signedRequest, codecError_bind]
  rfl

section Runs

variable {σ : Type} {device : Device E σ} {w u : World σ} {o : Option (Except (SignError E) Bytes)}

theorem build_bind_iff {α β : Type} {r : Except BuildError α} {f : α → Fallible (Answer E) (SignError E) β}
    {o : Option (Except (SignError E) β)} :
    Fallible.Runs (environment device) (build r >>= f) w o u ↔
      (∃ e, r = .error e ∧ o = some (.error (.x509 e)) ∧ u = w) ∨
      ∃ a, r = .ok a ∧ Fallible.Runs (environment device) (f a) w o u := by
  rw [build, Fallible.orThrow_bind_iff]
  cases r <;> simp [Except.mapError]

theorem fill_world {n : Nat} {o : Option (Except (SignError E) { bytes : Bytes // bytes.length = n })}
    (h : Fallible.Runs (environment device) (mapError SignError.piv (Piv.fill n)) w o u) : u = w := by
  obtain ⟨o', -, h⟩ := Fallible.mapError_iff.mp h
  exact Piv.Runs.fill_world h

/-- A message that cannot be prepared is not sent. -/
theorem signMessage_iff {slot : Slot} {algorithm : Algorithm} {hash : Option HashAlgorithm} {message : Bytes}
    {access : Access} : Fallible.Runs (environment device) (signMessage crates slot algorithm hash message access) w o u ↔
      (∃ e, messageOperation crates.digest algorithm hash message = .error e ∧ o = some (.error (.x509 e)) ∧ u = w) ∨
      ∃ operation o', messageOperation crates.digest algorithm hash message = .ok operation ∧
        o = o'.map (Except.mapError .piv) ∧
        Fallible.Runs (environment device) (Piv.run (crates.perform slot (.sign operation) access)) w o' u := by
  refine build_bind_iff.trans (or_congr_right ?_)
  constructor
  · rintro ⟨operation, hoperation, hr⟩
    obtain ⟨o', ho, hr⟩ := Fallible.mapError_iff.mp hr
    exact ⟨operation, o', hoperation, ho, hr⟩
  · rintro ⟨operation, o', hoperation, ho, hr⟩
    exact ⟨operation, hoperation, Fallible.mapError_iff.mpr ⟨o', ho, hr⟩⟩

/-- The one operation that a run asks the card for, and what comes out for each of its
ends; `assembled` puts together what was signed and the signature. -/
structure Asks (device : Device E σ) (crates : KeyCrates) (request : SignRequest) (scheme : Scheme) (message : Bytes)
    (assembled : Bytes → Except String Bytes) (w : World σ) (o : Option (Except (SignError E) Bytes)) (u : World σ)
    (operation : SignOperation) (o' : Option (Except (PivError E) Bytes)) : Prop where
  key : request.algorithm ∈ scheme.keys
  hash : request.hash = scheme.hash
  signs : scheme.Signs crates.digest request.algorithm message operation
  performed : Fallible.Runs (environment device)
    (Piv.run (crates.perform request.slot (.sign operation) request.access)) w o' u
  stopped : o' = none → o = none
  failed : ∀ e, o' = some (.error e) → o = some (.error (.piv e))
  signed : ∀ signature, o' = some (.ok signature) →
    o = some ((codecError (assembled signature)).mapError .x509)

/-- The end of both generators. -/
theorem signMessage_runs (hlength : ∀ hash message, (crates.digest hash message).length = hash.outputLength)
    {scheme : Scheme} (hkey : request.algorithm ∈ scheme.keys) (hhash : request.hash = scheme.hash) {message : Bytes}
    {assemble : Bytes → Except BuildError Bytes} {assembled : Bytes → Except String Bytes}
    (hassemble : ∀ signature, assemble signature = codecError (assembled signature))
    (hr : Fallible.Runs (environment device)
      (signMessage crates request.slot request.algorithm request.hash message request.access >>= fun signature =>
        build (assemble signature)) w o u) :
    (u = w ∧ ∀ der, o ≠ some (.ok der)) ∨
      ∃ operation o', Asks device crates request scheme message assembled w o u operation o' := by
  have hsigns : ∀ {operation}, messageOperation crates.digest request.algorithm request.hash message =
      .ok operation → scheme.Signs crates.digest request.algorithm message operation :=
    fun h => messageOperation_signs hlength hkey (hhash ▸ h)
  rcases Fallible.bind_iff.mp hr with ⟨rfl, hsign⟩ | ⟨e, rfl, hsign⟩ | ⟨signature, v, hsign, hbuild⟩
  · rcases signMessage_iff.mp hsign with ⟨e, -, ho, -⟩ | ⟨operation, o', hoperation, ho, hperform⟩
    · cases ho
    · obtain rfl := Option.map_eq_none_iff.mp ho.symm
      exact .inr ⟨operation, none, hkey, hhash, hsigns hoperation, hperform, fun _ => rfl,
        (fun _ h => by cases h), fun _ h => by cases h⟩
  · rcases signMessage_iff.mp hsign with ⟨e', -, -, rfl⟩ | ⟨operation, o', hoperation, ho, hperform⟩
    · exact .inl ⟨rfl, fun _ h => by cases h⟩
    · rcases o' with _ | e' | signature <;> cases ho
      refine .inr ⟨operation, _, hkey, hhash, hsigns hoperation, hperform, (fun h => by cases h), ?_,
        fun _ h => by cases h⟩
      intro e h
      cases h
      rfl
  · rcases signMessage_iff.mp hsign with ⟨e, -, ho, -⟩ | ⟨operation, o', hoperation, ho, hperform⟩
    · cases ho
    · rcases o' with _ | e' | signature' <;> cases ho
      obtain ⟨rfl, rfl⟩ := Fallible.orThrow_iff.mp hbuild
      refine .inr ⟨operation, _, hkey, hhash, hsigns hoperation, hperform, (fun h => by cases h),
        (fun _ h => by cases h), ?_⟩
      intro signature'' h
      cases h
      rw [hassemble]

/-- A run either sends nothing to the card and returns nothing, or it has built the
certificate of the request and asks the card once to sign it, by the scheme that the
certificate names. What comes out is then fixed by the end of that one operation: the
certificate with the card's signature, the failure to encode it, or the card's error. -/
theorem generateSelfSignedCertificate_runs (hcodec : crates.codec.Documented)
    (hlength : ∀ hash message, (crates.digest hash message).length = hash.outputLength)
    (hr : Fallible.Runs (environment device) (generateSelfSignedCertificate crates request notBefore notAfter) w o u) :
    (u = w ∧ ∀ der, o ≠ some (.ok der)) ∨
    ∃ tbs tbsDer scheme operation o', ToBeSigned crates request notBefore notAfter tbs tbsDer ∧
      tbs.signature.oid.dotted = scheme.oid ∧ tbs.signature.parameters = scheme.parameters ∧
      Asks device crates request scheme tbsDer (signedCertificate crates.codec tbs) w o u operation o' := by
  rw [generateSelfSignedCertificate] at hr
  rcases build_bind_iff.mp hr with ⟨e, -, rfl, rfl⟩ | ⟨subject, hsubject, hr₁⟩
  · exact .inl ⟨rfl, nofun⟩
  rcases build_bind_iff.mp hr₁ with ⟨e, -, rfl, rfl⟩ | ⟨algorithm, halgorithm, hr₂⟩
  · exact .inl ⟨rfl, nofun⟩
  obtain ⟨scheme, hkey, hhash, hoid, hparameters⟩ := signatureAlgorithm_ok hcodec halgorithm
  rcases Fallible.bind_iff.mp hr₂ with ⟨rfl, hfill⟩ | ⟨e, rfl, hfill⟩ | ⟨random, v, hfill, hr₃⟩
  · exact .inl ⟨fill_world hfill, nofun⟩
  · exact .inl ⟨fill_world hfill, nofun⟩
  obtain rfl := fill_world hfill
  rcases build_bind_iff.mp hr₃ with ⟨e, -, rfl, rfl⟩ | ⟨tbsDer, htbsDer, hr₄⟩
  · exact .inl ⟨rfl, nofun⟩
  obtain ⟨tbs, htbs, rfl⟩ := tbsSelfSigned_ok hcodec (subjectOf_eq_ok_iff.mp hsubject) random.2 htbsDer
  rcases signMessage_runs hlength hkey hhash (assembleCertificate_eq hcodec htbs.encoded) hr₄ with
    hnothing | ⟨operation, o', hasks⟩
  · exact .inl hnothing
  · exact .inr ⟨tbs, tbsDer, scheme, operation, o', htbs, hoid, hparameters, hasks⟩

namespace Fixture

open Reference
open X509 (commonName)

def ed25519 : Oid := ⟨[1, 3, 101, 112]⟩

/-- The public key of the first test vector of RFC 8032. -/
def cardKey : Bytes := [
  0xd7, 0x5a, 0x98, 0x01, 0x82, 0xb1, 0x0a, 0xb7, 0xd5, 0x4b, 0xfe, 0xd3, 0xc9, 0x64, 0x07, 0x3a,
  0x0e, 0xe1, 0x72, 0xf3, 0xda, 0xa6, 0x23, 0x25, 0xaf, 0x02, 0x1a, 0x68, 0xf7, 0x07, 0x51, 0x1a]

def algorithmDer : Bytes := [0x30, 0x05, 0x06, 0x03, 0x2b, 0x65, 0x70]

def cardSpki : Bytes := [0x30, 0x2a] ++ algorithmDer ++ [0x03, 0x21, 0x00] ++ cardKey

def cardName : Name := [[⟨commonName, ⟨.utf8String, asBytes "Card"⟩⟩]]

def certificate : TbsCertificate where
  version := .v3
  serialNumber := 2 ^ 127 - 1
  signature := ⟨ed25519, none⟩
  issuer := cardName
  validity := ⟨.utcTime 1700000000, .utcTime 1731536000⟩
  subject := cardName
  subjectPublicKeyInfo := ⟨⟨ed25519, none⟩, ⟨0, cardKey⟩⟩
  issuerUniqueId := none
  subjectUniqueId := none
  extensions := none

def cardNameDer : Bytes :=
  [0x30, 0x0f, 0x31, 0x0d, 0x30, 0x0b, 0x06, 0x03, 0x55, 0x04, 0x03, 0x0c, 0x04, 0x43, 0x61, 0x72, 0x64]

/-- The DER of `certificate`, 143 bytes. -/
def certificateTbs : Bytes :=
  [0x30, 0x81, 0x8c, 0xa0, 0x03, 0x02, 0x01, 0x02, 0x02, 0x10, 0x7f] ++ List.replicate 15 0xff ++
    algorithmDer ++ cardNameDer ++ [0x30, 0x1e] ++
    [0x17, 0x0d] ++ asBytes "231114221320Z" ++ [0x17, 0x0d] ++ asBytes "241113221320Z" ++ cardNameDer ++ cardSpki

/-- The signature of the key over `certificateTbs`. -/
def cardSignature : Bytes := [
  0xa6, 0x2f, 0xbf, 0x8c, 0xb0, 0x98, 0xb9, 0xaf, 0xb5, 0xbd, 0x66, 0x56, 0x1c, 0x1b, 0xe8, 0xe8,
  0xb5, 0xdc, 0xed, 0xe2, 0x21, 0xc2, 0xf7, 0x45, 0x62, 0x87, 0xf2, 0x2a, 0xe6, 0x6a, 0x07, 0x5e,
  0x7e, 0xe7, 0xbd, 0x41, 0xf3, 0x2d, 0xe4, 0x4f, 0x94, 0x74, 0x14, 0xbd, 0x0d, 0x53, 0x6e, 0xd3,
  0x46, 0xf5, 0x61, 0xe7, 0xc7, 0x50, 0x13, 0x94, 0xb0, 0x14, 0xcf, 0xa8, 0xbf, 0x8f, 0x2e, 0x0a]

def certificateDer : Bytes :=
  [0x30, 0x81, 0xd9] ++ certificateTbs ++ algorithmDer ++ [0x03, 0x41, 0x00] ++ cardSignature

def signedBy (signature : Bytes) : Certificate := ⟨certificate, ⟨ed25519, none⟩, ⟨0, signature⟩⟩

/-- The identifiers of the attribute table and of Ed25519, and the encodings of one key
and one certificate. -/
def codec : Codec :=
  { referenceDer with
    oid := fun text =>
      match (ed25519 :: attributeOids).find? (fun oid => oid.dotted = text) with
      | some oid => .ok oid
      | none => .error "malformed OID"
    serialNumber := fun bytes => if bytes.length ≤ 20 then .ok (BigEndian.decode bytes) else .error "overlength"
    spkiFromDer := fun bytes => if bytes = cardSpki then .ok ⟨⟨ed25519, none⟩, ⟨0, cardKey⟩⟩ else .error "unknown key"
    bitString := fun unused bytes => if unused < 8 then .ok ⟨unused, bytes⟩ else .error "unused bits"
    tbsToDer := fun tbs => if tbs = certificate then .ok certificateTbs else .error "unknown certificate"
    tbsFromDer := fun bytes => if bytes = certificateTbs then .ok certificate else .error "unknown certificate"
    certificateToDer := fun signed =>
      if signed = signedBy cardSignature then .ok certificateDer else .error "unknown certificate"
    infoToDer := fun _ => .error "unknown request"
    infoFromDer := fun _ => .error "unknown request"
    requestToDer := fun _ => .error "unknown request" }

theorem codec_documented : codec.Documented where
  oid text oid h := by
    dsimp only [codec] at h
    split at h
    · next found hfound =>
      obtain rfl := Except.ok.inj h
      simpa using List.find?_some hfound
    · cases h
  serialNumber bytes serial h := by
    dsimp only [codec] at h
    split at h
    · exact (Except.ok.inj h).symm
    · cases h
  bitString unused bytes bits h := by
    dsimp only [codec] at h
    split at h
    · exact (Except.ok.inj h).symm
    · cases h
  tbs tbs bytes h := by
    dsimp only [codec] at h
    split at h
    · next heq =>
      obtain rfl := Except.ok.inj h
      rw [heq]
      simp [codec]
    · cases h
  info _ _ h := by cases h

def signCommand (message : Bytes) : Bytes :=
  let data := Der.tlv 0x7c ([0x82, 0x00] ++ Der.tlv 0x81 message)
  [0x00, 0x87, 0xe0, 0x9a, UInt8.ofNat data.length] ++ data

def signatureOf (response : Bytes) : Except Piv.Error Bytes :=
  match Der.read response with
  | some (0x7c, value, [0x90, 0x00]) => okOr (Der.element 0x82 value) malformed
  | _ => .error (failure .securityStatusNotSatisfied)

def cardMetadata : Bytes :=
  [0x01, 0x01, 0xe0, 0x02, 0x02, 0x02, 0x01, 0x03, 0x01, 0x01, 0x04, 0x22, 0x86, 0x20] ++ cardKey

def vectors : Vectors :=
  { knownAnswers with
    keys := [⟨metadataCommand 0x9a, cardMetadata ++ success⟩,
      ⟨signCommand certificateTbs, Der.tlv 0x7c (Der.tlv 0x82 cardSignature) ++ success⟩] }

def keyCrates : KeyCrates where
  codec := codec
  digest hash _ := List.replicate hash.outputLength 0
  perform slot operation access :=
    match operation with
    | .sign (.sign .ed25519 (.message message)) =>
      accept (slot = .authentication) (withAccess vectors access (finish (signCommand message) signatureOf))
    | _ => .error (failure .unsupportedFeature)

def cardRequest : SignRequest := ⟨.authentication, .ed25519, cardSpki, "CN=Card", none, .none⟩

def start : World Chip := cardWith ⟨.aes192, exampleKey.val⟩ [] 3

/-- The random generator yields ones, and every exchange works. -/
def played : Option (Except (SignError IoError) Bytes) × World Chip :=
  play vectors (List.replicate 3 (.works 0xff))
    (generateSelfSignedCertificate keyCrates cardRequest 1700000000 1731536000) start

end Fixture

theorem generateSelfSignedCertificate_runs_ed25519 :
    Fixture.played.1 = some (.ok Fixture.certificateDer) ∧
      ∃ tbs tbsDer scheme operation o',
        ToBeSigned Fixture.keyCrates Fixture.cardRequest 1700000000 1731536000 tbs tbsDer ∧
        tbs.signature.oid.dotted = scheme.oid ∧ tbs.signature.parameters = scheme.parameters ∧
        Asks (Reference.device Fixture.vectors : Device IoError Reference.Chip) Fixture.keyCrates
          Fixture.cardRequest scheme tbsDer (signedCertificate Fixture.codec tbs) Fixture.start
          (some (.ok Fixture.certificateDer)) Fixture.played.2 operation o' := by
  have hdone : Fixture.played.1 = some (.ok Fixture.certificateDer) := by decide +kernel
  have hruns := Reference.play_runs Fixture.vectors hdone
  exact ⟨hdone, (generateSelfSignedCertificate_runs Fixture.codec_documented (fun hash _ => List.length_replicate)
    hruns).resolve_left fun hnothing => hnothing.2 _ rfl⟩

/-- The same for a request, which carries the key and the subject only. -/
theorem generateCsr_runs (hcodec : crates.codec.Documented)
    (hlength : ∀ hash message, (crates.digest hash message).length = hash.outputLength)
    (hr : Fallible.Runs (environment device) (generateCsr crates request) w o u) :
    (u = w ∧ ∀ der, o ≠ some (.ok der)) ∨
    ∃ info criDer algorithm scheme operation o', Requests crates request info criDer ∧
      algorithm.oid.dotted = scheme.oid ∧ algorithm.parameters = scheme.parameters ∧
      Asks device crates request scheme criDer (signedRequest crates.codec info algorithm) w o u operation o' := by
  rw [generateCsr] at hr
  rcases build_bind_iff.mp hr with ⟨e, -, rfl, rfl⟩ | ⟨subject, hsubject, hr₁⟩
  · exact .inl ⟨rfl, nofun⟩
  rcases build_bind_iff.mp hr₁ with ⟨e, -, rfl, rfl⟩ | ⟨algorithm, halgorithm, hr₂⟩
  · exact .inl ⟨rfl, nofun⟩
  obtain ⟨scheme, hkey, hhash, hoid, hparameters⟩ := signatureAlgorithm_ok hcodec halgorithm
  rcases build_bind_iff.mp hr₂ with ⟨e, -, rfl, rfl⟩ | ⟨criDer, hcriDer, hr₃⟩
  · exact .inl ⟨rfl, nofun⟩
  obtain ⟨publicKey, hpublic, hinfo⟩ := Except.bind_eq_ok_iff.mp hcriDer
  have hrequest : Requests crates request ⟨.v1, subject, publicKey, []⟩ criDer :=
    ⟨codecError_eq_ok_iff.mp hinfo, rfl, subjectOf_eq_ok_iff.mp hsubject, codecError_eq_ok_iff.mp hpublic, rfl⟩
  rcases signMessage_runs hlength hkey hhash (assembleCsr_eq hcodec hrequest.encoded) hr₃ with
    hnothing | ⟨operation, o', hasks⟩
  · exact .inl hnothing
  · exact .inr ⟨_, criDer, algorithm, scheme, operation, o', hrequest, hoid, hparameters, hasks⟩

end Runs

end PivKeys
