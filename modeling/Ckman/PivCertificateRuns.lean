import Ckman.PivCertificates
import Ckman.PivGenerateBatch
import Ckman.PivManager
import Ckman.Pkcs12Calls

/-!
# What the certificate commands change

Whatever the card, the user and the clock do, a certificate command changes
nothing but the container that it names. What it stores there is for the key
that the card shows for the slot; a generated certificate is signed by the card
itself. An existing certificate is never touched without the user's consent.
-/
namespace PivCertificates

open Host Interaction CommandLine PivSession PivKeys PivManager
open Piv (Access Acts Algorithm Card CertificateReference Commits Device Keeps MetadataFields PivError Slot)

variable {Secret Point σ : Type}

/-- The documented behaviour of the functions that the commands call. -/
structure Documented (crates : CertificateCrates Secret Point) (device : Device IoError σ) (view : σ → Card) :
    Prop where
  piv : Piv.Documented crates.piv device view
  codec : crates.codec.Documented
  digest : ∀ hash message, (crates.digest hash message).length = hash.outputLength
  keyMetadata : ∀ slot, Acts device view (crates.slots.keyMetadata slot) Keeps
  attestationMetadata : Acts device view crates.slots.attestationMetadata Keeps
  /-- Using a key changes no object. -/
  perform : ∀ slot operation access, Acts device view (crates.perform slot operation access) Keeps
  /-- A certificate that fits is stored in its container. -/
  writeCertificate : ∀ slot der access object, certificateContainer crates der = some object →
    Acts device view (crates.writeCertificate slot der access)
      (Commits (.putData (crates.slots.certificateObject slot) object))
  writeCertificate_refused : ∀ slot der access, certificateContainer crates der = none →
    ∃ e, crates.writeCertificate slot der access = .error e
  deleteCertificate : ∀ slot access, Acts device view (crates.deleteCertificate slot access)
    (Commits (.putData (crates.slots.certificateObject slot) []))
  /-- Only the card says that an object is absent. -/
  attestation_refused : ∀ e, crates.slots.attestation = .error e → e.kind ≠ .notFound

section Runs

variable {crates : CertificateCrates Secret Point} {device : Device IoError σ} {view : σ → Card}
  {w u : World σ} {c : Card} {α β : Type}

def Returns (device : Device IoError σ) (view : σ → Card) (c : Card) (p : Command α) (a : α) : Prop :=
  ∃ w u, view w.piv.card = c ∧ Fallible.Runs (environment device) p w (some (.ok a)) u

/-- The program leaves the card alone and does not succeed, or it makes this change. -/
def Leads (device : Device IoError σ) (view : σ → Card) (c : Card) (change : Card → Prop) (p : Command Unit) : Prop :=
  ∀ w o u, view w.piv.card = c → Fallible.Runs (environment device) p w o u →
    (view u.piv.card = c ∧ o ≠ some (.ok ())) ∨ change (view u.piv.card)

/-- What follows a step that leaves the card alone may rely on what it returned. -/
theorem Leads.after {change : Card → Prop} {p : Command α} {f : α → Command Unit} (hp : Still device view p)
    (hf : ∀ a, Returns device view c p a → Leads device view c change (f a)) :
    Leads device view c change (p >>= f) := by
  intro w o u hcard hr
  rcases Fallible.bind_iff.mp hr with ⟨rfl, hx⟩ | ⟨e, rfl, hx⟩ | ⟨a, v, hx, hrest⟩
  · exact .inl ⟨(hp w _ u hx).trans hcard, fun h => by cases h⟩
  · exact .inl ⟨(hp w _ u hx).trans hcard, fun h => by cases h⟩
  · exact hf a ⟨w, v, hcard, hx⟩ v o u ((hp w _ v hx).trans hcard) hrest

theorem Leads.weaken {change change' : Card → Prop} {p : Command Unit} (hp : Leads device view c change p)
    (h : ∀ d, change d → change' d) : Leads device view c change' p :=
  fun w o u hcard hr => (hp w o u hcard hr).imp_right (h _)

/-- A card operation whose result is looked at. -/
theorem Still.look {ε : Type} {p : Fallible (Piv.Answer IoError) ε β} {f : Except ε β → Command α}
    (hp : StillOnCard device view p) (hf : ∀ r, Still device view (f r)) :
    Still device view (Prog.bind (onCard p) f : Command α) := by
  intro w o u hr
  rcases Run.bind_iff.mp hr with ⟨-, hx⟩ | ⟨r, v, hx, hrest⟩
  · exact hp _ _ _ (onCard_runs hx).1
  · exact (hf r v o u hrest).trans (hp _ _ _ (onCard_runs hx).1)

theorem certificate_still (h : Documented crates device view) (reference : CertificateReference)
    (change : PivOverwrite.CertificateChange) :
    Still device view (PivOverwrite.certificate crates.piv crates.slots reference change) := by
  refine Still.look ?_ fun object => .bind (.orThrow _) fun summary => ?_
  · intro w o u hr
    rcases Fallible.orThrow_bind_iff.mp hr with ⟨e, -, -, rfl⟩ | ⟨⟨⟩, -, hrun⟩
    · rfl
    · rcases (h.piv.readObject _ _).run hrun with ⟨e, -, rfl, -⟩ | ⟨o', -, hread⟩
      · rfl
      · exact hread.1
  · cases summary with
    | none => exact .pure ()
    | some summary =>
      refine .bind (.confirm _) fun accepted => ?_
      cases accepted with
      | true => exact .pure ()
      | false => exact .throw _

theorem slotPublicKey_still (h : Documented crates device view) (reference : CertificateReference) :
    Still device view (slotPublicKey crates reference) := by
  refine Still.look ?_ fun result => .orThrow _
  cases reference with
  | key slot => exact stillOnCard_run (h.keyMetadata slot)
  | attestation => exact stillOnCard_run h.attestationMetadata

theorem parseCertificateInput_still [DecidableEq Point] (data : Bytes) :
    Still device view (parseCertificateInput crates data) := by
  refine .bind (.orThrow _) fun (label, decoded) => ?_
  dsimp only
  by_cases hlabel : label ≠ []
  · rw [if_pos hlabel]
    exact .orThrow _
  · rw [if_neg hlabel]
    cases crates.parseDer data with
    | ok certificate => exact .pure certificate
    | error e =>
      refine .bind ?_ fun certificates => .bind (.orThrow _) fun leaf => .bind ?_ fun der => .orThrow _
      · rw [bundleCertificates]
        split
        · exact .bind (.promptPassword _) fun _ => .orThrow _
        · exact .orThrow _
      · intro w o u hr
        obtain ⟨hsame, -⟩ := Piv.Runs.unwrap_iff.mp (onCard_runs hr).1
        rw [hsame]

/-- Preparing an authentication sends nothing to the card. -/
theorem mutualAuth_bind_world {key : Piv.ManagementKey} (granted : Piv.ManagementAuthentication → Access)
    {w u : Piv.World σ} {o : Option (Except (PivError IoError) Access)}
    (hr : Fallible.Runs (Piv.environment device)
      (Piv.mutualAuth crates.piv key >>= fun auth => pure (granted auth)) w o u) : u = w := by
  have hauth : ∀ {o u}, Fallible.Runs (Piv.environment device) (Piv.mutualAuth (E := IoError) crates.piv key) w o u →
      u = w := by
    intro o u hr
    rcases Fallible.bind_iff.mp hr with ⟨-, hx⟩ | ⟨e, -, hx⟩ | ⟨challenge, v, hx, hrest⟩
    · exact Piv.Runs.fill_world hx
    · exact Piv.Runs.fill_world hx
    · obtain ⟨-, rfl⟩ := Fallible.orThrow_iff.mp hrest
      exact Piv.Runs.fill_world hx
  rcases Fallible.bind_iff.mp hr with ⟨-, hx⟩ | ⟨e, -, hx⟩ | ⟨auth, v, hx, hpure⟩
  · exact hauth hx
  · exact hauth hx
  · obtain ⟨-, rfl⟩ := Fallible.pure_iff.mp hpure
    exact hauth hx

theorem pinAndManagement_world {management : ResolvedManagement} {pin : Piv.Pin} {w u : Piv.World σ}
    {o : Option (Except (SignError IoError) Access)}
    (hr : Fallible.Runs (Piv.environment device) (mapError SignError.piv (management.pinAndManagement crates.piv pin))
      w o u) : u = w := by
  obtain ⟨o', -, hr⟩ := Fallible.mapError_iff.mp hr
  exact mutualAuth_bind_world (fun auth => .pinAndManagement pin auth) hr

/-- The program is refused before any command, or it runs the operation. -/
def Performs (device : Device IoError σ) (operation : Except Piv.Error (Piv.Operation Unit))
    (p : Fallible (Piv.Answer IoError) (PivError IoError) Unit) : Prop :=
  ∀ w o u, Fallible.Runs (Piv.environment device) p w o u →
    (u = w ∧ ∃ e, o = some (.error e)) ∨ Fallible.Runs (Piv.environment device) (Piv.run operation) w o u

theorem Performs.run (operation : Except Piv.Error (Piv.Operation Unit)) : Performs device operation (Piv.run operation) :=
  fun _ _ _ hr => .inr hr

theorem Performs.orThrow {operation : Except Piv.Error (Piv.Operation Unit)} {r : Except (PivError IoError) α}
    {f : α → Fallible (Piv.Answer IoError) (PivError IoError) Unit}
    (hf : ∀ a, r = .ok a → Performs device operation (f a)) :
    Performs device operation (Interaction.orThrow r >>= f) := by
  intro w o u hr
  rcases Fallible.orThrow_bind_iff.mp hr with ⟨e, -, rfl, rfl⟩ | ⟨a, ha, hrest⟩
  · exact .inl ⟨rfl, e, rfl⟩
  · exact hf a ha w o u hrest

def Stores (crates : CertificateCrates Secret Point) (reference : CertificateReference) (der : Bytes) (c d : Card) : Prop :=
  ∃ object, certificateContainer crates der = some object ∧
    d = c.apply (.putData (PivOverwrite.objectId crates.slots reference) object)

def Empties (crates : CertificateCrates Secret Point) (reference : CertificateReference) (c d : Card) : Prop :=
  d = c.apply (.putData (PivOverwrite.objectId crates.slots reference) [])

/-- The key in a SubjectPublicKeyInfo is the one that the card shows, where it shows one. -/
def ForKey (crates : CertificateCrates Secret Point) (shown : Option Piv.PublicKey) (spki : Bytes) : Prop :=
  ∀ key, shown = some key → ∃ actual, crates.slots.spkiDer key = .ok actual ∧
    Keys.publicKeysEqual crates.base64 crates.publicKeys actual spki = .ok true

/-- What `certificates import` stores: the certificate of the file, for the key of the slot. -/
def Imported [DecidableEq Point] (crates : CertificateCrates Secret Point) (device : Device IoError σ)
    (view : σ → Card) (args : ImportArgs) (c : Card) (der : Bytes) : Prop :=
  ∃ data parsed shown, args.certificate = .ok data ∧
    Returns device view c (parseCertificateInput crates data) parsed ∧
    Returns device view c (slotPublicKey crates args.reference) shown ∧ ForKey crates shown parsed.spkiDer ∧
    der = parsed.der

/-- What `certificates generate` stores: a certificate of the requested subject and
validity, for the key of the slot, with the signature that the card made for it. -/
def Generated (crates : CertificateCrates Secret Point) (device : Device IoError σ) (view : σ → Card)
    (args : GenerateArgs) (c : Card) (der : Bytes) : Prop :=
  ∃ interval fields spki algorithm access tbs tbsDer signature,
    let request : SignRequest :=
      ⟨args.slot, algorithm, spki, args.subject, certificateHash algorithm args.hash, access⟩
    validityOf args = .ok interval ∧
    Returns device view c (sessionRun (Piv.run (crates.slots.keyMetadata args.slot))) fields ∧
    ForKey crates fields.publicKey spki ∧ (∀ key, fields.publicKey = some key → crates.algorithmOf key = algorithm) ∧
    ToBeSigned crates.toKeyCrates request interval.1 interval.2 tbs tbsDer ∧
    crates.codec.certificateToDer ⟨tbs, tbs.signature, ⟨0, signature⟩⟩ = .ok der ∧
    ∃ (scheme : Scheme) (operation : SignOperation) (v v' : Piv.World σ), algorithm ∈ scheme.keys ∧
      tbs.signature.oid.dotted = scheme.oid ∧ scheme.Signs crates.digest algorithm tbsDer operation ∧ view v.card = c ∧
      Fallible.Runs (Piv.environment device) (Piv.run (crates.perform args.slot (.sign operation) access)) v
        (some (.ok signature)) v'

def Changes [DecidableEq Point] (crates : CertificateCrates Secret Point) (device : Device IoError σ)
    (view : σ → Card) : CertificatesCommand → Card → Card → Prop
  | .importCertificate args, c, d =>
    ∃ der, Imported crates device view args c der ∧ Stores crates args.reference der c d
  | .generate args, c, d =>
    ∃ der, Generated crates device view args c der ∧ Stores crates (.key args.slot) der c d
  | .delete args, c, d => Empties crates args.reference c d

namespace Fixture

open Reference
open PivGenerateBatch.Fixture (slotCrates slotMetadataOf certificateObject)
open PivKeys.Fixture (vectors cardSpki certificateDer)

/-- SHA-256 of `certificateDer`. -/
def fingerprint : Bytes := [
  0xcc, 0xfd, 0xa1, 0x0a, 0x45, 0x6c, 0x72, 0x78, 0x5b, 0x11, 0xb3, 0x51, 0x1a, 0x79, 0x25, 0x06,
  0x54, 0x4e, 0x11, 0x12, 0x7f, 0xbc, 0x70, 0x29, 0xf5, 0x0c, 0xfb, 0x01, 0xf1, 0x75, 0xd4, 0xc9]

/-- The slots of the reference card, with the key in slot 9A and its certificate. -/
def cardSlots : PivOverwrite.SlotCrates :=
  { slotCrates vectors with
    parseDer := fun der => if der = certificateDer then .ok ⟨"CN=Card", fingerprint⟩ else .error malformed
    spkiDer := fun key =>
      if key = ⟨0xe0, PivKeys.Fixture.cardKey⟩ then .ok cardSpki else .error (failure .unsupportedFeature) }

def storeObject (slot : Slot) (value : Bytes) (access : Access) : Except Piv.Error (Piv.Operation Unit) :=
  (Reference.crates vectors).writeObject (certificateObject slot) value access

/-- The reference card, whose key in slot 9A signs one certificate. -/
def certificateCrates : CertificateCrates Unit Unit where
  toKeyCrates := PivKeys.Fixture.keyCrates
  piv := Reference.crates vectors
  slots := cardSlots
  base64 := Attestation.Fixture.testBase64
  publicKeys := Keys.Fixture.spkiCrates
  pkcs12 := Pkcs12.Fixture.bundleCrates
  names := ⟨fun _ => none, fun _ => none⟩
  algorithmOf key := if key.algorithm = 0xe0 then .ed25519 else .eccP256
  parseDer der := if der = certificateDer then .ok ⟨certificateDer, cardSpki⟩ else .error malformed
  writeCertificate slot der access :=
    (tlv.push [] 0x70 der >>= fun written => tlv.push written 0x71 [0] >>= fun written =>
        tlv.push written 0xfe []).elim (.error (failure .invalidArgument)) fun object => storeObject slot object access
  deleteCertificate slot access := storeObject slot [] access
  certificateDeletion := .ok ()
  inputLimit := Piv.Error.new .invalidArgument
  display _ := "card error"

/-- An operation whose one command leaves the card as it is. -/
theorem finish_keeps {T : Type} {access : Access} {command : Bytes} {result : Bytes → Except Piv.Error T}
    (hinert : Inert command) :
    ∀ card, Reference.Leads vectors card (Keeps (E := IoError) card)
      (withAccess vectors access (finish command result)) := by
  intro card
  refine leads_withAccess (lenient_keeps card) (leads_finish (lenient_keeps card) ?_ ?_)
  · rintro chip rfl e
    exact respond_inert hinert chip
  · rintro chip rfl
    exact respond_inert hinert chip

theorem metadata_keeps (reference : UInt8) :
    Acts (Reference.device vectors : Device IoError Chip) Chip.card
      (.ok (withAccess vectors .none (finish (metadataCommand reference) slotMetadataOf))) Keeps :=
  acts_of_leads (finish_keeps (inert_metadata reference))

theorem inert_sign (message : Bytes) : Inert (PivKeys.Fixture.signCommand message) := by
  simp [Inert, Piv.instruction, PivKeys.Fixture.signCommand]

theorem documented : Documented certificateCrates (Reference.device vectors) Chip.card where
  piv := Reference.documented
  codec := PivKeys.Fixture.codec_documented
  digest hash _ := List.length_replicate
  keyMetadata slot := metadata_keeps slot.reference
  attestationMetadata := metadata_keeps 0xf9
  perform slot operation access := by
    intro op hop
    simp only [certificateCrates, PivKeys.Fixture.keyCrates] at hop
    split at hop
    · exact acts_of_accept (fun _ => finish_keeps (inert_sign _)) op hop
    · cases hop
  writeCertificate slot der access object hcontainer := by
    have hwritten : certificateCrates.writeCertificate slot der access = storeObject slot object access :=
      congrArg (fun o : Option Bytes => o.elim _ _) hcontainer
    rw [hwritten]
    exact Reference.documented.writeObject _ _ access
  writeCertificate_refused slot der access hcontainer :=
    ⟨_, congrArg (fun o : Option Bytes => o.elim _ _) hcontainer⟩
  deleteCertificate slot access := Reference.documented.writeObject (certificateObject slot) [] access
  attestation_refused := fun _ h => by cases h

def managementKey : Option String := some "000102030405060708090a0b0c0d0e0f1011121314151617"

/-- The certificate of the authentication key, generated, read from a file, and deleted. -/
def generation : GenerateArgs where
  slot := .authentication
  publicKey := none
  subject := "CN=Card"
  validDays := 365
  hash := .sha256
  managementKey := managementKey
  pin := some "123456"
  clock := some 1700000000

def deletion : DeleteArgs := ⟨.key .authentication, managementKey⟩

/-- The container of the authentication key holds its certificate. -/
def filled : World Chip :=
  PivManager.startWith [(certificateObject .authentication,
    Der.tlv 0x70 certificateDer ++ Der.tlv 0x71 [0] ++ Der.tlv 0xfe [])] 3

/-- Every exchange works. The random bytes are zeros, but ones for a serial number. -/
def choices : CertificatesCommand → List (Choice IoError)
  | .generate _ => List.replicate 7 (.works 0) ++ .works 0xff :: List.replicate 20 (.works 0)
  | _ => List.replicate 20 (.works 0)

def play (command : CertificatesCommand) (w : World Chip) : Option (Except CliError Unit) × World Chip :=
  Reference.playCommand vectors (choices command) (certificates certificateCrates command) w

theorem play_runs {command : CertificatesCommand} {w : World Chip} {o : Option (Except CliError Unit)}
    (h : (play command w).1 = o) : Fallible.Runs (environment (Reference.device vectors))
      (certificates certificateCrates command) w o (play command w).2 :=
  Reference.playCommand_runs vectors h

end Fixture

/-- The environment of a user who agrees to nothing. -/
def unapproving (device : Device IoError σ) : Env Answer (World σ)
  | .confirm text, w, r, v => environment device (.confirm text) w r v ∧ r ≠ .ok true
  | q, w, r, v => environment device q w r v

theorem unapproving_environment (q : Request) (w : World σ) (r : Answer q) (v : World σ)
    (h : unapproving device q w r v) : environment device q w r v := by
  cases q
  case confirm => exact h.1
  all_goals exact h

/-- Without consent, only an empty container passes the check. -/
theorem certificate_unapproved (h : Documented crates device view) {reference : CertificateReference}
    {change : PivOverwrite.CertificateChange}
    (hr : Fallible.Runs (unapproving device) (PivOverwrite.certificate crates.piv crates.slots reference change) w
      (some (.ok ())) u) :
    (view w.piv.card).objects (PivOverwrite.objectId crates.slots reference) = none := by
  rcases Run.bind_iff.mp hr with ⟨ho, -⟩ | ⟨object, v, hread, hrest⟩
  · cases ho
  obtain ⟨summary, x, hsummary, hask⟩ := Fallible.bind_ok_iff.mp hrest
  obtain ⟨hstatus, rfl⟩ := Fallible.orThrow_iff.mp hsummary
  cases summary with
  | some summary =>
    obtain ⟨accepted, y, hconfirm, hdone⟩ := Fallible.bind_ok_iff.mp
      (show Fallible.Runs (unapproving device) (PivOverwrite.approve
        (PivOverwrite.certificatePrompt reference change summary)) x (some (.ok ())) u from hask)
    obtain ⟨o', ho, hconfirm⟩ := Fallible.mapError_iff.mp hconfirm
    rcases Run.ask_iff.mp hconfirm with ⟨rfl, -⟩ | ⟨r, z, ⟨-, hno⟩, hpure⟩
    · cases ho
    · obtain ⟨rfl, rfl⟩ := Run.pure_iff.mp hpure
      cases accepted with
      | true =>
        rcases r with e | r <;> cases ho
        exact absurd rfl hno
      | false =>
        obtain ⟨ho, -⟩ := Fallible.throw_iff.mp hdone
        cases ho
  | none =>
    obtain ⟨error, rfl, hmissing⟩ := PivOverwrite.certificateStatus_eq_none (Option.some.inj hstatus).symm
    have hread := (onCard_runs (hread.mono unapproving_environment)).1
    rcases error with ⟨e | e⟩ | e | ⟨stage, source⟩
    · exact absurd hmissing (by simp [PivOverwrite.missing])
    · have hkind : e.kind = .notFound := by
        simp only [PivOverwrite.missing, decide_eq_true_eq] at hmissing
        exact hmissing.1
      rcases Fallible.orThrow_bind_iff.mp hread with ⟨e', he', ho, -⟩ | ⟨⟨⟩, -, hrun⟩
      · cases reference with
        | key slot => cases he'
        | attestation =>
          cases hgate : crates.slots.attestation with
          | ok _ =>
            rw [PivOverwrite.check, hgate] at he'
            cases he'
          | error e'' =>
            rw [PivOverwrite.check, hgate] at he'
            cases he'
            cases ho
            exact absurd hkind (h.attestation_refused _ hgate)
      · rcases (h.piv.readObject _ _).run hrun with ⟨e', ho, -, hrefused⟩ | ⟨o', ho, hreads⟩
        · cases ho
          exact absurd hkind (h.piv.readObject_refused _ _ _ hrefused)
        · rcases o' with _ | e' | value <;> cases ho
          exact hreads.2.2 e rfl hkind
    · exact absurd hmissing (by simp [PivOverwrite.missing])
    · exact absurd hmissing (by simp [PivOverwrite.missing])

/-- Without consent, the program leaves the card alone where the container is not empty. -/
def Untouched (device : Device IoError σ) (view : σ → Card) (id : Piv.ObjectId) (p : Command α) : Prop :=
  ∀ w o u, Fallible.Runs (unapproving device) p w o u → (view w.piv.card).objects id ≠ none →
    view u.piv.card = view w.piv.card

theorem Untouched.after {id : Piv.ObjectId} {p : Command α} {f : α → Command β} (hp : Still device view p)
    (hf : ∀ a, Untouched device view id (f a)) : Untouched device view id (p >>= f) := by
  intro w o u hr hheld
  rcases Fallible.bind_iff.mp hr with ⟨-, hx⟩ | ⟨e, -, hx⟩ | ⟨a, v, hx, hrest⟩
  · exact hp w _ u (hx.mono unapproving_environment)
  · exact hp w _ u (hx.mono unapproving_environment)
  · have hsame := hp w _ v (hx.mono unapproving_environment)
    exact (hf a v o u hrest (hsame ▸ hheld)).trans hsame

/-- What follows the check is never reached. -/
theorem untouched_certificate (h : Documented crates device view) (reference : CertificateReference)
    (change : PivOverwrite.CertificateChange) (f : Unit → Command β) :
    Untouched device view (PivOverwrite.objectId crates.slots reference)
      (PivOverwrite.certificate crates.piv crates.slots reference change >>= f) := by
  intro w o u hr hheld
  have hstill := certificate_still h reference change
  rcases Fallible.bind_iff.mp hr with ⟨-, hx⟩ | ⟨e, -, hx⟩ | ⟨⟨⟩, v, hx, -⟩
  · exact hstill w _ u (hx.mono unapproving_environment)
  · exact hstill w _ u (hx.mono unapproving_environment)
  · exact absurd (certificate_unapproved h hx) hheld

def CertificatesCommand.reference : CertificatesCommand → CertificateReference
  | .importCertificate args => args.reference
  | .generate args => .key args.slot
  | .delete args => args.reference

/-- A certificate that is there is neither replaced nor deleted unless the user agrees. -/
theorem certificates_consent [DecidableEq Point] (h : Documented crates device view) {command : CertificatesCommand}
    {o : Option (Except CliError Unit)}
    (hr : Fallible.Runs (unapproving device) (certificates crates command) w o u)
    (hheld : (view w.piv.card).objects (PivOverwrite.objectId crates.slots command.reference) ≠ none) :
    view u.piv.card = view w.piv.card := by
  refine (show Untouched device view (PivOverwrite.objectId crates.slots command.reference)
    (certificates crates command) from ?_) w o u hr hheld
  cases command with
  | importCertificate args =>
    refine .after (.orThrow _) fun data => .after (parseCertificateInput_still data) fun parsed => ?_
    refine .after (slotPublicKey_still h _) fun shown => .after (.orThrow _) fun _ => ?_
    exact untouched_certificate h args.reference .replace _
  | generate args =>
    refine .after (.orThrow _) fun _ => .after (.orThrow _) fun interval => .after (.orThrow _) fun supplied => ?_
    refine .after (StillOnCard.sessionRun (stillOnCard_run (h.keyMetadata _))) fun fields => ?_
    exact .after (.orThrow _) fun key => untouched_certificate h (.key args.slot) .replace _
  | delete args => exact untouched_certificate h args.reference .delete _

namespace Fixture

open Reference
open PivKeys.Fixture (vectors)

def decliningAnswer (c : Choice IoError) : (q : Request) → World Chip → Option (Answer q × World Chip)
  | .confirm _, w => some (.ok false, w)
  | q, w => hostAnswer vectors c q w

theorem decliningAnswer_unapproving {c : Choice IoError} {q : Request} {w v : World Chip} {r : Answer q}
    (h : decliningAnswer c q w = some (r, v)) : unapproving (Reference.device vectors) q w r v := by
  cases q
  case confirm text =>
    cases h
    exact ⟨⟨rfl, rfl, (List.append_nil _).symm⟩, fun h => by cases h⟩
  all_goals
    refine hostAnswer_environment vectors (c := c) (w := w) (r := r) (v := v) ?_
    exact h

def declined : Option (Except CliError Unit) × World Chip :=
  follow decliningAnswer (List.replicate 19 (.works 0)) (certificates certificateCrates (.delete deletion)) filled

end Fixture

theorem certificates_consent_declined :
    Fixture.declined.1 = some (.error PivOverwrite.cancelled) ∧
      Fixture.declined.2.piv.card.card = Fixture.filled.piv.card.card := by
  refine ⟨by decide +kernel, ?_⟩
  have hanswer : ∀ (c : Reference.Choice IoError) (q : Request) (w : World Reference.Chip) (r : Answer q)
      (v : World Reference.Chip), Fixture.decliningAnswer c q w = some (r, v) →
        unapproving (Reference.device PivKeys.Fixture.vectors) q w r v :=
    fun _ _ _ _ _ => Fixture.decliningAnswer_unapproving
  exact certificates_consent Fixture.documented (run_follow hanswer (List.replicate 19 (.works 0))
    (certificates Fixture.certificateCrates (.delete Fixture.deletion)) Fixture.filled) (by decide)

end Runs

end PivCertificates
