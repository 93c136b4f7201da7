import Ckman.InteractionTrace
import Ckman.Pem
import Ckman.PivGeneration
import Ckman.PivSession

/-!
# Consent before an overwrite

Before a key or a certificate is replaced, its slot is read. A slot counts as
empty only when the card says so; anything else that is found is shown to the
user, who must agree. Batch generation checks all its slots first.
-/
namespace PivOverwrite

open Host Interaction CommandLine
open Piv (Crates Slot KeyReference CertificateReference Operation MetadataFields ObjectId PublicKey
  PivError KeyParameters Algorithm PinPolicy TouchPolicy BatchOperation GenerateAnswer
  GenerateKeysError)

structure CertificateInfo where
  /-- `info.subject.display`. -/
  subject : String
  sha256Fingerprint : Bytes

/-- The functions of libcanokey about key slots, for one device profile. -/
structure SlotCrates where
  /-- `get_metadata` of a key slot, without access; the fields of the result. -/
  keyMetadata : Slot → Except Piv.Error (Operation MetadataFields)
  /-- `read_attestation_metadata`. -/
  attestationMetadata : Except Piv.Error (Operation MetadataFields)
  /-- `profile.capability(Capability::Attestation).require()`. -/
  attestation : Except Piv.Error Unit
  /-- `ObjectId::certificate`. -/
  certificateObject : Slot → ObjectId
  /-- `Certificate::from_object(_, 16 * 1024)`, and its DER. -/
  fromObject : Bytes → Except Piv.Error Bytes
  /-- `x509::parse_der`. -/
  parseDer : Bytes → Except Piv.Error CertificateInfo
  /-- `PublicKey::to_spki_der`. -/
  spkiDer : PublicKey → Except Piv.Error Bytes
  sha256 : Bytes → Bytes
  /-- `piv::batch`, with the operation started. -/
  batch : List Piv.BatchRequest → Except Piv.Error BatchOperation

variable (crates : Crates) (slotCrates : SlotCrates)

/-- `CertificateReference::object_id`. -/
def objectId : CertificateReference → ObjectId
  | .key slot => slotCrates.certificateObject slot
  | .attestation => ⟨[0x5f, 0xff, 1]⟩

/-- `CertificateReference::check`. -/
def check : CertificateReference → Except Piv.Error Unit
  | .key _ => .ok ()
  | .attestation => slotCrates.attestation

def readCertificateObject (reference : CertificateReference) :
    Fallible (Piv.Answer IoError) (PivError IoError) Bytes := do
  orThrow ((check slotCrates reference).mapError fun e => .drive (.protocol e))
  Piv.run (crates.readObject (objectId slotCrates reference) .none)

def metadata : KeyReference → Fallible (Piv.Answer IoError) (PivError IoError) MetadataFields
  | .key slot => Piv.run (slotCrates.keyMetadata slot)
  | .attestation => Piv.run slotCrates.attestationMetadata

def missing : PivError IoError → Bool
  | .drive (.protocol error) => error.kind = .notFound ∧ error.phase = .command
  | _ => false

def unavailable : PivError IoError → Bool
  | .drive (.protocol error) =>
    (error.kind = .unsupportedFeature ∨ error.kind = .capabilityUnknown) ∧
      (error.phase = .construction ∨ error.phase = .command)
  | _ => false

def NoKey (fields : MetadataFields) : Prop :=
  fields.origin = some (.known .notPresent) ∧ fields.publicKey = none

instance (fields : MetadataFields) : Decidable (NoKey fields) := inferInstanceAs (Decidable (_ ∧ _))

def cancelled : CliError := .text "Cancelled; no PIV data was changed."

def approve (prompt : String) : Command Unit := do
  let accepted ← confirm prompt
  if accepted then pure () else throw cancelled

/-- Ask when there is something to ask about. -/
def approveAny : Option String → Command Unit
  | none => pure ()
  | some prompt => approve prompt

def unparseable (bytes : Bytes) : String :=
  "Unparseable certificate object (" ++ toString bytes.length ++ " bytes); object SHA-256: " ++
    hexEncode (slotCrates.sha256 bytes)

def certificateSummary (bytes : Bytes) : String :=
  match slotCrates.fromObject bytes >>= slotCrates.parseDer with
  | .ok info => "Subject: " ++ info.subject ++ "\nSHA-256: " ++ hexEncode info.sha256Fingerprint
  | .error _ => unparseable slotCrates bytes

def fingerprint (key : Option PublicKey) : String :=
  match key.bind fun key => (slotCrates.spkiDer key).toOption with
  | some spki => "\nExisting public key SHA-256: " ++ hexEncode (slotCrates.sha256 spki)
  | none => ""

/-- What the metadata of a slot says about its key, if there is one. -/
def keyStatus (reference : KeyReference) :
    Except (PivError IoError) MetadataFields → Except CliError (Option String)
  | .ok fields =>
    if NoKey fields then .ok none
    else .ok (some ("Slot " ++ reference.name ++ " already contains a private key." ++
      fingerprint slotCrates fields.publicKey))
  | .error error =>
    if missing error then .ok none
    else if reference ≠ .attestation ∧ unavailable error then
      .ok (some ("Cannot determine whether slot " ++ reference.name ++
        " contains a private key on this firmware."))
    else .error (.piv error)

def certificateStatus : Except (PivError IoError) Bytes → Except CliError (Option String)
  | .ok data => .ok (some (certificateSummary slotCrates data))
  | .error error => if missing error then .ok none else .error (.piv error)

def keyPrompt (reference : KeyReference) (status certificate : Option String) : Option String :=
  if status = none ∧ certificate = none then none
  else
    some (status.getD ("Slot " ++ reference.name ++ " already contains a certificate.") ++
      (certificate.elim "" fun summary =>
        "\nExisting certificate (retained by this operation):\n" ++ summary) ++
      (if reference = .attestation then
        "\nReplacing the F9 signer changes attestation identity and trust. The existing certificate will be retained and may no longer match."
      else "") ++
      "\nReplacing a private key is irreversible. A retained certificate may no longer match. Replace this slot's private key?")

inductive CertificateChange where
  | replace | delete
  deriving DecidableEq, Repr

def CertificateChange.action : CertificateChange → String
  | replace => "Replace"
  | delete => "Delete"

def certificatePrompt (reference : CertificateReference) (change : CertificateChange)
    (summary : String) : String :=
  "Slot " ++ Piv.certificateSlotName reference ++ " already contains a certificate.\n" ++ summary ++
    (if reference = .attestation then
      "\nChanging the F9 certificate affects attestation verification and trust." else "") ++
    "\n" ++ change.action ++ " this certificate?"

def confirmKey (reference : KeyReference) (status : Option String)
    (object : Except (PivError IoError) Bytes) : Command Unit := do
  let certificate ← orThrow (certificateStatus slotCrates object)
  approveAny (keyPrompt reference status certificate)

/-- The rest of a key check: the metadata was read. -/
def checkKey (reference : KeyReference) (metadata : Except (PivError IoError) MetadataFields) :
    Command Unit := do
  let status ← orThrow (keyStatus slotCrates reference metadata)
  Prog.bind (onCard (readCertificateObject crates slotCrates reference.certificate))
    (confirmKey slotCrates reference status)

def key (reference : KeyReference) : Command Unit :=
  Prog.bind (onCard (metadata slotCrates reference)) (checkKey crates slotCrates reference)

/-- Complete all preflight checks before the caller authenticates or writes. -/
def keys : List Slot → Command Unit
  | [] => pure ()
  | slot :: slots => do
    key crates slotCrates (.key slot)
    keys slots

def confirmCertificate (reference : CertificateReference) (change : CertificateChange)
    (object : Except (PivError IoError) Bytes) : Command Unit := do
  let summary ← orThrow (certificateStatus slotCrates object)
  approveAny (summary.map (certificatePrompt reference change))

def certificate (reference : CertificateReference) (change : CertificateChange) : Command Unit :=
  Prog.bind (onCard (readCertificateObject crates slotCrates reference))
    (confirmCertificate slotCrates reference change)

/-- SELECT, GET DATA, GET METADATA and GET RESPONSE. -/
def ReadCommand (command : Bytes) : Prop :=
  Piv.instruction command ∈ [0xa4, 0xcb, 0xf7, (0xc0 : UInt8)]

instance (command : Bytes) : Decidable (ReadCommand command) :=
  inferInstanceAs (Decidable (_ ∈ _))

def Reading : Request → Prop
  | .card (.exchange command) => ReadCommand command
  | .confirm _ => True
  | _ => False

/-- The operations behind the checks send nothing but read commands. -/
structure ReadOnly : Prop where
  keyMetadata : ∀ slot op, slotCrates.keyMetadata slot = .ok op → op.Only ReadCommand
  attestationMetadata : ∀ op, slotCrates.attestationMetadata = .ok op → op.Only ReadCommand
  readObject : ∀ id op, crates.readObject id .none = .ok op → op.Only ReadCommand

/-- The failed exchanges and the refusals, with the errors they end a check with. -/
def fatal : (q : Request) → Answer q → Option (Except CliError Unit)
  | .card (.exchange _), .error e => some (.error (.piv (.drive (.transport e))))
  | .confirm _, .ok false => some (.error cancelled)
  | .confirm _, .error e => some (.error (.io e))
  | _, _ => none

/-- The same for a read of the card alone. -/
def fatalRead {T : Type} : (q : Request) → Answer q → Option (Except (PivError IoError) T)
  | .card (.exchange _), .error e => some (.error (.drive (.transport e)))
  | _, _ => none

def CardRead (q : Request) : Prop := ∃ command, q = .card (.exchange command) ∧ ReadCommand command

theorem CardRead.reading {q : Request} (h : CardRead q) : Reading q := by
  obtain ⟨command, rfl, hread⟩ := h
  exact hread

section Reads

variable {crates slotCrates} {T : Type}

/-- One round of a card operation in a command. -/
theorem onCard_run_exchange (command : Bytes) (advance : Bytes → Operation T) :
    onCard (Piv.run (.ok (.exchange command advance))) =
      Prog.ask (.card (.exchange command)) fun r : Except IoError Bytes =>
        match r with
        | .error e => .pure (.error (PivError.drive (.transport e)))
        | .ok bytes => onCard (Piv.run (.ok (advance bytes))) := by
  rw [Piv.run, Piv.mapError_execute]
  refine congrArg (Prog.ask (A := Answer) (.card (.exchange command))) (funext fun r => ?_)
  cases r <;> rfl

/-- A card operation that only reads: its commands, and its failed exchanges. -/
theorem onCard_run_reads {operation : Except Piv.Error (Operation T)}
    (h : ∀ op, operation = .ok op → op.Only ReadCommand) :
    Prog.Only CardRead (onCard (Piv.run operation : Fallible (Piv.Answer IoError) _ T)) ∧
      Prog.Stops fatalRead (onCard (Piv.run operation : Fallible (Piv.Answer IoError) _ T)) := by
  cases operation with
  | error e => exact ⟨trivial, trivial⟩
  | ok op =>
    have hop := h op rfl
    clear h
    induction op with
    | complete result => exact ⟨trivial, trivial⟩
    | exchange command advance ih =>
      rw [onCard_run_exchange]
      refine ⟨⟨⟨command, rfl, hop.1⟩, ?_⟩, ?_⟩
      · intro r
        cases r with
        | error e => trivial
        | ok bytes => exact (ih bytes (hop.2 bytes)).1
      · intro r
        cases r with
        | error e =>
          refine ⟨?_, trivial⟩
          intro a ha
          cases ha
          rfl
        | ok bytes => exact ⟨fun a ha => (nomatch ha), (ih bytes (hop.2 bytes)).2⟩

theorem onCard_metadata_reads (hreads : ReadOnly crates slotCrates) (reference : KeyReference) :
    Prog.Only CardRead (onCard (metadata slotCrates reference)) ∧
      Prog.Stops fatalRead (onCard (metadata slotCrates reference)) := by
  cases reference with
  | key slot => exact onCard_run_reads (hreads.keyMetadata slot)
  | attestation => exact onCard_run_reads hreads.attestationMetadata

theorem onCard_object_reads (hreads : ReadOnly crates slotCrates) (reference : CertificateReference) :
    Prog.Only CardRead (onCard (readCertificateObject crates slotCrates reference)) ∧
      Prog.Stops fatalRead (onCard (readCertificateObject crates slotCrates reference)) := by
  rw [readCertificateObject]
  cases check slotCrates reference with
  | error e => exact ⟨trivial, trivial⟩
  | ok u => exact onCard_run_reads (hreads.readObject (objectId slotCrates reference))

/-- What holds of a check whatever it finds: it only reads and asks, and it
ends at a failed exchange and at a refusal. -/
structure Guards (p : Command Unit) : Prop where
  reads : Prog.Only Reading p
  stops : Prog.Stops fatal p

theorem approve_eq (prompt : String) :
    approve prompt = Prog.ask (A := Answer) (.confirm prompt) fun r : Except IoError Bool =>
      .pure (match r with
        | .ok true => .ok ()
        | .ok false => .error cancelled
        | .error e => .error (.io e)) := by
  refine congrArg (Prog.ask (A := Answer) (.confirm prompt)) (funext fun r => ?_)
  rcases r with e | _ | _ <;> rfl

theorem approveAny_guards (prompt : Option String) : Guards (approveAny prompt) := by
  cases prompt with
  | none => exact ⟨trivial, trivial⟩
  | some prompt =>
    rw [approveAny, approve_eq]
    refine ⟨⟨trivial, fun r => trivial⟩, fun r => ⟨?_, trivial⟩⟩
    intro a ha
    rcases r with e | _ | _
    · cases ha
      rfl
    · cases ha
      rfl
    · cases ha

/-- A failed value ends a check at once. -/
theorem orThrow_guards {x : Except CliError T} {f : T → Command Unit} (hf : ∀ a, Guards (f a)) :
    Guards (orThrow x >>= f) := by
  cases x with
  | error e => exact ⟨trivial, trivial⟩
  | ok a => exact hf a

/-- A read in a check, when what follows hands its transport errors on. -/
theorem read_guards {p : Fallible Answer (PivError IoError) T}
    {f : Except (PivError IoError) T → Command Unit}
    (hp : Prog.Only CardRead p ∧ Prog.Stops fatalRead p) (hf : ∀ a, Guards (f a))
    (htransport : ∀ e, f (.error (.drive (.transport e))) =
      Prog.pure (.error (.piv (.drive (.transport e))))) : Guards (Prog.bind p f) := by
  refine ⟨Prog.only_bind (hp.1.imp fun q => CardRead.reading) fun a => (hf a).reads, ?_⟩
  refine Prog.stops_bind hp.1 hp.2 (fun a => (hf a).stops) ?_
  rintro q r b ⟨command, rfl, -⟩ hb
  cases r with
  | error e =>
    cases hb
    exact ⟨_, rfl, htransport e⟩
  | ok bytes => cases hb

theorem confirmKey_guards (reference : KeyReference) (status : Option String)
    (object : Except (PivError IoError) Bytes) : Guards (confirmKey slotCrates reference status object) :=
  orThrow_guards fun _ => approveAny_guards _

theorem checkKey_guards (hreads : ReadOnly crates slotCrates) (reference : KeyReference)
    (fields : Except (PivError IoError) MetadataFields) :
    Guards (checkKey crates slotCrates reference fields) := by
  refine orThrow_guards fun status => ?_
  refine read_guards (onCard_object_reads hreads reference.certificate) (fun object => ?_) ?_
  · exact confirmKey_guards reference status object
  · intro e
    rfl

theorem key_guards (hreads : ReadOnly crates slotCrates) (reference : KeyReference) :
    Guards (key crates slotCrates reference) := by
  refine read_guards (onCard_metadata_reads hreads reference) (fun fields => ?_) ?_
  · exact checkKey_guards hreads reference fields
  · intro e
    have hstatus : keyStatus slotCrates reference (.error (.drive (.transport e))) =
        .error (.piv (.drive (.transport e))) := by
      simp [keyStatus, missing, unavailable]
    rw [checkKey, hstatus]
    rfl

theorem certificate_guards (hreads : ReadOnly crates slotCrates) (reference : CertificateReference)
    (change : CertificateChange) : Guards (certificate crates slotCrates reference change) := by
  refine read_guards (onCard_object_reads hreads reference) (fun object => ?_) ?_
  · exact orThrow_guards fun summary => approveAny_guards _
  · intro e
    rfl

theorem error_of_fatal {q : Request} {r : Answer q} {b : Except CliError Unit}
    (h : fatal q r = some b) : ∃ e, b = .error e := by
  unfold fatal at h
  split at h
  all_goals first | exact ⟨_, (Option.some.inj h).symm⟩ | cases h

theorem keys_guards (hreads : ReadOnly crates slotCrates) (slots : List Slot) :
    Guards (keys crates slotCrates slots) := by
  induction slots with
  | nil => exact ⟨trivial, trivial⟩
  | cons slot slots ih =>
    have hkey := key_guards hreads (.key slot)
    have hrest : ∀ a : Except CliError Unit,
        Guards (ExceptT.bindCont (fun _ => keys crates slotCrates slots) a) := by
      intro a
      cases a with
      | error e => exact ⟨trivial, trivial⟩
      | ok u => exact ih
    refine ⟨Prog.only_bind hkey.reads fun a => (hrest a).reads, ?_⟩
    refine Prog.stops_bind hkey.reads hkey.stops (fun a => (hrest a).stops) ?_
    intro q r b _ hb
    obtain ⟨e, rfl⟩ := error_of_fatal hb
    exact ⟨_, hb, rfl⟩

end Reads

def prompts (tr : List (Event Answer)) : List (Except IoError Bool) :=
  tr.filterMap fun
    | ⟨.confirm _, answer⟩ => some answer
    | _ => none

def ReportsNoKey (fields : Except (PivError IoError) MetadataFields) : Prop :=
  (∃ error, fields = .error error ∧ missing error) ∨ ∃ record, fields = .ok record ∧ NoKey record

/-- The errors of a metadata read that do not end a key check. -/
def Excused (reference : KeyReference) (error : PivError IoError) : Prop :=
  missing error ∨ (reference ≠ .attestation ∧ unavailable error)

/-- The whole trace is a read of an absent certificate. -/
def CertificateAbsent (reference : CertificateReference) (tr : List (Event Answer)) : Prop :=
  ∃ error, Fallible.Traces (onCard (readCertificateObject crates slotCrates reference)) tr
    (some (.error error)) ∧ missing error

/-- The whole trace is a read of an absent key and of an absent certificate. -/
def KeyAbsent (reference : KeyReference) (tr : List (Event Answer)) : Prop :=
  ∃ first second fields, tr = first ++ second ∧
    Fallible.Traces (onCard (metadata slotCrates reference)) first (some fields) ∧
    ReportsNoKey fields ∧ CertificateAbsent crates slotCrates reference.certificate second

/-- A check that succeeded found nothing or was agreed to once. -/
def Agreed (absent : List (Event Answer) → Prop) (tr : List (Event Answer)) : Prop :=
  (prompts tr = [] ∧ absent tr) ∨ prompts tr = [.ok true]

/-- A run of any check: only reads and questions, nothing after an error or a refusal. -/
structure Guarded (tr : List (Event Answer)) (o : Option (Except CliError Unit)) : Prop where
  reads : ∀ event ∈ tr, Reading event.request
  last {pre post : List (Event Answer)} {event : Event Answer} {result : Except CliError Unit} :
    tr = pre ++ event :: post → fatal event.request event.answer = some result →
      post = [] ∧ o = some result

structure KeyConsent (reference : KeyReference) (tr : List (Event Answer))
    (o : Option (Except CliError Unit)) : Prop extends Guarded tr o where
  agreed : o = some (.ok ()) → Agreed (KeyAbsent crates slotCrates reference) tr
  /-- Any other failure to read the metadata ends the check with it. -/
  metadata_failed {first rest : List (Event Answer)} {error : PivError IoError} :
    tr = first ++ rest →
    Fallible.Traces (onCard (metadata slotCrates reference)) first (some (.error error)) →
    ¬ Excused reference error → rest = [] ∧ o = some (.error (.piv error))
  /-- So does a failure to read the certificate. -/
  certificate_failed {first second rest : List (Event Answer)} {error : PivError IoError}
    {fields : Except (PivError IoError) MetadataFields} : tr = first ++ (second ++ rest) →
    Fallible.Traces (onCard (metadata slotCrates reference)) first (some fields) →
    (∀ e, fields = .error e → Excused reference e) →
    Fallible.Traces (onCard (readCertificateObject crates slotCrates reference.certificate)) second
      (some (.error error)) →
    ¬ missing error → rest = [] ∧ o = some (.error (.piv error))
  /-- Metadata that the firmware lacks forces a question. -/
  unsupported {first second rest : List (Event Answer)} {error : PivError IoError}
    {object : Except (PivError IoError) Bytes} : tr = first ++ (second ++ rest) →
    Fallible.Traces (onCard (metadata slotCrates reference)) first (some (.error error)) →
    reference ≠ .attestation → unavailable error →
    Fallible.Traces (onCard (readCertificateObject crates slotCrates reference.certificate)) second
      (some object) →
    (∀ e, object = .error e → missing e) →
    (rest = [] ∧ o = none) ∨ ∃ text answer, rest = [⟨.confirm text, answer⟩]

structure CertificateConsent (reference : CertificateReference) (tr : List (Event Answer))
    (o : Option (Except CliError Unit)) : Prop extends Guarded tr o where
  agreed : o = some (.ok ()) → Agreed (CertificateAbsent crates slotCrates reference) tr
  read_failed {first rest : List (Event Answer)} {error : PivError IoError} : tr = first ++ rest →
    Fallible.Traces (onCard (readCertificateObject crates slotCrates reference)) first
      (some (.error error)) →
    ¬ missing error → rest = [] ∧ o = some (.error (.piv error))

/-- Checks in turn: each one follows the success of the one before. -/
inductive InTurn {α : Type} (consent : α → List (Event Answer) → Option (Except CliError Unit) → Prop) :
    List α → List (Event Answer) → Option (Except CliError Unit) → Prop where
  | done : InTurn consent [] [] (some (.ok ()))
  | next {a : α} {rest : List α} {first tr : List (Event Answer)} {o : Option (Except CliError Unit)} :
    consent a first (some (.ok ())) → InTurn consent rest tr o → InTurn consent (a :: rest) (first ++ tr) o
  | ended {a : α} {rest : List α} {tr : List (Event Answer)} {o : Option (Except CliError Unit)} :
    o ≠ some (.ok ()) → consent a tr o → InTurn consent (a :: rest) tr o

section Consent

variable {crates slotCrates} {tr : List (Event Answer)} {o : Option (Except CliError Unit)}

theorem Guards.guarded {p : Command Unit} (hp : Guards p) (h : Fallible.Traces p tr o) : Guarded tr o where
  reads := Trace.only hp.reads h
  last htr hfatal := Trace.last hp.stops h htr hfatal

@[simp] theorem prompts_nil : prompts [] = [] := rfl

@[simp] theorem prompts_append (front back : List (Event Answer)) :
    prompts (front ++ back) = prompts front ++ prompts back := List.filterMap_append

/-- Reading the card asks nothing. -/
theorem prompts_read {T : Type} {p : Fallible Answer (PivError IoError) T}
    {o : Option (Except (PivError IoError) T)} (hp : Prog.Only CardRead p)
    (h : Fallible.Traces p tr o) : prompts tr = [] := by
  refine List.filterMap_eq_nil_iff.mpr fun event hevent => ?_
  obtain ⟨q, r⟩ := event
  obtain ⟨command, rfl, -⟩ := Trace.only hp h _ hevent
  rfl

/-- A question that ends well was agreed to, and without a question nothing happens. -/
theorem approveAny_ok {prompt : Option String} (h : Fallible.Traces (approveAny prompt) tr (some (.ok ()))) :
    (prompt = none ∧ tr = []) ∨ prompts tr = [.ok true] := by
  cases prompt with
  | none => exact .inl ⟨rfl, (Fallible.traces_pure_iff.mp h).1⟩
  | some prompt =>
    rw [approveAny, approve_eq] at h
    rcases Trace.ask_iff.mp h with ⟨-, ho⟩ | ⟨r, rest, rfl, hanswer⟩
    · cases ho
    · obtain ⟨rfl, ho⟩ := Trace.pure_iff.mp hanswer
      rcases r with e | _ | _
      · cases ho
      · cases ho
      · exact .inr rfl

theorem keyPrompt_eq_none {reference : KeyReference} {status certificate : Option String}
    (h : keyPrompt reference status certificate = none) : status = none ∧ certificate = none := by
  by_contra hnot
  rw [keyPrompt, if_neg hnot] at h
  cases h

theorem keyStatus_eq_none {reference : KeyReference} {fields : Except (PivError IoError) MetadataFields}
    (h : keyStatus slotCrates reference fields = .ok none) : ReportsNoKey fields := by
  cases fields with
  | error error =>
    refine .inl ⟨error, rfl, ?_⟩
    by_contra hmissing
    rw [keyStatus, if_neg hmissing] at h
    split_ifs at h
    cases h
  | ok record =>
    refine .inr ⟨record, rfl, ?_⟩
    by_contra hkey
    rw [keyStatus, if_neg hkey] at h
    cases h

theorem certificateStatus_eq_none {object : Except (PivError IoError) Bytes}
    (h : certificateStatus slotCrates object = .ok none) :
    ∃ error, object = .error error ∧ missing error := by
  cases object with
  | ok data => cases h
  | error error =>
    refine ⟨error, rfl, ?_⟩
    by_contra hmissing
    rw [certificateStatus, if_neg hmissing] at h
    cases h

theorem keyStatus_error {reference : KeyReference} {error : PivError IoError}
    (h : ¬ Excused reference error) :
    keyStatus slotCrates reference (.error error) = .error (.piv error) := by
  obtain ⟨hmissing, hunavailable⟩ := not_or.mp h
  rw [keyStatus, if_neg hmissing, if_neg hunavailable]

theorem certificateStatus_error {error : PivError IoError} (h : ¬ missing error) :
    certificateStatus slotCrates (.error error) = .error (.piv error) := if_neg h

/-- A metadata read without a fatal error has a status. -/
theorem keyStatus_ok {reference : KeyReference} {fields : Except (PivError IoError) MetadataFields}
    (h : ∀ e, fields = .error e → Excused reference e) :
    ∃ status, keyStatus slotCrates reference fields = .ok status := by
  cases fields with
  | ok record =>
    rw [keyStatus]
    split_ifs
    · exact ⟨_, rfl⟩
    · exact ⟨_, rfl⟩
  | error error =>
    rw [keyStatus]
    split_ifs with hmissing hunavailable
    · exact ⟨_, rfl⟩
    · exact ⟨_, rfl⟩
    · exact absurd (h error rfl) (not_or.mpr ⟨hmissing, hunavailable⟩)

/-- An error cannot say both that there is nothing and that nobody knows. -/
theorem not_missing_of_unavailable {error : PivError IoError} (h : unavailable error) :
    ¬ missing error := by
  rcases error with (e | e) | e | ⟨stage, e⟩
  · cases h
  · intro hmissing
    simp only [missing, decide_eq_true_eq] at hmissing
    simp only [unavailable, decide_eq_true_eq, hmissing.1] at h
    simp at h
  · cases h
  · cases h

theorem key_consent (hreads : ReadOnly crates slotCrates) {reference : KeyReference}
    (h : Fallible.Traces (key crates slotCrates reference) tr o) :
    KeyConsent crates slotCrates reference tr o where
  toGuarded := (key_guards hreads reference).guarded h
  agreed ho := by
    subst ho
    rcases Trace.bind_iff.mp h with ⟨ho, -⟩ | ⟨fields, first, rest, rfl, hfirst, hrest⟩
    · cases ho
    rw [checkKey] at hrest
    rcases Fallible.traces_orThrow_bind_iff.mp hrest with ⟨e, -, -, ho⟩ | ⟨status, hstatus, hrest⟩
    · cases ho
    rcases Trace.bind_iff.mp hrest with ⟨ho, -⟩ | ⟨object, second, third, rfl, hsecond, hthird⟩
    · cases ho
    rw [confirmKey] at hthird
    rcases Fallible.traces_orThrow_bind_iff.mp hthird with
      ⟨e, -, -, ho⟩ | ⟨certificate, hcertificate, hthird⟩
    · cases ho
    have hnone : prompts first = [] ∧ prompts second = [] :=
      ⟨prompts_read (onCard_metadata_reads hreads reference).1 hfirst,
        prompts_read (onCard_object_reads hreads reference.certificate).1 hsecond⟩
    rcases approveAny_ok hthird with ⟨hprompt, rfl⟩ | hyes
    · obtain ⟨rfl, rfl⟩ := keyPrompt_eq_none hprompt
      obtain ⟨error, rfl, hmissing⟩ := certificateStatus_eq_none hcertificate
      refine .inl ⟨by simp [hnone.1, hnone.2], first, second, fields, by simp, hfirst,
        keyStatus_eq_none hstatus, error, hsecond, hmissing⟩
    · exact .inr (by simp [hnone.1, hnone.2, hyes])
  metadata_failed := by
    rintro first rest error rfl hfirst hexcused
    have hrest := Trace.bind_append hfirst h
    rw [checkKey, keyStatus_error hexcused] at hrest
    exact Trace.pure_iff.mp hrest
  certificate_failed := by
    rintro first second rest error fields rfl hfirst hfields hsecond hmissing
    have hrest := Trace.bind_append hfirst h
    obtain ⟨status, hstatus⟩ : ∃ status, keyStatus slotCrates reference fields = .ok status :=
      keyStatus_ok hfields
    rw [checkKey, hstatus] at hrest
    have hthird := Trace.bind_append hsecond hrest
    rw [confirmKey, certificateStatus_error hmissing] at hthird
    exact Trace.pure_iff.mp hthird
  unsupported := by
    rintro first second rest error object rfl hfirst hreference hunavailable hsecond hobject
    have hrest := Trace.bind_append hfirst h
    rw [checkKey, keyStatus, if_neg (not_missing_of_unavailable hunavailable),
      if_pos ⟨hreference, hunavailable⟩] at hrest
    have hthird := Trace.bind_append hsecond hrest
    obtain ⟨certificate, hcertificate⟩ :
        ∃ certificate, certificateStatus slotCrates object = .ok certificate := by
      cases object with
      | ok data => exact ⟨_, rfl⟩
      | error e => exact ⟨none, if_pos (hobject e rfl)⟩
    rw [confirmKey, hcertificate] at hthird
    have hask : Fallible.Traces (approveAny (keyPrompt reference (some _) certificate)) rest o := hthird
    rw [keyPrompt, if_neg (by simp), approveAny, approve_eq] at hask
    rcases Trace.ask_iff.mp hask with ⟨rfl, rfl⟩ | ⟨r, tail, rfl, htail⟩
    · exact .inl ⟨rfl, rfl⟩
    · obtain ⟨rfl, -⟩ := Trace.pure_iff.mp htail
      exact .inr ⟨_, r, rfl⟩

theorem certificate_consent (hreads : ReadOnly crates slotCrates) {reference : CertificateReference}
    {change : CertificateChange}
    (h : Fallible.Traces (certificate crates slotCrates reference change) tr o) :
    CertificateConsent crates slotCrates reference tr o where
  toGuarded := (certificate_guards hreads reference change).guarded h
  agreed ho := by
    subst ho
    rcases Trace.bind_iff.mp h with ⟨ho, -⟩ | ⟨object, first, rest, rfl, hfirst, hrest⟩
    · cases ho
    rw [confirmCertificate] at hrest
    rcases Fallible.traces_orThrow_bind_iff.mp hrest with ⟨e, -, -, ho⟩ | ⟨summary, hsummary, hrest⟩
    · cases ho
    have hnone := prompts_read (onCard_object_reads hreads reference).1 hfirst
    rcases approveAny_ok hrest with ⟨hprompt, rfl⟩ | hyes
    · obtain rfl := Option.map_eq_none_iff.mp hprompt
      obtain ⟨error, rfl, hmissing⟩ := certificateStatus_eq_none hsummary
      exact .inl ⟨by simp [hnone], error, by simpa using hfirst, hmissing⟩
    · exact .inr (by simp [hnone, hyes])
  read_failed := by
    rintro first rest error rfl hfirst hmissing
    have hrest := Trace.bind_append hfirst h
    rw [confirmCertificate, certificateStatus_error hmissing] at hrest
    exact Trace.pure_iff.mp hrest

/-- The slots are checked in turn. -/
theorem keys_consent (hreads : ReadOnly crates slotCrates) {slots : List Slot}
    (h : Fallible.Traces (keys crates slotCrates slots) tr o) :
    InTurn (fun slot => KeyConsent crates slotCrates (.key slot)) slots tr o := by
  induction slots generalizing tr with
  | nil =>
    obtain ⟨rfl, rfl⟩ := Fallible.traces_pure_iff.mp h
    exact .done
  | cons slot slots ih =>
    rcases Fallible.traces_bind_iff.mp h with ⟨rfl, hkey⟩ | ⟨e, rfl, hkey⟩ | ⟨⟨⟩, first, rest, rfl, hkey, hrest⟩
    · exact .ended (by simp) (key_consent hreads hkey)
    · exact .ended (by simp) (key_consent hreads hkey)
    · exact .next (key_consent hreads hkey) (ih hrest)

end Consent

end PivOverwrite
