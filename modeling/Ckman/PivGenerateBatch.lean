import Ckman.PivOverwrite
import Ckman.ReferenceCard

/-!
# The batch generation command

`keys generate-batch` prepares its output files, asks about every slot, and only
then resolves the management key and drives the generation. A prepared file
touches nothing but the file system, so preparing and writing one is a request
here, answered in any way.
-/
namespace PivGenerateBatch

open Host Interaction CommandLine PivOverwrite
open Pem (Base64 pemEncode)
open Piv (Crates Slot PublicKey PivError KeyParameters Algorithm PinPolicy TouchPolicy GenerateAnswer
  GenerateKeysError)

inductive Encoding where
  | pem | der
  deriving DecidableEq, Repr

structure GenerateBatch where
  slots : List Slot
  algorithm : Algorithm
  outputDir : Path
  pinPolicy : PinPolicy
  touchPolicy : TouchPolicy
  format : Encoding
  managementKey : Option String

inductive Request where
  | command (request : CommandLine.Request)
  /-- `PreparedFile::new`; the answer is its destination. -/
  | prepareFile (path : Path)
  /-- `outputs[index].write`. -/
  | writeFile (index : Nat) (data : Bytes)
  deriving DecidableEq, Repr

abbrev Answer : Request → Type
  | .command request => CommandLine.Answer request
  | .prepareFile _ => Except CliError Path
  | .writeFile _ _ => Except CliError Unit

inductive BatchError where
  | cli (error : CliError)
  /-- `cannot encode the public key: {error}` -/
  | cannotEncode (error : Piv.Error)
  /-- `key generated in slot {}, but its public key could not be saved: {error}; batch stopped` -/
  | notSaved (slot : Slot) (error : CliError)
  deriving DecidableEq, Repr

abbrev Batch (α : Type) := Fallible Answer BatchError α

variable {α ε : Type}

def inCommand (p : Fallible CommandLine.Answer ε α) : Fallible Answer ε α :=
  Prog.lift Request.command (fun _ response => response) p

def onCommand (p : Command α) : Batch α := mapError .cli (inCommand p)

def Encoding.extension : Encoding → String
  | pem => "pem"
  | der => "der"

def outputPath (directory : Path) (format : Encoding) (slot : Slot) : Path :=
  directory.join (Piv.slotName slot ++ "." ++ format.extension)

/-- The loop over the slots; `outputs` are the destinations so far. -/
def prepareEach (directory : Path) (format : Encoding) (outputs : List Path) :
    List Slot → Batch (List Path)
  | [] => pure outputs
  | slot :: slots => do
    let output ← mapError .cli
      (attempt (Prog.request (Request.prepareFile (outputPath directory format slot))))
    orThrow (refuse (output ∈ outputs)
      (.cli (.text "multiple public key outputs resolve to the same file")))
    prepareEach directory format (outputs ++ [output]) slots

def prepareBatchOutputs (slots : List Slot) (directory : Path) (format : Encoding) :
    Batch (List Path) := do
  orThrow ((Piv.validateGenerationSlots slots).mapError fun _ =>
    .cli (.text "batch generation requires at least one slot and no duplicate slots"))
  prepareEach directory format [] slots

section Command

variable (crates : Crates) (slotCrates : SlotCrates) (base64 : Base64)

def encode (format : Encoding) (der : Bytes) : Bytes :=
  match format with
  | .pem => pemEncode base64 "PUBLIC KEY".toList der
  | .der => der

/-- The callback: save the public key of the slot that was generated. -/
def saveKey (args : GenerateBatch) (done : Nat) (key : PublicKey) : Batch Unit := do
  let der ← orThrow ((slotCrates.spkiDer key).mapError .cannotEncode)
  let slot ← inCommand (onCard (Piv.unwrap args.slots[done - 1]?))
  mapError (.notSaved slot)
    (attempt (Prog.request (Request.writeFile (done - 1) (encode base64 args.format der))))

/-- Run the generation on the card, with the callback in between. -/
def drive (callback : Nat → PublicKey → Batch Unit) :
    Prog (GenerateAnswer IoError BatchError) α → Prog Answer α
  | .pure a => .pure a
  | .ask (.exchange command) next =>
    .ask (.command (.card (.exchange command))) fun response => drive callback (next response)
  | .ask (.progress done key) next =>
    Prog.bind (callback done key) fun result => drive callback (next result)

def generationError : GenerateKeysError IoError BatchError → BatchError
  | .operation error => .cli (.piv error)
  | .callback error => error

def mutualError : PivError IoError → CliError
  | .random error => .random error
  | error => .piv error

def parameters (args : GenerateBatch) : List KeyParameters :=
  args.slots.map fun slot => ⟨slot, args.algorithm, args.pinPolicy, args.touchPolicy⟩

def authenticateAndGenerate (args : GenerateBatch) : Batch Unit := do
  let management ← onCommand (PivSession.resolveManagement crates args.managementKey none)
  let authentication ← onCommand (mapError mutualError (onCard (Piv.mutualAuth crates management.key)))
  let _ ← mapError generationError (attempt (drive (saveKey slotCrates base64 args)
    (Piv.generateKeysWithProgress slotCrates.batch (parameters args) authentication)))
  pure ()

def generateBatch (args : GenerateBatch) : Batch Unit := do
  let _ ← prepareBatchOutputs args.slots args.outputDir args.format
  onCommand (keys crates slotCrates args.slots)
  authenticateAndGenerate crates slotCrates base64 args

end Command

section Preflight

variable {crates : Crates} {slotCrates : SlotCrates} {base64 : Base64} {args : GenerateBatch}
  {tr : List (Event Answer)} {o : Option (Except BatchError Unit)}

/-- An event of the card or of the user, as an event of the command. -/
def commandEvent (event : Event CommandLine.Answer) : Event Answer :=
  ⟨.command event.request, event.answer⟩

/-- A run of the command: files are prepared, the slots are checked, and only
when every check has succeeded does anything follow. -/
structure Preflight (crates : Crates) (slotCrates : SlotCrates) (slots : List Slot)
    (outputs : List (Event Answer)) (checks : List (Event CommandLine.Answer))
    (rest : List (Event Answer)) : Prop where
  prepared : ∀ event ∈ outputs, ∃ path, event.request = .prepareFile path
  checked : (checks = [] ∧ rest = []) ∨ ∃ result,
    Fallible.Traces (keys crates slotCrates slots) checks result ∧
      (result ≠ some (.ok ()) → rest = [])
  reads : ∀ event ∈ checks, Reading event.request

theorem prepareEach_only (directory : Path) (format : Encoding) (outputs : List Path)
    (slots : List Slot) :
    Prog.Only (fun q => ∃ path, q = .prepareFile path)
      (prepareEach directory format outputs slots) := by
  induction slots generalizing outputs with
  | nil => trivial
  | cons slot slots ih =>
    refine Fallible.only_bind (Fallible.only_mapError (Fallible.only_request ⟨_, rfl⟩)) fun output => ?_
    exact Fallible.only_bind trivial fun _ => ih _

theorem prepareBatchOutputs_only (slots : List Slot) (directory : Path) (format : Encoding) :
    Prog.Only (fun q => ∃ path, q = .prepareFile path) (prepareBatchOutputs slots directory format) :=
  Fallible.only_bind trivial fun _ => prepareEach_only directory format [] slots

/-- A run of a part without files, on its own events. -/
theorem traces_onCommand {p : Command α} {result : Option (Except BatchError α)}
    (h : Fallible.Traces (onCommand p) tr result) :
    ∃ tr' result', tr = tr'.map commandEvent ∧ Fallible.Traces p tr' result' ∧
      result = result'.map (Except.mapError .cli) := by
  obtain ⟨result', rfl, hlift⟩ := Fallible.traces_mapError_iff.mp h
  obtain ⟨tr', rfl, htr⟩ := Trace.of_lift (A := CommandLine.Answer) Request.command
    (fun _ response => response) (fun _ _ => rfl) hlift
  exact ⟨tr', result', rfl, htr, rfl⟩

theorem generateBatch_preflight (hreads : ReadOnly crates slotCrates)
    (h : Fallible.Traces (generateBatch crates slotCrates base64 args) tr o) :
    ∃ (outputs : List (Event Answer)) (checks : List (Event CommandLine.Answer))
      (rest : List (Event Answer)), tr = outputs ++ (checks.map commandEvent ++ rest) ∧
        Preflight crates slotCrates args.slots outputs checks rest := by
  have hfiles := prepareBatchOutputs_only args.slots args.outputDir args.format
  have hguards := keys_guards hreads args.slots
  rcases Fallible.traces_bind_iff.mp h with
    ⟨-, hfirst⟩ | ⟨e, -, hfirst⟩ | ⟨outputs, first, second, rfl, hfirst, hsecond⟩
  · exact ⟨tr, [], [], by simp, Trace.only hfiles hfirst, .inl ⟨rfl, rfl⟩, by simp⟩
  · exact ⟨tr, [], [], by simp, Trace.only hfiles hfirst, .inl ⟨rfl, rfl⟩, by simp⟩
  rcases Fallible.traces_bind_iff.mp hsecond with
    ⟨-, hchecks⟩ | ⟨e, -, hchecks⟩ | ⟨⟨⟩, checks, rest, rfl, hchecks, -⟩
  · obtain ⟨checks, result, rfl, hkeys, -⟩ := traces_onCommand hchecks
    exact ⟨first, checks, [], by simp, Trace.only hfiles hfirst, .inr ⟨result, hkeys, fun _ => rfl⟩,
      Trace.only hguards.reads hkeys⟩
  · obtain ⟨checks, result, rfl, hkeys, -⟩ := traces_onCommand hchecks
    exact ⟨first, checks, [], by simp, Trace.only hfiles hfirst, .inr ⟨result, hkeys, fun _ => rfl⟩,
      Trace.only hguards.reads hkeys⟩
  · obtain ⟨checks, result, rfl, hkeys, hresult⟩ := traces_onCommand hchecks
    obtain rfl : result = some (.ok ()) := by
      rcases result with _ | ⟨e | ⟨⟩⟩
      · cases hresult
      · cases hresult
      · rfl
    exact ⟨first, checks, rest, rfl, Trace.only hfiles hfirst,
      .inr ⟨_, hkeys, fun hne => absurd rfl hne⟩, Trace.only hguards.reads hkeys⟩

/-- The overwrite checks and the batch generation: what is overwritten was
reported absent or agreed to, and a batch starts after all its checks. -/
theorem overwrite_consent (hreads : ReadOnly crates slotCrates) :
    (∀ reference tr o, Fallible.Traces (key crates slotCrates reference) tr o →
      KeyConsent crates slotCrates reference tr o) ∧
    (∀ slots tr o, Fallible.Traces (keys crates slotCrates slots) tr o →
      InTurn (fun slot => KeyConsent crates slotCrates (.key slot)) slots tr o ∧ Guarded tr o) ∧
    (∀ reference change tr o, Fallible.Traces (certificate crates slotCrates reference change) tr o →
      CertificateConsent crates slotCrates reference tr o) ∧
    ∀ base64 args tr o, Fallible.Traces (generateBatch crates slotCrates base64 args) tr o →
      ∃ (outputs : List (Event Answer)) (checks : List (Event CommandLine.Answer))
        (rest : List (Event Answer)), tr = outputs ++ (checks.map commandEvent ++ rest) ∧
          Preflight crates slotCrates args.slots outputs checks rest :=
  ⟨fun _ _ _ h => key_consent hreads h,
    fun slots _ _ h => ⟨keys_consent hreads h, (keys_guards hreads slots).guarded h⟩,
    fun _ _ _ _ h => certificate_consent hreads h,
    fun _ _ _ _ h => generateBatch_preflight hreads h⟩

end Preflight

namespace Fixture

open Reference

def fieldsOf : Nat → Bytes → Except Piv.Error (List (Nat × Bytes))
  | 0, _ => .error malformed
  | n + 1, bytes => do
    match ← tlv.next bytes with
    | none => pure []
    | some (tag, value, rest) => do
      let fields ← fieldsOf n rest
      pure ((tag, value) :: fields)

def originOf : UInt8 → Piv.KnownOrUnknown Piv.KeyOrigin
  | 0 => .known .notPresent
  | 1 => .known .generated
  | 2 => .known .imported
  | raw => .unknown raw

/-- The metadata of a slot: its algorithm, its origin and the point of its key. -/
def recordOf (fields : List (Nat × Bytes)) : Piv.MetadataFields where
  algorithmId := fields.lookup 1 >>= List.head?
  pinPolicy := none
  touchPolicy := none
  origin := (fields.lookup 3 >>= List.head?).map originOf
  isDefault := none
  publicKey := do
    let id ← fields.lookup 1 >>= List.head?
    let point ← fields.lookup 4 >>= Der.element 0x86
    pure ⟨id, point⟩

def slotMetadataOf (response : Bytes) : Except Piv.Error Piv.MetadataFields :=
  if response = unsupported then .error (failure .unsupportedFeature)
  else if response = notFound then .error (failure .notFound)
  else do
    let fields ← fieldsOf response.length (response.take (response.length - 2))
    pure (recordOf fields)

def certificateObject : Slot → Piv.ObjectId
  | .authentication => ⟨[0x5f, 0xc1, 0x05]⟩
  | .signature => ⟨[0x5f, 0xc1, 0x0a]⟩
  | .keyManagement => ⟨[0x5f, 0xc1, 0x0b]⟩
  | .cardAuthentication => ⟨[0x5f, 0xc1, 0x01]⟩
  | .retired slot => ⟨[0x5f, 0xc1, UInt8.ofNat (0x0c + slot.index)]⟩

def derOf (object : Bytes) : Except Piv.Error Bytes := do
  let fields ← fieldsOf (object.length + 1) object
  okOr (fields.lookup 0x70) malformed

/-- No certificate and no public key can be read. -/
def slotCrates (vectors : Vectors) : SlotCrates where
  keyMetadata slot := .ok (withAccess vectors .none
    (finish (metadataCommand slot.reference) slotMetadataOf))
  attestationMetadata := .ok (withAccess vectors .none (finish (metadataCommand 0xf9) slotMetadataOf))
  attestation := .ok ()
  certificateObject := certificateObject
  fromObject := derOf
  parseDer _ := .error malformed
  spkiDer _ := .error (failure .unsupportedFeature)
  sha256 _ := List.replicate 32 0
  batch _ := .error malformed

/-- SELECT and one read command. -/
theorem only_read {T : Type} {vectors : Vectors} {command : Bytes} {result : Bytes → Except Piv.Error T}
    (h : ReadCommand command) :
    (withAccess vectors .none (finish command result)).Only ReadCommand := by
  refine ⟨by decide, fun response => ?_⟩
  change (if response = success then finish command result else _).Only ReadCommand
  by_cases hselected : response = success
  · rw [if_pos hselected]
    exact ⟨h, fun _ => trivial⟩
  · rw [if_neg hselected]
    trivial

theorem readOnly (vectors : Vectors) : ReadOnly (crates vectors) (slotCrates vectors) where
  keyMetadata slot op hop := by
    cases hop
    exact only_read (by simp [ReadCommand, Piv.instruction, metadataCommand])
  attestationMetadata op hop := by
    cases hop
    exact only_read (by decide)
  readObject id op hop := by
    obtain ⟨-, rfl⟩ := accept_ok hop
    exact only_read (by simp [ReadCommand, Piv.instruction, getDataCommand])

/-- The slot holds a key and no certificate, and the user agrees. -/
def occupied : (q : CommandLine.Request) → Option (CommandLine.Answer q)
  | .card (.exchange command) =>
    if Piv.instruction command = 0xf7 then some (.ok [0x03, 0x01, 0x01, 0x90, 0x00])
    else if Piv.instruction command = 0xcb then some (.ok notFound)
    else some (.ok success)
  | .confirm _ => some (.ok true)
  | _ => none

end Fixture

theorem overwrite_consent_occupied :
    Agreed (KeyAbsent (Reference.crates ⟨[], [], []⟩) (Fixture.slotCrates ⟨[], [], []⟩)
        (.key .authentication))
      (Prog.against Fixture.occupied (key (Reference.crates ⟨[], [], []⟩) (Fixture.slotCrates ⟨[], [], []⟩)
        (.key .authentication))).1 := by
  refine ((overwrite_consent (Fixture.readOnly ⟨[], [], []⟩)).1 (.key .authentication) _ _
    (Trace.against Fixture.occupied _)).agreed ?_
  decide +kernel

end PivGenerateBatch
