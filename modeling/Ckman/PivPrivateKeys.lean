import Ckman.OutputFile
import Ckman.PivCertificates
import Ckman.Retry

/-!
# The private key commands

`piv sign`, `decrypt`, `derive`, `decapsulate` and `agree-sm2` have the card use
the key of a slot. The operation is tried without a PIN first; where the card
asks for one, it is resolved and the operation is tried once more. Secrets go to
a destination that is prepared before the card is looked for.
-/
namespace PivPrivateKeys

open Host Interaction PivKeys
open CommandLine (Path)
open Piv (Access Algorithm Card MetadataFields Operation PivError Slot)
open RsaSignature (HashAlgorithm)

structure PrivateKeyCrates extends KeyCrates where
  piv : Piv.Crates
  keyMetadata : Slot → Except Piv.Error (Operation MetadataFields)
  /-- `DeviceProfile::algorithm_from_wire_id`. -/
  algorithmFromWireId : UInt8 → Option Algorithm

/-- A file argument, where `-` is a standard stream. -/
inductive Place where
  | stream
  | path (path : Path)
  deriving DecidableEq, Repr

inductive Request where
  | command (request : CommandLine.Request)
  | output (request : OutputFile.Request)
  /-- `PivSession::connect`. -/
  | connect
  /-- Read a file or the standard input to its end. -/
  | read (place : Place)
  /-- `write_stdout`: write and flush. -/
  | writeStdout (data : Bytes)
  /-- `std::fs::write`. -/
  | overwrite (path : Path) (data : Bytes)
  /-- Print the own ephemeral public key. -/
  | announce (point : Bytes)
  deriving DecidableEq, Repr

inductive CliError where
  | cli (error : CommandLine.CliError)
  | output (error : OutputFile.CliError)
  deriving DecidableEq, Repr

abbrev Answer : Request → Type
  | .command request => CommandLine.Answer request
  | .output request => OutputFile.Answer request
  | .connect => Except CommandLine.CliError Unit
  | .read _ => Except IoError Bytes
  | .writeStdout _ => Except IoError Unit
  | .overwrite _ _ => Except IoError Unit
  | .announce _ => Unit

abbrev Command (α : Type) := Fallible Answer CliError α

variable {α : Type}

def onCommand (p : CommandLine.Command α) : Command α :=
  mapError .cli (Prog.lift Request.command (fun _ response => response) p)

def onCard {ε : Type} (p : Fallible (Piv.Answer IoError) ε α) : Fallible Answer ε α :=
  Prog.lift Request.command (fun _ response => response) (CommandLine.onCard p)

/-- `PivSession::run`. -/
def sessionRun (p : Fallible (Piv.Answer IoError) (PivError IoError) α) : Command α :=
  mapError (fun e => .cli (.piv e)) (onCard p)

def onOutput (p : Prog OutputFile.Answer α) : Prog Answer α :=
  Prog.lift Request.output (fun _ response => response) p

def fail (message : String) : CliError := .cli (.text message)

def ioCall (q : Request) (answer : Answer q → Except IoError α) : Command α :=
  mapError (fun e => .cli (.io e)) (attempt (Prog.ask q fun r => .pure (answer r)))

def connect : Command Unit := mapError .cli (attempt (Prog.request Request.connect))

def readInput (place : Place) : Command Bytes := ioCall (.read place) id

def writeStdout (data : Bytes) : Command Unit := ioCall (.writeStdout data) id

def writeOutput (place : Place) (data : Bytes) : Command Unit :=
  match place with
  | .stream => writeStdout data
  | .path path => ioCall (.overwrite path data) id

/-- A destination prepared before requesting sensitive data from the card. -/
inductive SecretOutput where
  | stdout
  | file (output : OutputFile.PreparedFile)

def SecretOutput.prepare : Place → Command SecretOutput
  | .stream => pure .stdout
  | .path path => do
    let output ← mapError .output (onOutput (OutputFile.prepare path true))
    pure (.file output)

/-- `SecretOutput::write`, with the output that it leaves. -/
def SecretOutput.write (bytes : Bytes) : SecretOutput → Prog Answer (Except CliError Unit × SecretOutput)
  | .stdout => Prog.bind (writeStdout bytes) fun result => .pure (result, .stdout)
  | .file output =>
    Prog.bind (onOutput (output.write bytes)) fun (result, after) => .pure (result.mapError .output, .file after)

def SecretOutput.drop : SecretOutput → Prog Answer Unit
  | .stdout => .pure ()
  | .file output => onOutput output.drop

def secretOf : (operation : KeyOperation) → operation.Output → Bytes
  | .sign _, signature => signature
  | .decrypt _ _, plaintext => plaintext
  | .derive _ _, secret => secret
  | .decapsulate _, secret => secret
  | .agreeSm2 _, agreement => agreement.key

/-- The peer needs our ephemeral point to complete its side. -/
def announce : (operation : KeyOperation) → operation.Output → Command Unit
  | .agreeSm2 _, agreement => Prog.ask (.announce agreement.ephemeralPublic) fun _ => .pure (.ok ())
  | _, _ => pure ()

/-- A result of the card, together with the operation that it is of. -/
abbrev Result := (operation : KeyOperation) × operation.Output

/-- The end of a command with a result: write the secret, drop the output. -/
def deliver (destination : SecretOutput) (result : Result) : Command Unit :=
  Prog.bind (destination.write (secretOf result.1 result.2)) fun (written, after) =>
    Prog.bind (orThrow written >>= fun _ => announce result.1 result.2 : Command Unit) fun r =>
      Prog.bind after.drop fun _ => .pure r

/-- The life of a secret output around what the card is asked for. -/
def withSecretOutput (place : Place) (body : Command Result) : Command Unit := do
  let destination ← SecretOutput.prepare place
  Prog.bind body fun
    | .error error => Prog.bind destination.drop fun _ => .pure (.error error)
    | .ok result => deliver destination result

section Commands

variable (crates : PrivateKeyCrates)

def slotAlgorithm (slot : Slot) : Command Algorithm := do
  let fields ← sessionRun (Piv.run (crates.keyMetadata slot))
  let id ← orThrow (okOr fields.algorithmId (fail "no key in this slot"))
  orThrow (okOr (crates.algorithmFromWireId id) (fail ("unknown key algorithm (wire id 0x" ++ hexEncode [id] ++ ")")))

def needsPin : SignError IoError → Bool
  | .piv (.drive (.protocol error)) => error.kind = .securityStatusNotSatisfied
  | _ => false

/-- Run a private-key operation without a PIN first; when the card requires
verification, resolve the PIN (argument or prompt) and retry once. -/
def runWithPin (pin : Option String)
    (operation : Access → Fallible (Piv.Answer IoError) (SignError IoError) α) : Command α :=
  retryWith needsPin (fun e => .cli (PivCertificates.describeSign e))
    (onCommand (PivSession.resolvePin crates.piv pin "Enter PIN"))
    fun pin => onCard (operation (pin.elim .none .pin))

def usingKey (slot : Slot) (operation : KeyOperation) (access : Access) :
    Fallible (Piv.Answer IoError) (SignError IoError) operation.Output :=
  mapError .piv (Piv.run (crates.perform slot operation access))

/-- Have the card do what the algorithm of its key allows. -/
def operate (slot : Slot) (pin : Option String) (operationFor : Algorithm → Except CliError KeyOperation) :
    Command Result := do
  connect
  let algorithm ← slotAlgorithm crates slot
  let operation ← orThrow (operationFor algorithm)
  let output ← runWithPin crates pin (usingKey crates slot operation)
  pure ⟨operation, output⟩

structure SignArgs where
  slot : Slot
  input : Place
  output : Place
  hash : Option HashAlgorithm
  raw : Bool
  pin : Option String

/-- The arguments of the commands that turn one input into a secret. -/
structure SecretArgs where
  slot : Slot
  input : Place
  output : Place
  pin : Option String

structure AgreeArgs where
  slot : Slot
  peerStatic : Place
  peerEphemeral : Place
  keyOutput : Place
  role : Sm2Role
  /-- From 1 to 128. -/
  keyLen : UInt16
  userId : Option String
  peerId : Option String
  pin : Option String

inductive PrivateKeyCommand where
  | sign (args : SignArgs)
  | decrypt (args : SecretArgs)
  | derive (args : SecretArgs)
  | decapsulate (args : SecretArgs)
  | agreeSm2 (args : AgreeArgs)

/-- What `--raw` signs, in the mode of the algorithm. -/
def rawInput (data : Bytes) : Algorithm → Except CliError SignInput
  | .rsa1024 | .rsa2048 | .rsa3072 | .rsa4096 => .ok (.rsaEncodedBlock data)
  | .eccP256 | .eccP384 | .eccP521 | .secp256k1 | .sm2 => .ok (.digest data)
  | .ed25519 => .ok (.message data)
  | .mlDsa65 => .error (fail "--raw does not apply to ML-DSA-65; omit it to sign the message")
  | .x25519 | .mlKem768 => .error (fail "this algorithm cannot sign")

/-- The hash of a message: SHA-256 unless another one is asked for. -/
def messageHash (hash : Option HashAlgorithm) (algorithm : Algorithm) : Except CliError (Option HashAlgorithm) :=
  match hash, algorithm with
  | some _, .sm2 | some _, .ed25519 | some _, .mlDsa65 =>
    .error (fail "--hash applies to RSA/ECC only; this algorithm signs the message directly")
  | some hash, _ => .ok (some hash)
  | none, .rsa1024 | none, .rsa2048 | none, .rsa3072 | none, .rsa4096
  | none, .eccP256 | none, .eccP384 | none, .eccP521 | none, .secp256k1 => .ok (some .sha256)
  | none, _ => .ok none

def signature (args : SignArgs) (data : Bytes) : Command Bytes := do
  connect
  let algorithm ← slotAlgorithm crates args.slot
  if args.raw then do
    let input ← orThrow (rawInput data algorithm)
    runWithPin crates args.pin (usingKey crates args.slot (.sign (.sign algorithm input)))
  else do
    let hash ← orThrow (messageHash args.hash algorithm)
    runWithPin crates args.pin (signMessage crates.toKeyCrates args.slot algorithm hash data)

def sign (args : SignArgs) : Command Unit := do
  let data ← readInput args.input
  let signature ← signature crates args data
  writeOutput args.output signature

def decryptOperation (ciphertext : Bytes) (algorithm : Algorithm) : Except CliError KeyOperation :=
  match algorithm with
  | .rsa1024 | .rsa2048 | .rsa3072 | .rsa4096 => .ok (.decrypt algorithm ciphertext)
  | _ => .error (fail "decrypt requires an RSA key in the slot")

def deriveOperation (peer : Bytes) (algorithm : Algorithm) : Except CliError KeyOperation :=
  match algorithm with
  | .eccP256 | .eccP384 | .eccP521 | .secp256k1 | .x25519 => .ok (.derive algorithm peer)
  | _ => .error (fail "derive requires an ECC (ECDH) or X25519 key in the slot")

def decapsulateOperation (ciphertext : Bytes) (algorithm : Algorithm) : Except CliError KeyOperation :=
  if algorithm = .mlKem768 then .ok (.decapsulate ciphertext)
  else .error (fail "decapsulate requires an ML-KEM-768 key in the slot")

def agreeOperation (input : Sm2AgreementInput) (algorithm : Algorithm) : Except CliError KeyOperation :=
  if algorithm = .sm2 then .ok (.agreeSm2 input) else .error (fail "agree-sm2 requires an SM2 key in the slot")

def decrypt (args : SecretArgs) : Command Unit := do
  let ciphertext ← readInput args.input
  withSecretOutput args.output (operate crates args.slot args.pin (decryptOperation ciphertext))

def derive (args : SecretArgs) : Command Unit := do
  let peer ← readInput args.input
  withSecretOutput args.output (operate crates args.slot args.pin (deriveOperation peer))

def decapsulate (args : SecretArgs) : Command Unit := do
  let ciphertext ← readInput args.input
  withSecretOutput args.output (operate crates args.slot args.pin (decapsulateOperation ciphertext))

def parseId (value : Option String) (name : String) : Except CliError (Option Bytes) :=
  value.mapM fun text => okOr (hexDecode text) (fail (name ++ " must be hex-encoded"))

def agreeSm2 (args : AgreeArgs) : Command Unit := do
  let peerStatic ← readInput args.peerStatic
  let peerEphemeral ← readInput args.peerEphemeral
  let userId ← orThrow (parseId args.userId "--user-id")
  let peerId ← orThrow (parseId args.peerId "--peer-id")
  withSecretOutput args.keyOutput (operate crates args.slot args.pin
    (agreeOperation ⟨args.role, peerStatic, peerEphemeral, userId, peerId, args.keyLen⟩))

def privateKey : PrivateKeyCommand → Command Unit
  | .sign args => sign crates args
  | .decrypt args => decrypt crates args
  | .derive args => derive crates args
  | .decapsulate args => decapsulate crates args
  | .agreeSm2 args => agreeSm2 crates args

end Commands

end PivPrivateKeys
