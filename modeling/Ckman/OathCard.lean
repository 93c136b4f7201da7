import Ckman.AccountCodes
import Ckman.DriveErrors
import Ckman.OathAdd
import Mathlib.Data.Multiset.AddSub

/-!
# The OATH applet and its host

Every operation of libcanokey on the OATH applet selects the applet anew and,
when it is given an access key, validates the key before the target command.
The applet, the keyring of the operating system and the user answer the
requests of a command. An operation that fails may still have been performed,
because the failure can be that of its answer; only a refused access key tells
that nothing was done.
-/
namespace OathCard

open Host Interaction
open Oath (Calculation Credential Entry Kind Name)
open AccountCodes (CredentialRef Format)
open Drive (DriveError)
open CommandLine (CliError)

/-- A device-bound access key, `[u8; 16]`. -/
abbrev Key := { bytes : Bytes // bytes.length = 16 }

/-- The password-derivation salt of a SELECT response, and a challenge. -/
abbrev Eight := { bytes : Bytes // bytes.length = 8 }

structure Access where
  key : Key
  challenge : Eight
  deriving DecidableEq

inductive Touch where
  | short | long
  deriving DecidableEq, Repr

/-- The requests of `canokey::oath` that the commands make. -/
inductive Operation where
  | select | validate | list
  | put (credential : Credential)
  | rename (old new : Name)
  | delete (name : Name)
  | calculate (credential : CredentialRef) (challenge : Option Bytes) (format : Format)
  | setDefault (slot : Touch) (appendEnter : Bool) (name : Name)
  | setCode (key : Key) (challenge : Eight)
  | clearCode
  | getSerial
  | challengeResponseHmac (slot : Touch) (challenge : Bytes)
  deriving DecidableEq

abbrev Serial := { bytes : Bytes // bytes.length = 4 }

structure Selection where
  version : UInt8 × UInt8 × UInt8
  handle : Eight
  /-- Present exactly when the applet is protected. -/
  challenge : Option Eight
  deriving DecidableEq

inductive Outcome where
  | selection (selection : Selection)
  /-- A legacy 1.3 selection carries no version, salt or challenge. -/
  | legacySelection (serial : Option Serial)
  | unit
  | entries (entries : List Entry)
  | calculations (calculations : List Calculation)
  | serial (serial : UInt32)
  | challengeResponse (response : Bytes)
  deriving DecidableEq

inductive OathError where
  | drive (error : DriveError)
  | random (error : RandomError)
  deriving DecidableEq, Repr

inductive KeyringError where
  | noEntry
  | platform (message : String)
  deriving DecidableEq, Repr

/-- What a command prints beside its result. A message that is formatted from
values is kept as these values. -/
inductive Notice where
  /-- `Warning: system keyring unavailable: {error}` -/
  | keyringUnavailable (error : KeyringError)
  /-- `Warning: no readable serial number; password not remembered` -/
  | noSerial
  /-- `Password remembered.` -/
  | remembered
  /-- `Warning: could not store password in the keyring: {error}` -/
  | notStored (error : KeyringError)
  /-- A line without a value of the run. -/
  | line (text : String)
  deriving DecidableEq, Repr

inductive Request where
  /-- `Pcsc::establish` and `single_target`, whose target has this serial number. -/
  | target
  /-- One libcanokey operation, driven to its end. -/
  | card (operation : Operation) (access : Option Access)
  /-- `admin::reset_applet` for the OATH applet. -/
  | resetApplet (pin : Option Bytes)
  /-- `getrandom::fill` of an array. -/
  | fill (length : Nat)
  | prompt (text : String)
  | confirm (text : String)
  /-- `keyring::Entry::new` for the service `ckman` and the user `oath:{serial}`. -/
  | entry (serial : UInt32)
  | getPassword (serial : UInt32)
  | setPassword (serial : UInt32) (text : String)
  | deleteCredential (serial : UInt32)
  | notice (notice : Notice)
  /-- `SystemTime::now()` in seconds since the epoch. -/
  | now
  /-- `writeln!` to the standard output, with its newline. -/
  | write (line : List Char)
  | flush
  /-- A panic: nothing answers it. -/
  | panicked
  deriving DecidableEq

abbrev Answer : Request → Type
  | .target => Except CliError (Option UInt32)
  | .card _ _ => Except DriveError Outcome
  | .resetApplet _ => Except DriveError Unit
  | .fill n => Except RandomError { bytes : Bytes // bytes.length = n }
  | .prompt _ => Except IoError String
  | .confirm _ => Except IoError Bool
  | .entry _ => Except KeyringError Unit
  | .getPassword _ => Except KeyringError String
  | .setPassword _ _ => Except KeyringError Unit
  | .deleteCredential _ => Except KeyringError Unit
  | .notice _ => Unit
  | .now => Option UInt64
  | .write _ => Except IoError Unit
  | .flush => Except IoError Unit
  | .panicked => Empty

/-- A program that ends with a `CliResult`. -/
abbrev Command (α : Type) := Fallible Answer CliError α

abbrev Wrapped (α : Type) := Fallible Answer OathError α

/-- `run` of the wrappers. -/
def run (operation : Operation) (access : Option Access) : Wrapped Outcome :=
  mapError .drive (attempt (Prog.request (Request.card operation access)))

def random (n : Nat) : Wrapped { bytes : Bytes // bytes.length = n } :=
  mapError .random (attempt (Prog.request (Request.fill n)))

inductive Selected where
  | modern (selection : Selection)
  | legacy (serial : Option Serial)
  deriving DecidableEq

def selected : Outcome → Except OathError Selected
  | .selection selection => .ok (.modern selection)
  | .legacySelection serial => .ok (.legacy serial)
  | _ => .error (.drive .unexpected)

def select : Wrapped Selected := do
  orThrow (selected (← run .select none))

/-- The outcome of an operation that only reports its end. -/
def finished : Outcome → Except OathError Unit
  | .unit => .ok ()
  | _ => .error (.drive .unexpected)

/-- The wrappers that match on `Outcome::Unit`. -/
def perform (operation : Operation) (access : Option Access) : Wrapped Unit := do
  orThrow (finished (← run operation access))

def validate (access : Access) : Wrapped Unit := perform .validate (some access)

def add (access : Option Access) (credential : Credential) : Wrapped Unit :=
  perform (.put credential) access

def rename (access : Option Access) (old new : Name) : Wrapped Unit := perform (.rename old new) access

def delete (access : Option Access) (name : Name) : Wrapped Unit := perform (.delete name) access

def setDefault (slot : Touch) (appendEnter : Bool) (name : Name) (access : Option Access) : Wrapped Unit :=
  perform (.setDefault slot appendEnter name) access

def setPassword (access : Option Access) (key : Key) : Wrapped Unit := do
  let challenge ← random 8
  perform (.setCode key challenge) access

def clearPassword (access : Option Access) : Wrapped Unit := perform .clearCode access

def listed : Outcome → Except OathError (List Entry)
  | .entries entries => .ok entries
  | _ => .error (.drive .unexpected)

def list (access : Option Access) : Wrapped (List Entry) := do
  orThrow (listed (← run .list access))

def calculated : Outcome → Except OathError Calculation
  | .calculations [calculation] => .ok calculation
  | _ => .error (.drive .unexpected)

def calculate (access : Option Access) (credential : CredentialRef) (challenge : Option Bytes)
    (format : Format) : Wrapped Calculation := do
  orThrow (calculated (← run (.calculate credential challenge format) access))

def serialOf : Outcome → Except OathError UInt32
  | .serial serial => .ok serial
  | _ => .error (.drive .unexpected)

def getSerial : Wrapped UInt32 := do
  orThrow (serialOf (← run .getSerial none))

def responseOf : Outcome → Except OathError Bytes
  | .challengeResponse response => .ok response
  | _ => .error (.drive .unexpected)

def challengeResponseHmac (slot : Touch) (challenge : Bytes) : Wrapped Bytes := do
  orThrow (responseOf (← run (.challengeResponseHmac slot challenge) none))

/-- Wrap an access key with a fresh challenge for one validation. -/
def accessFromKey (key : Key) : Wrapped Access := do
  let challenge ← random 8
  pure ⟨key, challenge⟩

/-- The generation of the applet; only a modern one has an access code. -/
inductive Applet where
  | legacy
  | modern (handle : Eight) (code : Option Key)
  deriving DecidableEq

def Applet.code : Applet → Option Key
  | .legacy => none
  | .modern _ code => code

def Applet.handle : Applet → Option Eight
  | .legacy => none
  | .modern handle _ => some handle

structure Card where
  applet : Applet
  accounts : Multiset Credential

abbrev Card.code (card : Card) : Option Key := card.applet.code

/-- The algorithm/type octet of a stored credential: type in the high nibble,
algorithm in the low one. -/
def typeOctet (credential : Credential) : UInt8 :=
  (match credential.kind with | .hotp => 0x10 | .totp => 0x20) |||
    match credential.algorithm with | .sha1 => 1 | .sha256 => 2 | .sha512 => 3

def entryOf (credential : Credential) : Entry := ⟨credential.name, typeOctet credential⟩

/-- What an authorised operation answers and does. A rename is not refused for
an existing destination, because firmware before 2.0 does not refuse it. A
calculation may advance the counter of its credential. -/
def Target : Operation → Card → Outcome → Card → Prop
  | .select, c, r, d => d = c ∧
    match c.applet with
    | .legacy => ∃ serial, r = .legacySelection serial
    | .modern handle code => ∃ version challenge, r = .selection ⟨version, handle, challenge⟩ ∧
        challenge.isSome = code.isSome
  | .validate, c, r, d => d = c ∧ r = .unit
  | .list, c, r, d => d = c ∧ ∃ stored : List Credential, (stored : Multiset Credential) = c.accounts ∧
      r = .entries (stored.map entryOf)
  | .put credential, c, r, d => r = .unit ∧ (∀ other ∈ c.accounts, other.name ≠ credential.name) ∧
      d = { c with accounts := credential ::ₘ c.accounts }
  | .rename old new, c, r, d => r = .unit ∧ ∃ credential rest, c.accounts = credential ::ₘ rest ∧
      credential.name = old ∧ d = { c with accounts := { credential with name := new } ::ₘ rest }
  | .delete name, c, r, d => r = .unit ∧ ∃ credential rest, c.accounts = credential ::ₘ rest ∧
      credential.name = name ∧ d = { c with accounts := rest }
  | .calculate reference _ _, c, _, d => ∃ credential rest counter, c.accounts = credential ::ₘ rest ∧
      credential.name = reference.name ∧
      d = { c with accounts := { credential with initialCounter := counter } ::ₘ rest }
  | .setDefault .., c, r, d => d = c ∧ r = .unit
  | .setCode key _, c, r, d => r = .unit ∧ ∃ handle, c.applet.handle = some handle ∧
      d = { c with applet := .modern handle (some key) }
  | .clearCode, c, r, d => r = .unit ∧ ∃ handle, c.applet.handle = some handle ∧
      d = { c with applet := .modern handle none }
  | .getSerial, c, _, d => d = c
  | .challengeResponseHmac .., c, _, d => d = c

/-- The operations that the applet answers before its access-validation gate. -/
def Operation.isOpen : Operation → Bool
  | .select | .getSerial | .challengeResponseHmac .. => true
  | _ => false

/-- The supplied access key is the code of the applet; without a code none may
be supplied. -/
def Authorized (operation : Operation) (access : Option Access) (card : Card) : Prop :=
  operation.isOpen = true ∨ access.map Access.key = card.code

def refusesAccess : DriveError → Bool
  | .transport _ => false
  | .protocol error => error.kind = .authenticationFailed ∧ error.reference = some .oathAccess

def answers (operation : Operation) (access : Option Access) (c : Card) :
    Except DriveError Outcome → Card → Prop
  | .ok r, d => Authorized operation access c ∧ Target operation c r d
  | .error e, d => (refusesAccess e = true → ¬ Authorized operation access c ∧ d = c) ∧
      (d = c ∨ Authorized operation access c ∧ ∃ r, Target operation c r d)

structure World where
  /-- The serial number that the probe has read. -/
  serial : Option UInt32
  card : Card
  /-- What the keyring holds under `oath:{serial}`. -/
  keyring : UInt32 → Option String

/-- What a request may be answered with, and the world after it. A keyring that
fails may have done its work. -/
def environment : Env Answer World
  | .target, w, r, v => v = w ∧ ∀ serial, r = .ok serial → serial = w.serial
  | .card operation access, w, r, v => ∃ card, answers operation access w.card r card ∧
      v = { w with card := card }
  | .resetApplet _, w, r, v =>
    (v = w ∧ r ≠ .ok ()) ∨ ∃ applet : Applet, applet.code = none ∧
      v = { w with card := ⟨applet, 0⟩ }
  | .getPassword serial, w, r, v => v = w ∧ ∀ text, r = .ok text → w.keyring serial = some text
  | .setPassword serial text, w, r, v =>
    (v = w ∧ r ≠ .ok ()) ∨ v = { w with keyring := Function.update w.keyring serial (some text) }
  | .deleteCredential serial, w, r, v =>
    (v = w ∧ r ≠ .ok ()) ∨ v = { w with keyring := Function.update w.keyring serial none }
  | _, w, _, v => v = w

end OathCard
