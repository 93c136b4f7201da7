import Ckman.PivRecovery
import Ckman.PinSync

/-!
# The access commands

The commands that change the PIN, the PUK, their retry limits and the
management key, as the command line runs them on a connected card. The
confirmations that they print at the end change nothing and are left out.
-/
namespace PivAccess

open Host Interaction CommandLine PivSession
open Piv (Crates KeyBytes ManagementKeyAlgorithm Pin PivmanData PivError)

/-- `clap::value_parser!(u8).range(1..=15)`. -/
abbrev RetryCount := { n : UInt8 // 1 ≤ n ∧ n ≤ 15 }

structure SetRetries where
  pinRetries : RetryCount
  pukRetries : RetryCount
  managementKey : Option String
  pin : Option String
  force : Bool

structure ChangePin where
  pin : Option String
  newPin : Option String

structure ChangePuk where
  puk : Option String
  newPuk : Option String

structure ChangeManagementKey where
  touch : Bool
  newManagementKey : Option String
  algorithm : Option ManagementKeyAlgorithm
  protect : Bool
  generate : Bool
  recoveryFile : Option Path
  force : Bool
  managementKey : Option String
  pin : Option String

structure UnblockPin where
  puk : Option String
  newPin : Option String

inductive AccessCommand where
  | setRetries (args : SetRetries)
  | changePin (args : ChangePin)
  | changePuk (args : ChangePuk)
  | changeManagementKey (args : ChangeManagementKey)
  | unblockPin (args : UnblockPin)

/-- What a session knows about its card for the recovery file. -/
structure Target where
  serial : Option UInt32
  readerName : String

section Commands

variable (crates : Crates)

def validatePinReset (pivman : PivmanData) : Except CliError Unit :=
  refuse (pivman.hasDerivedKey = true) (.text
    "PIN reset would invalidate the PIN-derived management key; change to an independent or PIN-protected management key first")

def ensurePinResetSafe : Command Unit := do
  let pivman ← sessionRun (Piv.readPivmanData crates)
  orThrow (validatePinReset pivman)

def confirmReset (force : Bool) : Command Unit :=
  if force then pure ()
  else do
    let confirmed ← confirm
      "This sets the retry counters and resets PIN and PUK to the factory defaults (123456 / 12345678). Proceed?"
    orThrow (refuse (confirmed = false) (.text "aborted"))

/-- The PIN that unlocked the management key, or else a resolved one. -/
def pinOf (management : ResolvedManagement) (pin : Option String) (prompt : String) : Command Pin :=
  match management.pin with
  | some pin => pure pin
  | none => resolvePin crates pin prompt

def clearPukBlocked (args : SetRetries) (pivman : PivmanData) : Command Unit :=
  if pivman.pukBlocked then do
    let management ← resolveManagement crates args.managementKey none
    sessionRun (do
      let value ← Piv.unwrap ((pivman.setPukBlocked false).toValue crates.tlv)
      let access ← management.access crates
      Piv.writeObject crates Piv.pivmanObjectId value access)
  else pure ()

def setRetries (args : SetRetries) : Command Unit := do
  ensurePinResetSafe crates
  confirmReset args.force
  let management ← resolveManagement crates args.managementKey args.pin
  let pin ← pinOf crates management args.pin "Enter the current PIN"
  sessionRun (do
    let access ← management.pinAndManagement crates pin
    Piv.setRetries crates args.pinRetries.val args.pukRetries.val access)
  let pivman ← sessionRun (Piv.readPivmanData crates)
  clearPukBlocked crates args pivman

def enterTwice (first second mismatch : String) : Command String := do
  let entered ← promptPassword first
  let repeated ← promptPassword second
  orThrow (refuse (entered ≠ repeated) (.text mismatch))
  pure entered

def newPinText (newPin : Option String) : Command String :=
  match newPin with
  | some pin => pure pin
  | none => enterTwice "Enter new PIN: " "Repeat new PIN: " "the PINs do not match"

def newPukText (newPuk : Option String) : Command String :=
  match newPuk with
  | some puk => pure puk
  | none => enterTwice "Enter new PUK: " "Repeat new PUK: " "the PUKs do not match"

def currentPinText (pin : Option String) : Command String :=
  match pin with
  | some pin => pure pin
  | none => promptPassword "Enter current PIN: "

def changePin (args : ChangePin) : Command Unit := do
  let old ← currentPinText args.pin
  let new ← newPinText args.newPin
  sessionRun (Piv.changePinSynced crates (asBytes old) (asBytes new))

def changePuk (args : ChangePuk) : Command Unit := do
  let old ← resolvePuk crates args.puk
  let text ← newPukText args.newPuk
  let new ← parsePuk crates text
  sessionRun (Piv.changePuk crates old new)

def unblockPin (args : UnblockPin) : Command Unit := do
  ensurePinResetSafe crates
  let puk ← resolvePuk crates args.puk
  let text ← newPinText args.newPin
  let new ← parsePin crates text
  sessionRun (Piv.unblockPin crates puk new)

def parseNewKey (hex : String) : Command KeyBytes :=
  orThrow (okOr ((hexDecode hex).bind fun bytes =>
    if h : bytes.length = 24 then some ⟨bytes, h⟩ else none)
    (.text "management key must be 24 bytes (48 hex characters)"))

def newKeyBytes (args : ChangeManagementKey) : Command KeyBytes :=
  match args.newManagementKey with
  | some hex => parseNewKey hex
  | none =>
    if args.generate || args.protect then PivRecovery.fillRandom 24
    else if args.force then
      throw (.text
        "new management key not given; drop --force or use --generate/--new-management-key")
    else do
      let entered ← enterTwice "Enter the new management key: " "Repeat the new management key: "
        "the management keys do not match"
      parseNewKey entered

def newKeyAlgorithm (args : ChangeManagementKey) : Command ManagementKeyAlgorithm :=
  match args.algorithm with
  | some algorithm => pure algorithm
  | none => managementAlgorithm crates

def protectionPin (args : ChangeManagementKey) (management : ResolvedManagement) :
    Command (Option Pin) :=
  if args.protect then do
    let pin ← pinOf crates management args.pin "Enter PIN"
    pure (some pin)
  else pure management.pin

def changeManagementKey (target : Target) (args : ChangeManagementKey) : Command Unit := do
  orThrow (refuse (args.newManagementKey.isSome = true ∧ args.generate = true)
    (.text "--new-management-key conflicts with --generate"))
  let algorithm ← newKeyAlgorithm crates args
  let bytes ← newKeyBytes args
  -- The key is validated before explicit protection can block PUK retries.
  let _ ← orThrow ((crates.managementKey algorithm bytes.val).mapError
    fun _ => .text "new management key is invalid for the requested algorithm")
  let management ← resolveManagementProtection crates args.managementKey args.pin args.protect
  let pin ← protectionPin crates args management
  PivRecovery.replaceKey crates
    ⟨args.recoveryFile, target.serial, target.readerName, algorithm, bytes, args.protect, args.touch⟩
    management pin

def access (target : Target) : AccessCommand → Command Unit
  | .setRetries args => setRetries crates args
  | .changePin args => changePin crates args
  | .changePuk args => changePuk crates args
  | .changeManagementKey args => changeManagementKey crates target args
  | .unblockPin args => unblockPin crates args

end Commands

end PivAccess
