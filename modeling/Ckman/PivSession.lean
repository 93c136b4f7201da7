import Ckman.CommandLine

/-!
# A PIV session of the command line

The helpers that resolve the credentials of a command: the PIN, the PUK and the
management key, from its arguments, from the pivman records or from a prompt.
-/
namespace PivSession

open Host Interaction CommandLine
open Piv (Crates ManagementKeyAlgorithm ManagementKey ManagementAuthentication MetadataFields Pin Puk
  Access PivmanData PivError)

/-- The resolved management key, and the PIN when it unlocked the key. -/
structure ResolvedManagement where
  key : ManagementKey
  pin : Option Pin

variable (crates : Crates)

namespace ResolvedManagement

/-- A fresh mutual authentication. -/
def access (management : ResolvedManagement) :
    Fallible (Piv.Answer IoError) (PivError IoError) Access := do
  let auth ← Piv.mutualAuth crates management.key
  pure (.management auth)

def pinAndManagement (management : ResolvedManagement) (pin : Pin) :
    Fallible (Piv.Answer IoError) (PivError IoError) Access := do
  let auth ← Piv.mutualAuth crates management.key
  pure (.pinAndManagement pin auth)

variable {crates} {σ : Type} {device : Piv.Device IoError σ} {w u : Piv.World σ}

theorem mutualAuth_world {key : ManagementKey} {auth : ManagementAuthentication}
    (hr : Fallible.Runs (Piv.environment device) (Piv.mutualAuth crates key) w (some (.ok auth)) u) :
    u = w := by
  obtain ⟨challenge, v, hfill, hmutual⟩ := Fallible.bind_ok_iff.mp hr
  obtain ⟨-, rfl⟩ := Fallible.orThrow_iff.mp hmutual
  exact Piv.Runs.fill_world hfill

/-- Preparing the authentication sends nothing to the card. -/
theorem access_world {management : ResolvedManagement} {granted : Access}
    (hr : Fallible.Runs (Piv.environment device) (management.access crates) w (some (.ok granted)) u) :
    u = w := by
  obtain ⟨auth, v, hauth, hpure⟩ := Fallible.bind_ok_iff.mp hr
  obtain ⟨-, rfl⟩ := Fallible.pure_iff.mp hpure
  exact mutualAuth_world hauth

theorem pinAndManagement_world {management : ResolvedManagement} {pin : Pin} {granted : Access}
    (hr : Fallible.Runs (Piv.environment device) (management.pinAndManagement crates pin) w
      (some (.ok granted)) u) : u = w := by
  obtain ⟨auth, v, hauth, hpure⟩ := Fallible.bind_ok_iff.mp hr
  obtain ⟨-, rfl⟩ := Fallible.pure_iff.mp hpure
  exact mutualAuth_world hauth

end ResolvedManagement

/-- The typed "this firmware cannot answer" errors. -/
def isCapabilityGate : PivError IoError → Bool
  | .drive (.protocol error) => error.kind = .unsupportedFeature || error.kind = .capabilityUnknown
  | _ => false

/-- TDES only when the metadata command is missing. -/
def algorithmOf : Except (PivError IoError) MetadataFields → Except CliError ManagementKeyAlgorithm
  | .ok fields =>
    if fields.algorithmId = some 3 then .ok .tdes
    else if fields.algorithmId = some 10 then .ok .aes192
    else .error (.text "unknown management key algorithm on the card")
  | .error error => if isCapabilityGate error then .ok .tdes else .error (.piv error)

def isDefaultOf : Except (PivError IoError) MetadataFields → Except CliError (Option Bool)
  | .ok fields =>
    match fields.isDefault with
    | some (.known value) => .ok (some value)
    | _ => .ok none
  | .error error => if isCapabilityGate error then .ok none else .error (.piv error)

def managementMetadata {α : Type} (read : Except (PivError IoError) MetadataFields → Except CliError α) :
    Command α :=
  Prog.bind (onCard (Piv.metadata crates .management .none)) fun result => .pure (read result)

def managementAlgorithm : Command ManagementKeyAlgorithm := managementMetadata crates algorithmOf

def managementIsDefault : Command (Option Bool) := managementMetadata crates isDefaultOf

def resolvePinString (pin : Option String) (prompt : String) : Command String :=
  match pin with
  | some pin => pure pin
  | none => promptPassword (prompt ++ ": ")

/-- `Pin::from_bytes(..).map_err(|_| "PIN must be 6-8 characters")`. -/
def parsePin (text : String) : Command Pin :=
  orThrow ((crates.pin (asBytes text)).mapError fun _ => .text "PIN must be 6-8 characters")

def parsePuk (text : String) : Command Puk :=
  orThrow ((crates.puk (asBytes text)).mapError fun _ => .text "PUK must be 6-8 characters")

def resolvePin (pin : Option String) (prompt : String) : Command Pin := do
  let text ← resolvePinString pin prompt
  parsePin crates text

def resolvePukString (puk : Option String) : Command String :=
  match puk with
  | some puk => pure puk
  | none => promptPassword "Enter PUK: "

def resolvePuk (puk : Option String) : Command Puk := do
  let text ← resolvePukString puk
  parsePuk crates text

def parseKey (bytes : Bytes) (invalid : String) : Command ManagementKey := do
  let algorithm ← managementAlgorithm crates
  orThrow ((crates.managementKey algorithm bytes).mapError fun _ => .text invalid)

def parseHexKey (hex : String) : Command ManagementKey := do
  let bytes ← orThrow (okOr (hexDecode hex) (.text "management key must be hex-encoded"))
  parseKey crates bytes "management key must be 24 bytes (48 hex characters)"

/-- The stored key of a PIN-protected record. Legacy records without the
blocking policy gain it later, after current-key authentication. -/
def storedKeyBytes (pivman : PivmanData) (pin : Pin) (completeProtection : Bool) : Command Bytes :=
  if completeProtection && !pivman.pukBlocked then do
    let printed ← sessionRun (Piv.readPivmanProtected crates (.pin pin))
    orThrow (okOr (printed.key.map fun key => key.val)
      (.text "PIN-protected management key is missing"))
  else if completeProtection then sessionRun (Piv.completePinManagedKey crates pin)
  else sessionRun (Piv.pinManagedKey crates pin)

def resolveStored (pivman : PivmanData) (pin : Option String) (completeProtection : Bool) :
    Command ResolvedManagement := do
  let pin ← resolvePin crates pin "Enter PIN (to unlock the stored management key)"
  let bytes ← storedKeyBytes crates pivman pin completeProtection
  let key ← parseKey crates bytes "stored management key has an unexpected length"
  pure ⟨key, some pin⟩

def resolveDerived (salt : Bytes) (pin : Option String) : Command ResolvedManagement := do
  let text ← resolvePinString pin "Enter PIN (the management key is derived from it)"
  let key ← orThrow ((crates.managementKey .tdes
    (Piv.deriveManagementKey crates (asBytes text) salt).val).mapError
      fun _ => .text "derived management key is invalid")
  let pin ← parsePin crates text
  pure ⟨key, some pin⟩

/-- The factory default for a blank answer; it is warned about. -/
def enteredKey (entered : String) : Command ManagementKey :=
  if entered = "" then do
    let algorithm ← managementAlgorithm crates
    sessionRun (Piv.defaultManagementKey crates algorithm)
  else do
    let key ← parseHexKey crates entered
    let _ ← managementIsDefault crates
    pure key

def resolvePrompted : Command ResolvedManagement := do
  let entered ← promptPassword "Enter the management key [blank to use default key]: "
  let key ← enteredKey crates entered
  pure ⟨key, none⟩

/-- An explicit key wins; then a PIN-protected stored key; then a PIN-derived
key; otherwise prompt. -/
def resolveManagementProtection (managementKey pin : Option String) (completeProtection : Bool) :
    Command ResolvedManagement :=
  match managementKey with
  | some hex => do
    let key ← parseHexKey crates hex
    pure ⟨key, none⟩
  | none => do
    let pivman ← sessionRun (Piv.readPivmanData crates)
    if pivman.hasStoredKey then resolveStored crates pivman pin completeProtection
    else
      match pivman.salt with
      | some salt => resolveDerived crates salt pin
      | none => resolvePrompted crates

def resolveManagement (managementKey pin : Option String) : Command ResolvedManagement :=
  resolveManagementProtection crates managementKey pin false

end PivSession
