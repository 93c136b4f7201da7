import Ckman.Canokey
import Ckman.CommandLine
import Ckman.Retry

/-!
# Errors of libcanokey at the command line

The commands look at the kind of a libcanokey error, at the secret it refers to
and at the phase it stems from: to describe it, and to tell whether the card has
asked for the Admin PIN.
-/
namespace Drive

open Host Interaction
open CommandLine (CliError)
open Piv (Error)

abbrev DriveError := Piv.DriveError IoError

/-- `Error::new(ErrorKind::InvalidResponse).at(Phase::Parsing)`. -/
def DriveError.unexpected : DriveError := .protocol ((Error.new .invalidResponse).at .parsing)

/-- `describe_drive_error`; `display` is how libcanokey displays an error. -/
def describeDriveError (display : Error → String) : DriveError → String
  | .transport error => "transport exchange failed: " ++ error.message
  | .protocol error =>
    match error.kind with
    | .capabilityUnknown => "unrecognized firmware; refusing to attempt the operation"
    | .unsupportedFeature => "this firmware does not support the operation"
    | .authenticationFailed =>
      match error.retriesRemaining with
      | some retries => "incorrect PIN (" ++ toString retries.toNat ++ " attempts remaining)"
      | none => "incorrect PIN"
    | .pinBlocked =>
      match error.reference with
      | some .adminPin => "the Admin PIN is blocked"
      | _ => "the PIN is blocked"
    | .securityStatusNotSatisfied => "the operation requires authentication"
    | .unsupportedDevice => "the applet is disabled or absent on this device"
    | _ => "protocol error: " ++ display error

def needsAdminPin : DriveError → Bool
  | .transport _ => false
  | .protocol error => error.kind = .securityStatusNotSatisfied ∨
      (error.kind = .authenticationFailed ∧ error.reference = some .adminPin)

variable {Q : Type} {A : Q → Type} {Pin α : Type}

/-- `with_admin_pin_retry`. An explicit PIN is used directly; otherwise the
operation is tried without one first. -/
def withAdminPinRetry (display : Error → String) (promptAdminPin : Fallible A CliError Pin)
    (pin : Option Pin) (operation : Option Pin → Fallible A DriveError α) : Fallible A CliError α :=
  let describe error := .text (describeDriveError display error)
  match pin with
  | some pin => mapError describe (operation (some pin))
  | none => retryWith needsAdminPin describe promptAdminPin operation

end Drive
