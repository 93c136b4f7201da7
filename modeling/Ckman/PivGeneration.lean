import Ckman.InteractionTrace
import Ckman.PivSlots

/-!
# Batch key generation

`generate_keys_with_progress` drives one batch operation of libcanokey and hands
every public key to a callback as soon as the operation lists it. The operation
is an arbitrary state machine here; what is assumed of its progress list is a
predicate on it.
-/
namespace Piv

open Host Interaction

inductive BatchRequest where
  | authenticateManagement (management : ManagementAuthentication)
  | generateKey (parameters : KeyParameters)
  deriving DecidableEq, Repr

inductive BatchItem where
  | authenticated
  | publicKey (key : PublicKey)
  deriving DecidableEq, Repr

/-- A started batch operation: the state that `start` or `advance` led to, with
what `batch_progress` shows there. -/
inductive BatchOperation where
  /-- `start` or `advance` returned this error. -/
  | failed (error : Error)
  | complete (progress : Option (List BatchItem)) (result : Except Error (List BatchItem))
  | exchange (progress : Option (List BatchItem)) (command : Except Error Bytes)
      (advance : Bytes → BatchOperation)

def BatchOperation.progress : BatchOperation → Option (List BatchItem)
  | failed _ => none
  | complete progress _ => progress
  | exchange progress _ _ => progress

/-- The operation as the plain driver sees it. -/
def BatchOperation.erase : BatchOperation → Operation (List BatchItem)
  | failed error => .complete (.error error)
  | complete _ result => .complete result
  | exchange _ (.error error) _ => .complete (.error error)
  | exchange _ (.ok command) advance => .exchange command fun response => (advance response).erase

/-- A raw round trip with the card, or a call of the caller's callback. -/
inductive GenerateRequest where
  | exchange (command : Bytes)
  | progress (done : Nat) (key : PublicKey)
  deriving DecidableEq, Repr

abbrev GenerateAnswer (E C : Type) : GenerateRequest → Type
  | .exchange _ => Except E Bytes
  | .progress _ _ => Except C Unit

inductive GenerateKeysError (E C : Type) where
  /-- Card, transport, or preflight failure. -/
  | operation (error : PivError E)
  /-- The callback failed. -/
  | callback (error : C)
  deriving DecidableEq, Repr

abbrev Generation (E C α : Type) := Fallible (GenerateAnswer E C) (GenerateKeysError E C) α

variable {E C : Type}

/-- `map_err(DriveError::from).map_err(PivError::from)?`. -/
def protocolError (error : Error) : GenerateKeysError E C := .operation (.drive (.protocol error))

/-- `GenerateKeysError::from(PivError::protocol(kind))`. -/
def protocolKind (kind : ErrorKind) : GenerateKeysError E C := .operation (.ofKind kind)

/-- Reject an empty list and a slot that occurred before. -/
def validateGenerationSlots (slots : List Slot) : Except Error Unit :=
  refuse (slots = [] ∨ ¬ slots.Nodup) (.new .invalidArgument)

def reportItems (reported : Nat) : List BatchItem → Generation E C Nat
  | [] => pure reported
  | .publicKey key :: items => do
    attempt (.ask (.progress (reported + 1) key) fun r => .pure (r.mapError .callback))
    reportItems (reported + 1) items
  | .authenticated :: _ => throw (protocolKind .invalidResponse)

/-- The first item is the management authentication. -/
def reportProgress (reported : Nat) : Option (List BatchItem) → Generation E C Nat
  | none => pure reported
  | some items => reportItems reported (items.drop (reported + 1))

def exchangeCommand (command : Except Error Bytes) : Generation E C Bytes := do
  let command ← orThrow (command.mapError protocolError)
  attempt (.ask (.exchange command) fun r =>
    .pure (r.mapError fun e => .operation (.drive (.transport e))))

/-- The `while` loop, and `take_result` after it. -/
def driveBatch (reported : Nat) : BatchOperation → Generation E C (List BatchItem)
  | .failed error => throw (protocolError error)
  | .complete _ result => orThrow (result.mapError protocolError)
  | .exchange _ command advance => do
    let response ← exchangeCommand command
    let reported ← reportProgress reported (advance response).progress
    driveBatch reported (advance response)

def BatchItem.key : BatchItem → Option PublicKey
  | publicKey key => some key
  | authenticated => none

def generatedKeys (total : Nat) (items : List BatchItem) : Except ErrorKind (List PublicKey) :=
  let keys := items.filterMap BatchItem.key
  if keys.length ≠ total then .error .invalidResponse else .ok keys

def generationRequests (slots : List KeyParameters) (management : ManagementAuthentication) :
    List BatchRequest :=
  .authenticateManagement management :: slots.map .generateKey

/-- Generate distinct slot keys, calling the callback with each public key
before any command for the next slot. `batch` is libcanokey's factory with the
operation already started. -/
def generateKeysWithProgress (batch : List BatchRequest → Except Error BatchOperation)
    (slots : List KeyParameters) (management : ManagementAuthentication) :
    Generation E C (List PublicKey) := do
  orThrow ((validateGenerationSlots (slots.map KeyParameters.slot)).mapError protocolError)
  let operation ← orThrow ((batch (generationRequests slots management)).mapError protocolError)
  let items ← driveBatch 0 operation
  orThrow ((generatedKeys slots.length items).mapError protocolKind)

end Piv
