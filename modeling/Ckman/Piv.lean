import Ckman.InteractionLogic
import Ckman.Pivman

/-!
# PIV operations

The wrappers around the PIV operations of libcanokey, the reads that tolerate a
missing record, and the two updates that keep the pivman records in step with
the management key and with the PIN.
-/
namespace Piv

open Host Interaction

variable {E σ : Type}

section Operations

variable (crates : Crates)

def verifyPin (pin : Pin) : Fallible (Answer E) (PivError E) Unit := run (crates.verifyPin pin)

def changePin (old new : Pin) : Fallible (Answer E) (PivError E) Unit :=
  run (crates.changePin old new)

def changePuk (old new : Puk) : Fallible (Answer E) (PivError E) Unit :=
  run (crates.changePuk old new)

def unblockPin (puk : Puk) (newPin : Pin) : Fallible (Answer E) (PivError E) Unit :=
  run (crates.unblockPin puk newPin)

def setRetries (pinRetries pukRetries : UInt8) (access : Access) :
    Fallible (Answer E) (PivError E) Unit :=
  run (crates.resetPinPukRetries pinRetries pukRetries access)

def authenticate (auth : ManagementAuthentication) : Fallible (Answer E) (PivError E) Unit :=
  run (crates.authenticateManagementKey auth)

def setManagementKey (key : ManagementKey) (touch : ManagementTouchPolicy) (access : Access) :
    Fallible (Answer E) (PivError E) Unit :=
  run (crates.setManagementKey key touch access)

def readObject (id : ObjectId) (access : Access) : Fallible (Answer E) (PivError E) Bytes :=
  run (crates.readObject id access)

def writeObject (id : ObjectId) (data : Bytes) (access : Access) :
    Fallible (Answer E) (PivError E) Unit :=
  run (crates.writeObject id data access)

def metadata (reference : MetadataReference) (access : Access) :
    Fallible (Answer E) (PivError E) MetadataFields :=
  run (crates.metadata reference access)

/-- `map_err(DriveError::from)?` on a value of libcanokey. -/
def orDrive {α : Type} (r : Except Error α) : Fallible (Answer E) (PivError E) α :=
  orThrow (r.mapError fun e => .drive (.protocol e))

/-- External management authentication; does not authenticate the card. -/
def externalAuth (key : ManagementKey) : ManagementAuthentication := .external key

/-- Mutual management authentication with a fresh CSPRNG challenge. -/
def mutualAuth (key : ManagementKey) : Fallible (Answer E) (PivError E) ManagementAuthentication := do
  let challenge ← fill (crates.blockLen key.algorithm)
  orThrow ((crates.mutualAuthentication key challenge.val).mapError fun _ => .random (.custom 0))

def defaultManagementKeyBytes : Bytes :=
  [1, 2, 3, 4, 5, 6, 7, 8, 1, 2, 3, 4, 5, 6, 7, 8, 1, 2, 3, 4, 5, 6, 7, 8]

/-- The default management key typed for the card's management algorithm. -/
def defaultManagementKey (algorithm : ManagementKeyAlgorithm) :
    Fallible (Answer E) (PivError E) ManagementKey :=
  unwrap (crates.managementKey algorithm defaultManagementKeyBytes).toOption

/-- The SDK maps eight random bytes to the PIV eight-digit PUK format. -/
def randomPukReplacement : Fallible (Answer E) (PivError E) Bytes := do
  let bytes ← fill 8
  pure bytes.val

def pinManagedKey (pin : Pin) : Fallible (Answer E) (PivError E) Bytes :=
  run (crates.pinManaged none (.pin pin))

/-- Finish PIN protection before recovering the stored key. -/
def completePinManagedKey (pin : Pin) : Fallible (Answer E) (PivError E) Bytes := do
  let replacement ← randomPukReplacement
  run (crates.pinManaged (some replacement) (.pin pin))

/-- Decode what was read, tolerating a missing object as unconfigured. -/
def recordResult {α : Type} (decode : Bytes → Except Error α) (unconfigured : α) :
    Except (PivError E) Bytes → Except (PivError E) α
  | .ok value => (decode value).mapError fun e => .drive (.protocol e)
  | .error (.drive (.protocol error)) =>
    if error.kind = .notFound then .ok unconfigured else .error (.drive (.protocol error))
  | .error error => .error error

def readRecord {α : Type} (read : Fallible (Answer E) (PivError E) Bytes)
    (decode : Bytes → Except Error α) (unconfigured : α) : Fallible (Answer E) (PivError E) α :=
  Prog.bind read fun result => .pure (recordResult decode unconfigured result)

def readPivmanData : Fallible (Answer E) (PivError E) PivmanData :=
  readRecord (readObject crates pivmanObjectId .none) (PivmanData.fromValue crates.tlv) .empty

/-- The caller must supply PIN access. -/
def readPivmanProtected (access : Access) : Fallible (Answer E) (PivError E) PivmanProtectedData :=
  readRecord (readObject crates pivmanProtectedObjectId access)
    (PivmanProtectedData.fromValue crates.tlv) ⟨none⟩

/-- A management-key replacement, keeping pivman metadata in sync. -/
structure ManagementKeyUpdate where
  newKeyBytes : KeyBytes
  algorithm : ManagementKeyAlgorithm
  touch : ManagementTouchPolicy
  /-- Store the key on-device, protected by PIN, and block PUK recovery. -/
  protect : Bool
  /-- PIN, required when `protect` is set or an old stored key is cleared. -/
  pin : Option Pin
  /-- Authentication with the current management key. -/
  access : Access

def managementUpdateError (stage : ManagementKeyUpdateStage) : PivError E → PivError E
  | .drive source => .managementKeyUpdate stage source
  | error => error

/-- The PUK replacement is drawn before any command, only to protect. -/
def replacementPuk (protect : Bool) : Fallible (Answer E) (PivError E) (Option Bytes) :=
  if protect then do
    let replacement ← randomPukReplacement
    pure (some replacement)
  else pure none

/-- Ensure protected-data access before committing the key replacement. -/
def readProtectedForUpdate (update : ManagementKeyUpdate) (pivman : PivmanData) :
    Fallible (Answer E) (PivError E) (Option PivmanProtectedData) :=
  if update.protect || pivman.hasStoredKey then do
    let pin ← orThrow (okOr update.pin (PivError.ofKind .securityStatusNotSatisfied))
    let printed ← readPivmanProtected crates (.pin pin)
    pure (some printed)
  else pure none

/-- The metadata after the update: no salt, and the flags as requested. -/
def updatedData (pivman : PivmanData) (protect : Bool) : PivmanData :=
  let updated := if pivman.hasDerivedKey then { pivman with salt := none } else pivman
  let updated := updated.setStoredKey protect
  if protect then updated.setPukBlocked true else updated

def protectedToWrite (update : ManagementKeyUpdate) :
    Option PivmanProtectedData → Option PivmanProtectedData
  | none => none
  | some printed =>
    if update.protect then some ⟨some update.newKeyBytes⟩
    else if printed.key.isSome then some ⟨none⟩
    else none

def storeProtectedKey (update : ManagementKeyUpdate) (newKey : ManagementKey)
    (printed : PivmanProtectedData) : Fallible (Answer E) (PivError E) Unit := do
  let pin ← unwrap update.pin
  let value ← unwrap (printed.toValue crates.tlv)
  writeObject crates pivmanProtectedObjectId value (.pinAndManagement pin (externalAuth newKey))

def updateMetadata (newKey : ManagementKey) (value : Bytes) :
    Fallible (Answer E) (PivError E) Unit :=
  writeObject crates pivmanObjectId value (.management (externalAuth newKey))

def protectPuk (update : ManagementKeyUpdate) (replacement : Bytes) :
    Fallible (Answer E) (PivError E) Unit := do
  let pin ← unwrap update.pin
  let _ ← run (crates.pinManaged (some replacement) (.pin pin))
  pure ()

/-- One stage of the update: its drive failures carry the stage. -/
def atStage {α : Type} (stage : ManagementKeyUpdateStage)
    (operation : Fallible (Answer E) (PivError E) α) : Fallible (Answer E) (PivError E) α :=
  mapError (managementUpdateError stage) operation

def whenSome {α : Type} (value : Option α) (body : α → Fallible (Answer E) (PivError E) Unit) :
    Fallible (Answer E) (PivError E) Unit :=
  match value with
  | some a => body a
  | none => pure ()

/-- The part of the update that precedes the replacement. -/
structure Prepared where
  newKey : ManagementKey
  replacement : Option Bytes
  pivman : PivmanData
  printed : Option PivmanProtectedData
  oldValue : Bytes

def prepare (update : ManagementKeyUpdate) : Fallible (Answer E) (PivError E) Prepared := do
  let newKey ← orDrive (crates.managementKey update.algorithm update.newKeyBytes.val)
  let replacement ← replacementPuk update.protect
  let pivman ← readPivmanData crates
  let printed ← readProtectedForUpdate crates update pivman
  let oldValue ← unwrap (pivman.toValue crates.tlv)
  pure ⟨newKey, replacement, pivman, printed, oldValue⟩

/-- Replace the management key while keeping pivman metadata in sync. The
protected copy is stored before its flag is published. -/
def setManagementKeySynced (update : ManagementKeyUpdate) : Fallible (Answer E) (PivError E) Unit := do
  let ⟨newKey, replacement, pivman, printed, oldValue⟩ ← prepare crates update
  atStage .replaceKey (setManagementKey crates newKey update.touch update.access)
  let updated := updatedData pivman update.protect
  whenSome (protectedToWrite update printed) fun printed =>
    atStage .storeProtectedKey (storeProtectedKey crates update newKey printed)
  let value ← unwrap (updated.toValue crates.tlv)
  whenSome (if value ≠ oldValue then some value else none) fun value =>
    atStage .updateMetadata (updateMetadata crates newKey value)
  whenSome replacement fun replacement =>
    atStage .protectPuk (protectPuk crates update replacement)

/-- The part of a PIN change that keeps a PIN-derived key working: re-derive
with a fresh salt and rotate the management key. -/
def changePinDerived (pivman : PivmanData) (salt oldPin newPin : Bytes) (old new : Pin) :
    Fallible (Answer E) (PivError E) Unit := do
  let oldKey ← orDrive (crates.managementKey .tdes (deriveManagementKey crates oldPin salt).val)
  -- Authenticate and prepare randomness before committing any mutation.
  authenticate crates (externalAuth oldKey)
  let newSalt ← fill 16
  let newKey ← orDrive (crates.managementKey .tdes (deriveManagementKey crates newPin newSalt.val).val)
  changePin crates old new
  verifyPin crates new
  setManagementKey crates newKey .never (.management (externalAuth oldKey))
  let value ← unwrap (PivmanData.toValue crates.tlv { pivman with salt := some newSalt.val })
  writeObject crates pivmanObjectId value (.management (externalAuth newKey))

/-- Change the PIN while keeping a PIN-derived management key working. -/
def changePinSynced (oldPin newPin : Bytes) : Fallible (Answer E) (PivError E) Unit := do
  let old ← orDrive (crates.pin oldPin)
  let new ← orDrive (crates.pin newPin)
  let pivman ← readPivmanData crates
  match pivman.salt with
  | none => changePin crates old new
  | some salt => changePinDerived crates pivman salt oldPin newPin old new

end Operations

/-- A record as the code reads it from a card. -/
def recordOf {α : Type} (decode : Bytes → Except Error α) (unconfigured : α) :
    Option Bytes → Except Error α
  | none => .ok unconfigured
  | some value => decode value

def adminData (crates : Crates) (card : Card) : Except Error PivmanData :=
  recordOf (PivmanData.fromValue crates.tlv) .empty (card.objects pivmanObjectId)

def protectedData (crates : Crates) (card : Card) : Except Error PivmanProtectedData :=
  recordOf (PivmanProtectedData.fromValue crates.tlv) ⟨none⟩ (card.objects pivmanProtectedObjectId)

theorem printed_ne_admin : pivmanProtectedObjectId ≠ pivmanObjectId := by decide

section Documented

variable {crates : Crates} {device : Device E σ} {view : σ → Card} {w u : World σ}

theorem orDrive_iff {α : Type} {r : Except Error α} {o : Option (Except (PivError E) α)} :
    Fallible.Runs (environment device) (orDrive r) w o u ↔
      o = some (r.mapError fun e => .drive (.protocol e)) ∧ u = w := Fallible.orThrow_iff

theorem orDrive_ok_iff {α : Type} {r : Except Error α} {a : α} :
    Fallible.Runs (environment device) (orDrive r) w (some (.ok a)) u ↔ r = .ok a ∧ u = w := by
  refine orDrive_iff.trans (and_congr_left fun _ => ?_)
  cases r <;> simp [Except.mapError, eq_comm]

/-- What is written to ADMIN DATA is what is read from it. -/
theorem adminData_putData (h : crates.tlv.Documented) {data : PivmanData} {value : Bytes}
    (hv : data.toValue crates.tlv = some value) (card : Card) :
    adminData crates (card.apply (.putData pivmanObjectId value)) = .ok data := by
  have hread := PivmanData.fromValue_toValue h hv
  rw [adminData, Card.apply_putData_objects_self]
  by_cases hnil : value = []
  · rw [if_pos hnil, recordOf]
    rw [hnil, PivmanData.fromValue, if_pos rfl] at hread
    exact hread
  · rw [if_neg hnil, recordOf]
    exact hread

/-- What is written to PRINTED is what is read from it. -/
theorem protectedData_putData (h : crates.tlv.Documented) {data : PivmanProtectedData}
    {value : Bytes} (hv : data.toValue crates.tlv = some value) (card : Card) :
    protectedData crates (card.apply (.putData pivmanProtectedObjectId value)) = .ok data := by
  have hread := PivmanProtectedData.fromValue_toValue h hv
  rw [protectedData, Card.apply_putData_objects_self]
  by_cases hnil : value = []
  · rw [if_pos hnil, recordOf]
    rw [hnil, PivmanProtectedData.fromValue, if_pos rfl] at hread
    exact hread
  · rw [if_neg hnil, recordOf]
    exact hread

/-- Commands that leave the card alone and neither replace the key nor write
an object. -/
structure Inspects (view : σ → Card) (w u : World σ) : Prop where
  card : view u.card = view w.card
  log : ∃ sent, u.log = w.log ++ sent ∧ ∀ command ∈ sent, Harmless command

theorem Inspects.refl (view : σ → Card) (w : World σ) : Inspects view w w :=
  ⟨rfl, [], by simp, by simp⟩

theorem Inspects.trans {v : World σ} (h₁ : Inspects view w v) (h₂ : Inspects view v u) :
    Inspects view w u := by
  obtain ⟨c₁, s₁, l₁, a₁⟩ := h₁
  obtain ⟨c₂, s₂, l₂, a₂⟩ := h₂
  refine ⟨c₂.trans c₁, s₁ ++ s₂, by rw [l₂, l₁, List.append_assoc], ?_⟩
  intro c hc
  rcases List.mem_append.mp hc with hc | hc
  · exact a₁ c hc
  · exact a₂ c hc

theorem recordResult_ok {α : Type} {decode : Bytes → Except Error α} {unconfigured a : α}
    {r : Except (PivError E) Bytes} (h : recordResult decode unconfigured r = .ok a) :
    (∃ value, r = .ok value ∧ decode value = .ok a) ∨
      ∃ e, r = .error (.drive (.protocol e)) ∧ e.kind = .notFound ∧ a = unconfigured := by
  cases r with
  | ok value =>
    refine .inl ⟨value, rfl, ?_⟩
    cases hd : decode value with
    | error e => simp [recordResult, hd, Except.mapError] at h
    | ok b => simpa [recordResult, hd, Except.mapError] using h
  | error error =>
    unfold recordResult at h
    split at h
    · contradiction
    · next e heq =>
      cases heq
      by_cases hk : e.kind = .notFound
      · rw [if_pos hk] at h
        cases h
        exact .inr ⟨e, rfl, hk, rfl⟩
      · rw [if_neg hk] at h
        cases h
    · cases h

theorem recordResult_error {α : Type} {decode : Bytes → Except Error α} {unconfigured : α}
    {r : Except (PivError E) Bytes} {e : PivError E}
    (hr : ∀ e', r = .error e' → ∃ source, e' = .drive source)
    (h : recordResult decode unconfigured r = .error e) : ∃ source, e = .drive source := by
  cases r with
  | ok value =>
    cases hd : decode value with
    | error e' =>
      simp only [recordResult, hd, Except.mapError, Except.error.injEq] at h
      exact ⟨_, h.symm⟩
    | ok b => simp [recordResult, hd, Except.mapError] at h
  | error error =>
    obtain ⟨source, rfl⟩ := hr error rfl
    cases source with
    | transport t =>
      simp only [recordResult, Except.error.injEq] at h
      exact ⟨_, h.symm⟩
    | protocol p =>
      by_cases hk : p.kind = .notFound
      · simp [recordResult, hk] at h
      · simp only [recordResult, hk, if_false, Except.error.injEq] at h
        exact ⟨_, h.symm⟩

/-- A failure that the replacement of the key cannot have caused. -/
def PivError.Unreplaced (e : PivError E) : Prop :=
  ∀ stage source, e ≠ .managementKeyUpdate stage source

theorem PivError.unreplaced_drive (source : DriveError E) :
    (PivError.drive source).Unreplaced := by
  intro stage source' h
  cases h

theorem readObject_inspects (h : Documented crates device view) {id : ObjectId} {access : Access}
    {o : Option (Except (PivError E) Bytes)}
    (hr : Fallible.Runs (environment device) (readObject crates id access) w o u) :
    Inspects view w u := by
  rcases Runs.run_iff.mp hr with ⟨e, -, -, rfl⟩ | ⟨op, o', hop, -, hx⟩
  · exact .refl view u
  · exact ⟨(h.readObject id access op hop w o' u hx).1,
      Runs.execute_log (h.readObject_only id access op hop) hx⟩

/-- An object that was read is there, and `NotFound` means that it is not. -/
theorem readObject_value (h : Documented crates device view) {id : ObjectId} {access : Access}
    {r : Except (PivError E) Bytes}
    (hr : Fallible.Runs (environment device) (readObject crates id access) w (some r) u) :
    (∀ value, r = .ok value → (view w.card).objects id = some value) ∧
      ∀ e, r = .error (.drive (.protocol e)) → e.kind = .notFound →
        (view w.card).objects id = none := by
  rcases (h.readObject id access).run hr with ⟨e, he, -, hfactory⟩ | ⟨o', ho', -, hvalue, hmissing⟩
  · cases he
    refine ⟨by simp, ?_⟩
    intro e' he' hk
    cases he'
    exact absurd hk (h.readObject_refused id access e hfactory)
  · rcases o' with _ | ⟨source | value⟩ <;> cases ho'
    · refine ⟨by simp [Except.mapError], ?_⟩
      intro e he hk
      cases he
      exact hmissing e rfl hk
    · refine ⟨?_, by simp [Except.mapError]⟩
      intro value' he
      cases he
      exact hvalue value rfl

/-- Reading a record inspects the card and returns the record that is there. -/
theorem readRecord_holds (h : Documented crates device view) {α : Type} {id : ObjectId}
    {access : Access} {decode : Bytes → Except Error α} {unconfigured : α} (w₀ : World σ) :
    Fallible.Holds (environment device) (Inspects view w₀)
      (readRecord (readObject crates id access) decode unconfigured) PivError.Unreplaced
      (fun a => recordOf decode unconfigured ((view w₀.card).objects id) = .ok a) := by
  refine Fallible.Holds.of_runs ?_
  intro w o u hw hr
  rcases Run.bind_iff.mp hr with ⟨rfl, hread⟩ | ⟨r, v, hread, hrest⟩
  · exact ⟨hw.trans (readObject_inspects h hread), by simp, by simp⟩
  obtain ⟨rfl, rfl⟩ := Run.pure_iff.mp hrest
  obtain ⟨hvalue, hmissing⟩ := readObject_value h hread
  refine ⟨hw.trans (readObject_inspects h hread), ?_, ?_⟩
  · intro e he
    obtain ⟨source, rfl⟩ :=
      recordResult_error (fun e' hr' => Runs.run_error (hr' ▸ hread)) (Option.some.inj he)
    exact PivError.unreplaced_drive source
  · intro a ha
    rw [← hw.card]
    rcases recordResult_ok (Option.some.inj ha) with ⟨value, hok, hd⟩ | ⟨e, herror, hk, rfl⟩
    · rw [hvalue value hok, recordOf]
      exact hd
    · rw [hmissing e herror hk, recordOf]

end Documented

end Piv
