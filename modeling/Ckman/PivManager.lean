import Ckman.PivAccess

/-!
# The PIN manager over whole sessions

The pivman records are in step with the card when a stored-key flag comes with
the active key in PRINTED and a PUK that really is blocked, and a stored salt
with a key that is derived from the current PIN. The successful access commands
keep this, apart from two that may be run on a card whose records do not suit
them: `set-retries` on a stored key, and `change-pin` with a stored key and a
salt.
-/
namespace PivManager

open Host Interaction CommandLine PivSession PivAccess
open Piv (Crates Card Device Documented PivmanData PivError adminData protectedData derivedKey)

/-- The relation between the pivman records and the live card. -/
structure InStep (crates : Crates) (card : Card) : Prop where
  stored : ∀ data, adminData crates card = .ok data → data.hasStoredKey = true →
    (∃ key, protectedData crates card = .ok ⟨some key⟩ ∧ key.val = card.managementKey.bytes) ∧
      data.pukBlocked = true ∧ card.pukRetries = 0
  derived : ∀ data salt, adminData crates card = .ok data → data.salt = some salt →
    card.managementKey = derivedKey crates card.pin salt

/-- The records suit a command: `set-retries` needs a clear stored-key flag,
and `change-pin` that a stored key and a salt do not meet. -/
def Suits (crates : Crates) (card : Card) : AccessCommand → Prop
  | .setRetries _ => ∀ data, adminData crates card = .ok data → data.hasStoredKey = false
  | .changePin _ => ∀ data, adminData crates card = .ok data →
    data.hasStoredKey = true → data.salt = none
  | _ => True

section Runs

variable {σ : Type} {crates : Crates} {device : Device IoError σ} {view : σ → Card}
  {w u : World σ} {α β : Type}

/-- The program leaves the card alone, however it ends. -/
def Still (device : Device IoError σ) (view : σ → Card) (p : Command α) : Prop :=
  ∀ w o u, Fallible.Runs (environment device) p w o u → view u.piv.card = view w.piv.card

theorem Still.pure (a : α) : Still device view (Pure.pure a) := by
  intro w o u hr
  obtain ⟨-, rfl⟩ := Fallible.pure_iff.mp hr
  rfl

theorem Still.throw (e : CliError) : Still device view (MonadExcept.throw e : Command α) := by
  intro w o u hr
  obtain ⟨-, rfl⟩ := Fallible.throw_iff.mp hr
  rfl

theorem Still.orThrow (r : Except CliError α) : Still device view (Interaction.orThrow r) := by
  intro w o u hr
  obtain ⟨-, rfl⟩ := Fallible.orThrow_iff.mp hr
  rfl

theorem Still.bind {p : Command α} {f : α → Command β} (hp : Still device view p)
    (hf : ∀ a, Still device view (f a)) : Still device view (p >>= f) := by
  intro w o u hr
  rcases Fallible.bind_iff.mp hr with ⟨-, hx⟩ | ⟨e, -, hx⟩ | ⟨a, v, hx, hrest⟩
  · exact hp w _ u hx
  · exact hp w _ u hx
  · exact (hf a v o u hrest).trans (hp w _ v hx)

theorem Still.promptPassword (prompt : String) :
    Still device view (CommandLine.promptPassword prompt) := by
  intro w o u hr
  obtain ⟨o', -, hx⟩ := Fallible.mapError_iff.mp hr
  rcases Run.ask_iff.mp hx with ⟨-, rfl⟩ | ⟨r, v, ⟨hpiv, -⟩, hrest⟩
  · rfl
  · obtain ⟨-, rfl⟩ := Run.pure_iff.mp hrest
    rw [hpiv]

theorem Still.confirm (prompt : String) : Still device view (CommandLine.confirm prompt) := by
  intro w o u hr
  obtain ⟨o', -, hx⟩ := Fallible.mapError_iff.mp hr
  rcases Run.ask_iff.mp hx with ⟨-, rfl⟩ | ⟨r, v, ⟨hpiv, -⟩, hrest⟩
  · rfl
  · obtain ⟨-, rfl⟩ := Run.pure_iff.mp hrest
    rw [hpiv]

def StillOnCard {ε : Type} (device : Device IoError σ) (view : σ → Card)
    (p : Fallible (Piv.Answer IoError) ε α) : Prop :=
  ∀ w o u, Fallible.Runs (Piv.environment device) p w o u → view u.card = view w.card

theorem StillOnCard.sessionRun {p : Fallible (Piv.Answer IoError) (PivError IoError) α}
    (hp : StillOnCard device view p) : Still device view (CommandLine.sessionRun p) := by
  intro w o u hr
  obtain ⟨o', -, hx⟩ := Fallible.mapError_iff.mp hr
  exact hp _ _ _ (onCard_runs hx).1

theorem stillOnCard_run {T : Type} {operation : Except Piv.Error (Piv.Operation T)}
    (h : Piv.Acts device view operation Piv.Keeps) :
    StillOnCard device view (Piv.run operation) := by
  intro w o u hr
  rcases h.run hr with ⟨e, -, rfl, -⟩ | ⟨o', -, hcard⟩
  · rfl
  · exact hcard

theorem readPivmanData_still (h : Documented crates device view) :
    StillOnCard device view (Piv.readPivmanData crates) := by
  intro w o u hr
  exact (Piv.readPivmanData_holds h (view w.card) w o u rfl hr).1

theorem readPivmanData_ok (h : Documented crates device view) {data : PivmanData}
    (hr : Fallible.Runs (environment device) (sessionRun (Piv.readPivmanData crates)) w
      (some (.ok data)) u) :
    adminData crates (view w.piv.card) = .ok data ∧ view u.piv.card = view w.piv.card := by
  obtain ⟨hcard, -, hdata⟩ := Piv.readPivmanData_holds h (view w.piv.card) w.piv _ u.piv rfl
    (sessionRun_ok hr)
  exact ⟨(hdata data rfl).2, hcard⟩

theorem managementMetadata_still (h : Documented crates device view)
    (read : Except (PivError IoError) Piv.MetadataFields → Except CliError α) :
    Still device view (managementMetadata crates read) := by
  have hmetadata := stillOnCard_run (h.metadata .management .none)
  intro w o u hr
  rcases Run.bind_iff.mp hr with ⟨-, hx⟩ | ⟨result, v, hx, hrest⟩
  · exact hmetadata _ _ _ (onCard_runs hx).1
  · obtain ⟨-, rfl⟩ := Run.pure_iff.mp hrest
    exact hmetadata _ _ _ (onCard_runs hx).1

theorem resolvePinString_still (pin : Option String) (prompt : String) :
    Still device view (resolvePinString pin prompt) := by
  cases pin with
  | some pin => exact .pure pin
  | none => exact .promptPassword _

theorem resolvePin_still (pin : Option String) (prompt : String) :
    Still device view (resolvePin crates pin prompt) :=
  .bind (resolvePinString_still pin prompt) fun _ => .orThrow _

theorem resolvePuk_still (puk : Option String) : Still device view (resolvePuk crates puk) := by
  refine .bind ?_ fun _ => .orThrow _
  cases puk with
  | some puk => exact .pure puk
  | none => exact .promptPassword _

theorem parseKey_still (h : Documented crates device view) (bytes : Bytes) (invalid : String) :
    Still device view (parseKey crates bytes invalid) :=
  .bind (managementMetadata_still h _) fun _ => .orThrow _

theorem parseHexKey_still (h : Documented crates device view) (hex : String) :
    Still device view (parseHexKey crates hex) :=
  .bind (.orThrow _) fun _ => parseKey_still h _ _

/-- Without the completion of a protection, a stored key is only read. -/
theorem resolveStored_still (h : Documented crates device view) (pivman : PivmanData)
    (pin : Option String) : Still device view (resolveStored crates pivman pin false) := by
  refine .bind (resolvePin_still pin _) fun pin => .bind ?_ fun _ =>
    .bind (parseKey_still h _ _) fun _ => .pure _
  exact StillOnCard.sessionRun (stillOnCard_run (h.pinManaged_none _))

theorem resolveDerived_still (salt : Bytes) (pin : Option String) :
    Still device view (resolveDerived crates salt pin) :=
  .bind (resolvePinString_still pin _) fun _ => .bind (.orThrow _) fun _ =>
    .bind (.orThrow _) fun _ => .pure _

theorem enteredKey_still (h : Documented crates device view) (entered : String) :
    Still device view (enteredKey crates entered) := by
  rw [enteredKey]
  by_cases hblank : entered = ""
  · rw [if_pos hblank]
    refine .bind (managementMetadata_still h _) fun algorithm => StillOnCard.sessionRun ?_
    intro w o u hr
    obtain ⟨rfl, -⟩ := Piv.Runs.unwrap_iff.mp hr
    rfl
  · rw [if_neg hblank]
    exact .bind (parseHexKey_still h _) fun _ => .bind (managementMetadata_still h _) fun _ => .pure _

/-- Resolving the management key leaves the card alone. -/
theorem resolveManagement_still (h : Documented crates device view)
    (managementKey pin : Option String) :
    Still device view (resolveManagement crates managementKey pin) := by
  cases managementKey with
  | some hex => exact .bind (parseHexKey_still h hex) fun _ => .pure _
  | none =>
    refine .bind (StillOnCard.sessionRun (readPivmanData_still h)) fun pivman => ?_
    by_cases hstored : pivman.hasStoredKey = true
    · rw [if_pos hstored]
      exact resolveStored_still h pivman pin
    · rw [if_neg hstored]
      cases pivman.salt with
      | some salt => exact resolveDerived_still salt pin
      | none => exact .bind (.promptPassword _) fun _ => .bind (enteredKey_still h _) fun _ => .pure _

theorem pinOf_still (management : ResolvedManagement) (pin : Option String) (prompt : String) :
    Still device view (pinOf crates management pin prompt) := by
  rw [pinOf]
  cases management.pin with
  | some pin => exact .pure pin
  | none => exact resolvePin_still pin prompt

theorem enterTwice_still (first second mismatch : String) :
    Still device view (enterTwice first second mismatch) :=
  .bind (.promptPassword _) fun _ => .bind (.promptPassword _) fun _ =>
    .bind (.orThrow _) fun _ => .pure _

theorem confirmReset_still (force : Bool) : Still device view (confirmReset force) := by
  cases force with
  | true => exact .pure ()
  | false => exact .bind (.confirm _) fun _ => .orThrow _

/-- A reset of the PIN is refused while a salt is stored. -/
theorem ensurePinResetSafe_ok (h : Documented crates device view)
    (hr : Fallible.Runs (environment device) (ensurePinResetSafe crates) w (some (.ok ())) u) :
    view u.piv.card = view w.piv.card ∧
      ∃ data, adminData crates (view w.piv.card) = .ok data ∧ data.salt = none := by
  obtain ⟨data, v, hread, hvalidate⟩ := Fallible.bind_ok_iff.mp hr
  obtain ⟨hdata, hcard⟩ := readPivmanData_ok h hread
  obtain ⟨hok, rfl⟩ := Fallible.orThrow_iff.mp hvalidate
  have hsafe : ¬ data.hasDerivedKey = true := refuse_eq_ok_iff.mp (Option.some.inj hok).symm
  refine ⟨hcard, data, hdata, ?_⟩
  simpa [PivmanData.hasDerivedKey] using hsafe

variable {target : Target}

/-- Clearing the PUK-blocked claim keeps the salt and the stored-key flag. -/
theorem clearPukBlocked_ok (h : Documented crates device view) {args : SetRetries} {data : PivmanData}
    (hdata : adminData crates (view w.piv.card) = .ok data)
    (hr : Fallible.Runs (environment device) (clearPukBlocked crates args data) w (some (.ok ())) u) :
    ∃ after, adminData crates (view u.piv.card) = .ok after ∧ after.salt = data.salt ∧
      after.hasStoredKey = data.hasStoredKey ∧ after.pukBlocked = false := by
  rw [clearPukBlocked] at hr
  by_cases hblocked : data.pukBlocked = true
  · rw [if_pos hblocked] at hr
    obtain ⟨management, v, hmanagement, hsession⟩ := Fallible.bind_ok_iff.mp hr
    obtain ⟨value, v₁, hvalue, h₁⟩ := Fallible.bind_ok_iff.mp (sessionRun_ok hsession)
    obtain ⟨rfl, hencoded⟩ := Piv.Runs.unwrap_ok_iff.mp hvalue
    obtain ⟨granted, v₂, hgranted, hwrite⟩ := Fallible.bind_ok_iff.mp h₁
    obtain rfl := ResolvedManagement.access_world hgranted
    have hput := (Piv.run_ok (h.writeObject _ _ _) hwrite).ok
    obtain ⟨hcleared, hstored, -⟩ := data.setPukBlocked_bits false
    rw [hput]
    exact ⟨_, Piv.adminData_putData h.tlv hencoded _, data.setFlag_salt 1 false, hstored, hcleared⟩
  · rw [if_neg hblocked] at hr
    obtain ⟨-, rfl⟩ := Fallible.pure_iff.mp hr
    exact ⟨data, hdata, rfl, rfl, by simpa using hblocked⟩

/-- Without a stored key and without a salt there is nothing to be in step with. -/
theorem inStep_of_plain {card : Card} {data : PivmanData} (hdata : adminData crates card = .ok data)
    (hstored : data.hasStoredKey = false) (hsalt : data.salt = none) : InStep crates card := by
  constructor
  · intro data' hdata' hstored'
    rw [hdata] at hdata'
    cases hdata'
    rw [hstored] at hstored'
    cases hstored'
  · intro data' salt hdata' hsalt'
    rw [hdata] at hdata'
    cases hdata'
    rw [hsalt] at hsalt'
    cases hsalt'

/-- `set-retries` found no salt; it keeps the stored-key flag and clears the
PUK-blocked claim, as the PUK is live again. -/
theorem setRetries_ok (h : Documented crates device view) {args : SetRetries}
    (hr : Fallible.Runs (environment device) (PivAccess.setRetries crates args) w (some (.ok ())) u) :
    ∃ data after, adminData crates (view w.piv.card) = .ok data ∧ data.salt = none ∧
      adminData crates (view u.piv.card) = .ok after ∧ after.salt = none ∧
      after.hasStoredKey = data.hasStoredKey ∧ after.pukBlocked = false := by
  obtain ⟨⟨⟩, v₁, hsafe, h₁⟩ := Fallible.bind_ok_iff.mp hr
  obtain ⟨hcard₁, data, hdata, hsalt⟩ := ensurePinResetSafe_ok h hsafe
  obtain ⟨⟨⟩, v₂, hconfirm, h₂⟩ := Fallible.bind_ok_iff.mp h₁
  have hcard₂ := (confirmReset_still args.force _ _ _ hconfirm).trans hcard₁
  obtain ⟨management, v₃, hmanagement, h₃⟩ := Fallible.bind_ok_iff.mp h₂
  have hcard₃ := (resolveManagement_still h _ _ _ _ _ hmanagement).trans hcard₂
  obtain ⟨pin, v₄, hpin, h₄⟩ := Fallible.bind_ok_iff.mp h₃
  have hcard₄ := (pinOf_still _ _ _ _ _ _ hpin).trans hcard₃
  obtain ⟨⟨⟩, v₅, hset, h₅⟩ := Fallible.bind_ok_iff.mp h₄
  obtain ⟨granted, x, hgranted, hset'⟩ := Fallible.bind_ok_iff.mp (sessionRun_ok hset)
  obtain rfl := ResolvedManagement.pinAndManagement_world hgranted
  have hcard₅ := Piv.run_ok (h.resetPinPukRetries _ _ _) hset' () rfl
  obtain ⟨found, v₆, hread, h₆⟩ := Fallible.bind_ok_iff.mp h₅
  obtain ⟨hfound, hcard₆⟩ := readPivmanData_ok h hread
  -- The reset leaves the objects alone, so the same record is read again.
  have hsame : adminData crates (view v₅.piv.card) = .ok data := by
    rw [hcard₅, hcard₄]
    exact hdata
  rw [hsame] at hfound
  cases hfound
  rw [← hcard₆] at hsame
  obtain ⟨after, hafter, hsalt', hstored, hblocked⟩ := clearPukBlocked_ok h hsame h₆
  exact ⟨data, after, hdata, hsalt, hafter, hsalt'.trans hsalt, hstored, hblocked⟩

theorem setRetries_inStep (h : Documented crates device view) {args : SetRetries}
    (hsuits : Suits crates (view w.piv.card) (.setRetries args))
    (hr : Fallible.Runs (environment device) (PivAccess.setRetries crates args) w (some (.ok ())) u) :
    InStep crates (view u.piv.card) := by
  obtain ⟨data, after, hdata, -, hafter, hsalt, hstored, -⟩ := setRetries_ok h hr
  exact inStep_of_plain hafter (hstored.trans (hsuits data hdata)) hsalt

/-- A stored key whose PUK is not claimed to be blocked is out of step. -/
theorem not_inStep {card : Card} {data : PivmanData} (hdata : adminData crates card = .ok data)
    (hstored : data.hasStoredKey = true) (hblocked : data.pukBlocked = false) :
    ¬ InStep crates card := by
  intro hstep
  obtain ⟨-, hclaimed, -⟩ := hstep.stored data hdata hstored
  rw [hblocked] at hclaimed
  cases hclaimed

/-- On a stored key, `set-retries` makes the PUK live and keeps the flag. -/
theorem setRetries_breaks (h : Documented crates device view) {args : SetRetries} {data : PivmanData}
    (hdata : adminData crates (view w.piv.card) = .ok data) (hstored : data.hasStoredKey = true)
    (hr : Fallible.Runs (environment device) (PivAccess.setRetries crates args) w (some (.ok ())) u) :
    ¬ InStep crates (view u.piv.card) := by
  obtain ⟨found, after, hfound, -, hafter, -, hkept, hblocked⟩ := setRetries_ok h hr
  rw [hdata] at hfound
  cases hfound
  exact not_inStep hafter (hkept.trans hstored) hblocked

/-- A PUK that could be presented is not the PUK of a protected key. -/
theorem InStep.not_stored {card : Card} (hstep : InStep crates card) (hretries : 0 < card.pukRetries)
    {data : PivmanData} (hdata : adminData crates card = .ok data) : data.hasStoredKey = false := by
  by_contra hstored
  obtain ⟨-, -, hblocked⟩ := hstep.stored data hdata (by simpa using hstored)
  omega

theorem newPinText_still (newPin : Option String) : Still device view (newPinText newPin) := by
  cases newPin with
  | some pin => exact .pure pin
  | none => exact enterTwice_still _ _ _

theorem newPukText_still (newPuk : Option String) : Still device view (newPukText newPuk) := by
  cases newPuk with
  | some puk => exact .pure puk
  | none => exact enterTwice_still _ _ _

theorem currentPinText_still (pin : Option String) : Still device view (currentPinText pin) := by
  cases pin with
  | some pin => exact .pure pin
  | none => exact .promptPassword _

theorem changePuk_inStep (h : Documented crates device view) {args : ChangePuk}
    (hstep : InStep crates (view w.piv.card))
    (hr : Fallible.Runs (environment device) (PivAccess.changePuk crates args) w (some (.ok ())) u) :
    InStep crates (view u.piv.card) := by
  obtain ⟨old, v₁, hold, h₁⟩ := Fallible.bind_ok_iff.mp hr
  obtain ⟨text, v₂, htext, h₂⟩ := Fallible.bind_ok_iff.mp h₁
  obtain ⟨new, v₃, hnew, h₃⟩ := Fallible.bind_ok_iff.mp h₂
  have hcard₁ : view v₁.piv.card = view w.piv.card := resolvePuk_still _ _ _ _ hold
  have hcard₂ : view v₂.piv.card = view w.piv.card := (newPukText_still _ _ _ _ htext).trans hcard₁
  have hcard₃ : view v₃.piv.card = view w.piv.card := (Still.orThrow _ _ _ _ hnew).trans hcard₂
  obtain ⟨hretries, hcard⟩ := Piv.run_ok (h.changePuk old new) (sessionRun_ok h₃) () rfl
  rw [hcard₃] at hretries hcard
  rw [hcard]
  constructor
  · intro data hdata hstored
    rw [hstep.not_stored hretries hdata] at hstored
    cases hstored
  · intro data salt hdata hsalt
    exact hstep.derived data salt hdata hsalt

theorem unblockPin_inStep (h : Documented crates device view) {args : UnblockPin}
    (hstep : InStep crates (view w.piv.card))
    (hr : Fallible.Runs (environment device) (PivAccess.unblockPin crates args) w (some (.ok ())) u) :
    InStep crates (view u.piv.card) := by
  obtain ⟨⟨⟩, v₁, hsafe, h₁⟩ := Fallible.bind_ok_iff.mp hr
  obtain ⟨hcard₁, data, hdata, hsalt⟩ := ensurePinResetSafe_ok h hsafe
  obtain ⟨puk, v₂, hpuk, h₂⟩ := Fallible.bind_ok_iff.mp h₁
  obtain ⟨text, v₃, htext, h₃⟩ := Fallible.bind_ok_iff.mp h₂
  obtain ⟨new, v₄, hnew, h₄⟩ := Fallible.bind_ok_iff.mp h₃
  have hcard₂ := (resolvePuk_still _ _ _ _ hpuk).trans hcard₁
  have hcard₃ := (newPinText_still _ _ _ _ htext).trans hcard₂
  have hcard₄ := (Still.orThrow _ _ _ _ hnew).trans hcard₃
  obtain ⟨hretries, hcard⟩ := Piv.run_ok (h.unblockPin puk new) (sessionRun_ok h₄) () rfl
  rw [hcard₄] at hretries hcard
  rw [hcard]
  exact inStep_of_plain hdata (hstep.not_stored hretries hdata) hsalt

/-- Changing only the PIN keeps what does not depend on it. -/
theorem InStep.changePin {card : Card} (hstep : InStep crates card) {data : PivmanData}
    (hdata : adminData crates card = .ok data) (hsalt : data.salt = none) (newPin : Bytes) :
    InStep crates (card.apply (.changePin newPin)) := by
  constructor
  · intro data' hdata' hstored
    exact hstep.stored data' hdata' hstored
  · intro data' salt hdata' hsalt'
    have hsame : adminData crates card = .ok data' := hdata'
    rw [hdata] at hsame
    cases hsame
    rw [hsalt] at hsalt'
    cases hsalt'

/-- All changes of a derived PIN change put a plain record in step again. -/
theorem inStep_of_derived (h : crates.tlv.Documented) {card : Card} {data : PivmanData}
    {newPin newSalt value : Bytes} (hstored : data.hasStoredKey = false)
    (hvalue : PivmanData.toValue crates.tlv { data with salt := some newSalt } = some value) :
    InStep crates (card.applyAll [.changePin newPin,
      .setManagementKey (derivedKey crates newPin newSalt), .putData Piv.pivmanObjectId value]) := by
  have hread := fun c => Piv.adminData_putData h hvalue c
  constructor
  · intro data' hdata' hstored'
    have hsame := (hread _).symm.trans hdata'
    cases hsame
    have hkept : data.hasStoredKey = true := hstored'
    rw [hstored] at hkept
    cases hkept
  · intro data' salt hdata' hsalt
    have hsame := (hread _).symm.trans hdata'
    cases hsame
    cases hsalt
    rfl

theorem changePin_inStep (h : Documented crates device view) {args : ChangePin}
    (hstep : InStep crates (view w.piv.card))
    (hsuits : Suits crates (view w.piv.card) (.changePin args))
    (hr : Fallible.Runs (environment device) (PivAccess.changePin crates args) w (some (.ok ())) u) :
    InStep crates (view u.piv.card) := by
  obtain ⟨old, v₁, hold, h₁⟩ := Fallible.bind_ok_iff.mp hr
  obtain ⟨new, v₂, hnew, h₂⟩ := Fallible.bind_ok_iff.mp h₁
  have hcard₁ : view v₁.piv.card = view w.piv.card := currentPinText_still _ _ _ _ hold
  have hcard₂ : view v₂.piv.card = view w.piv.card := (newPinText_still _ _ _ _ hnew).trans hcard₁
  rw [← hcard₂] at hstep hsuits
  have hrun := sessionRun_ok h₂
  obtain ⟨data, hdata, hplain⟩ := Piv.changePinSynced_ok h hrun
  cases hsalt : data.salt with
  | none =>
    rw [hplain hsalt]
    exact hstep.changePin hdata hsalt _
  | some salt =>
    have hstored : data.hasStoredKey = false := by
      by_contra hstored
      have hnone := hsuits data hdata (by simpa using hstored)
      rw [hsalt] at hnone
      cases hnone
    obtain ⟨newSalt, ms, hms, hcard, hall⟩ := Piv.changePinSynced_trace h hdata hsalt hrun
    obtain ⟨value, hvalue, rfl⟩ := Piv.pinChange_prefix_three hms (hall rfl)
    rw [hcard]
    exact inStep_of_derived h.tlv hstored hvalue

/-- A completed replacement of the key puts the records in step, whatever they
were before. -/
theorem inStep_of_completed {update : Piv.ManagementKeyUpdate} {before after : Card}
    {old new : PivmanData} {applied : List Piv.Mutation}
    (h : Piv.Completed crates update before after old new applied) : InStep crates after := by
  constructor
  · intro data hdata hstored
    rw [h.reads_after] at hdata
    cases hdata
    have hprotect : update.protect = true := h.hasStoredKey.symm.trans hstored
    obtain ⟨hprinted, hretries⟩ := h.protects hprotect
    refine ⟨⟨update.newKeyBytes, hprinted, ?_⟩, ?_, hretries⟩
    · rw [h.key]
    · rw [h.pukBlocked, hprotect]
      rfl
  · intro data salt hdata hsalt
    rw [h.reads_after] at hdata
    cases hdata
    rw [h.salt] at hsalt
    cases hsalt

/-- Resolving the credentials of a protected replacement may complete an
earlier protection; only the replacement itself matters for the records. -/
theorem changeManagementKey_inStep (h : Documented crates device view) {args : ChangeManagementKey}
    (hr : Fallible.Runs (environment device) (PivAccess.changeManagementKey crates target args) w
      (some (.ok ())) u) : InStep crates (view u.piv.card) := by
  obtain ⟨⟨⟩, v₁, -, h₁⟩ := Fallible.bind_ok_iff.mp hr
  obtain ⟨algorithm, v₂, -, h₂⟩ := Fallible.bind_ok_iff.mp h₁
  obtain ⟨bytes, v₃, -, h₃⟩ := Fallible.bind_ok_iff.mp h₂
  obtain ⟨key, v₄, -, h₄⟩ := Fallible.bind_ok_iff.mp h₃
  obtain ⟨management, v₅, -, h₅⟩ := Fallible.bind_ok_iff.mp h₄
  obtain ⟨pin, v₆, -, h₆⟩ := Fallible.bind_ok_iff.mp h₅
  obtain ⟨access, old, new, applied, hcompleted⟩ := PivRecovery.replaceKey_completed h h₆
  exact inStep_of_completed hcompleted

/-- Every successful command on records that suit it keeps them in step. -/
theorem access_inStep (h : Documented crates device view) {command : AccessCommand}
    (hstep : InStep crates (view w.piv.card)) (hsuits : Suits crates (view w.piv.card) command)
    (hr : Fallible.Runs (environment device) (access crates target command) w (some (.ok ())) u) :
    InStep crates (view u.piv.card) := by
  cases command with
  | setRetries args => exact setRetries_inStep h hsuits hr
  | changePin args => exact changePin_inStep h hstep hsuits hr
  | changePuk args => exact changePuk_inStep h hstep hr
  | changeManagementKey args => exact changeManagementKey_inStep h hr
  | unblockPin args => exact unblockPin_inStep h hstep hr

/-- A sequence of successful commands, each on records that suit it. -/
inductive Session (device : Device IoError σ) (view : σ → Card) (crates : Crates) (target : Target) :
    List AccessCommand → World σ → World σ → Prop where
  | done (w : World σ) : Session device view crates target [] w w
  | next {command : AccessCommand} {commands : List AccessCommand} {w v u : World σ} :
      Suits crates (view w.piv.card) command →
        Fallible.Runs (environment device) (access crates target command) w (some (.ok ())) v →
          Session device view crates target commands v u →
            Session device view crates target (command :: commands) w u

/-- The records stay in step over every sequence of successful commands. -/
theorem session_inStep (h : Documented crates device view) {commands : List AccessCommand}
    (hsession : Session device view crates target commands w u)
    (hstep : InStep crates (view w.piv.card)) : InStep crates (view u.piv.card) := by
  induction hsession with
  | done w => exact hstep
  | next hsuits hr _ ih => exact ih (access_inStep h hstep hsuits hr)

def startWith (objects : List (Piv.ObjectId × Bytes)) (pukRetries : Nat) : World Reference.Chip where
  piv := Reference.cardWith ⟨.aes192, Reference.exampleKey.val⟩ objects pukRetries
  files := fun _ => none
  events := []

def exampleSetRetries : SetRetries where
  pinRetries := ⟨3, by decide⟩
  pukRetries := ⟨3, by decide⟩
  managementKey := some "000102030405060708090a0b0c0d0e0f1011121314151617"
  pin := some "123456"
  force := true

def exampleProtect : ChangeManagementKey where
  touch := false
  newManagementKey := some "424242424242424242424242424242424242424242424242"
  algorithm := none
  protect := true
  generate := false
  recoveryFile := none
  force := true
  managementKey := none
  pin := some "123456"

def exampleChangePin : ChangePin := ⟨some "123456", some "654321"⟩

def exampleTarget : Target := ⟨none, "CanoKey"⟩

def working (command : AccessCommand) (w : World Reference.Chip) :
    Option (Except CliError Unit) × World Reference.Chip :=
  Reference.playCommand Reference.knownAnswers (List.replicate 50 (.works 0))
    (access (Reference.crates Reference.knownAnswers) exampleTarget command) w

/-- The key is stored in PRINTED and the PUK is blocked. -/
def protectedStart : World Reference.Chip :=
  startWith [(Piv.pivmanObjectId, Der.tlv 0x80 (Der.tlv 0x81 [3])),
    (Piv.pivmanProtectedObjectId,
      Der.tlv 0x88 (Der.tlv 0x89 Reference.exampleKey.val))] 0

theorem protectedStart_record :
    adminData (Reference.crates Reference.knownAnswers) protectedStart.piv.card.card =
      .ok ⟨some 3, none, none⟩ := by
  decide

theorem protectedStart_inStep :
    InStep (Reference.crates Reference.knownAnswers) protectedStart.piv.card.card := by
  have hprinted : protectedData (Reference.crates Reference.knownAnswers) protectedStart.piv.card.card =
      .ok ⟨some Reference.exampleKey⟩ := by
    decide
  constructor
  · intro data hdata _
    rw [protectedStart_record] at hdata
    cases hdata
    exact ⟨⟨Reference.exampleKey, hprinted, rfl⟩, rfl, rfl⟩
  · intro data salt hdata hsalt
    rw [protectedStart_record] at hdata
    cases hdata
    cases hsalt

/-- The stored key of a protected card is replaced, and then the PIN changed. -/
theorem session_inStep_protected :
    let last := (working (.changePin exampleChangePin)
      (working (.changeManagementKey exampleProtect) protectedStart).2).2.piv.card.card
    InStep (Reference.crates Reference.knownAnswers) last ∧
      adminData (Reference.crates Reference.knownAnswers) last = .ok ⟨some 3, none, none⟩ ∧
      last.managementKey.bytes = Reference.freshKey.val ∧ last.pin = Reference.newPin := by
  have hruns :
      let replaced := working (.changeManagementKey exampleProtect) protectedStart
      let changed := working (.changePin exampleChangePin) replaced.2
      replaced.1 = some (.ok ()) ∧ changed.1 = some (.ok ()) ∧
        adminData (Reference.crates Reference.knownAnswers) replaced.2.piv.card.card = .ok ⟨some 3, none, none⟩ ∧
        adminData (Reference.crates Reference.knownAnswers) changed.2.piv.card.card = .ok ⟨some 3, none, none⟩ ∧
        changed.2.piv.card.card.managementKey.bytes = Reference.freshKey.val ∧
        changed.2.piv.card.card.pin = Reference.newPin := by
    decide +kernel
  obtain ⟨hfirst, hsecond, hbetween, hrecord, hkey, hpin⟩ := hruns
  have hsuits : Suits (Reference.crates Reference.knownAnswers)
      (working (.changeManagementKey exampleProtect) protectedStart).2.piv.card.card
      (.changePin exampleChangePin) := by
    intro data hdata _
    rw [hbetween] at hdata
    cases hdata
    rfl
  have hrest : Session (Reference.device Reference.knownAnswers) Reference.Chip.card
      (Reference.crates Reference.knownAnswers) exampleTarget [.changePin exampleChangePin] _ _ :=
    .next hsuits (Reference.playCommand_runs Reference.knownAnswers hsecond) (.done _)
  have hsession : Session (Reference.device Reference.knownAnswers) Reference.Chip.card
      (Reference.crates Reference.knownAnswers) exampleTarget
      [.changeManagementKey exampleProtect, .changePin exampleChangePin] protectedStart _ :=
    .next trivial (Reference.playCommand_runs Reference.knownAnswers hfirst) hrest
  exact ⟨session_inStep Reference.documented hsession protectedStart_inStep, hrecord, hkey, hpin⟩

/-- A protected card passes through `set-retries` with its stored key and a live
default PUK. -/
theorem session_leaves_step :
    InStep (Reference.crates Reference.knownAnswers) protectedStart.piv.card.card ∧
      Fallible.Runs (environment (Reference.device Reference.knownAnswers))
        (access (Reference.crates Reference.knownAnswers) exampleTarget (.setRetries exampleSetRetries))
        protectedStart (some (.ok ())) (working (.setRetries exampleSetRetries) protectedStart).2 ∧
      ¬ InStep (Reference.crates Reference.knownAnswers)
        (working (.setRetries exampleSetRetries) protectedStart).2.piv.card.card := by
  have hrun :
      let last := working (.setRetries exampleSetRetries) protectedStart
      last.1 = some (.ok ()) ∧
        adminData (Reference.crates Reference.knownAnswers) last.2.piv.card.card = .ok ⟨some 2, none, none⟩ := by
    decide +kernel
  obtain ⟨hdone, hafter⟩ := hrun
  exact ⟨protectedStart_inStep, Reference.playCommand_runs Reference.knownAnswers hdone, not_inStep hafter rfl rfl⟩

end Runs

end PivManager
