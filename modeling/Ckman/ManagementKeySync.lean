import Ckman.Piv
import Ckman.ReferenceCard

/-!
# The synchronised replacement of the management key

The update is a preparation that only inspects the card, followed by the stages
that apply to it. Completing all of them leaves the records in step with the
new key; a failure names the last stage that was attempted.
-/
namespace Piv

open Host Interaction

variable {E σ : Type} {crates : Crates} {device : Device E σ} {view : σ → Card} {w u : World σ}
  {update : ManagementKeyUpdate}

structure PreparedFor (crates : Crates) (update : ManagementKeyUpdate) (card : Card)
    (p : Prepared) : Prop where
  newKey : p.newKey = ⟨update.algorithm, update.newKeyBytes.val⟩
  replacement : p.replacement.isSome = update.protect
  pivman : adminData crates card = .ok p.pivman
  printed : ∀ printed, p.printed = some printed → protectedData crates card = .ok printed
  printed_isSome : p.printed.isSome = (update.protect || p.pivman.hasStoredKey)
  oldValue : p.pivman.toValue crates.tlv = some p.oldValue

theorem orDrive_holds {α : Type} {I : World σ → Prop} (r : Except Error α) :
    Fallible.Holds (environment device) I (orDrive r) PivError.Unreplaced (fun a => r = .ok a) := by
  refine Fallible.Holds.orThrow ?_ ?_
  · intro e he
    cases r with
    | error e' =>
      cases he
      exact PivError.unreplaced_drive _
    | ok a => cases he
  · intro a ha
    cases r with
    | error e' => cases ha
    | ok b =>
      cases ha
      rfl

theorem unwrap_holds {α : Type} {I : World σ → Prop} (fail : PivError E → Prop) (value : Option α) :
    Fallible.Holds (environment device) I (unwrap value) fail (fun a => value = some a) := by
  refine Fallible.Holds.of_runs ?_
  intro w o u hw hr
  obtain ⟨rfl, rfl⟩ := Runs.unwrap_iff.mp hr
  refine ⟨hw, ?_, ?_⟩
  · intro e he
    cases value <;> cases he
  · intro a ha
    cases value <;> cases ha
    rfl

theorem fill_holds {I : World σ → Prop} (n : Nat) :
    Fallible.Holds (environment device) I (fill (E := E) n) PivError.Unreplaced (fun _ => True) := by
  refine Fallible.Holds.of_runs ?_
  intro w o u hw hr
  obtain rfl := Runs.fill_world hr
  refine ⟨hw, ?_, by simp⟩
  intro e he stage source h
  subst h
  obtain ⟨o', ho, -⟩ := Fallible.mapError_iff.mp hr
  rw [he] at ho
  rcases o' with _ | ⟨e' | a⟩ <;> cases ho

theorem replacementPuk_holds {I : World σ → Prop} (protect : Bool) :
    Fallible.Holds (environment device) I (replacementPuk (E := E) protect) PivError.Unreplaced
      (fun replacement => replacement.isSome = protect) := by
  cases protect with
  | false => exact .pure rfl
  | true =>
    refine .bind (P := fun _ => True) ?_ fun replacement _ => .pure rfl
    exact .bind (fill_holds 8) fun bytes _ => .pure trivial

theorem readProtectedForUpdate_holds (h : Documented crates device view) (pivman : PivmanData)
    (w₀ : World σ) :
    Fallible.Holds (environment device) (Inspects view w₀)
      (readProtectedForUpdate crates update pivman) PivError.Unreplaced
      (fun printed => printed.isSome = (update.protect || pivman.hasStoredKey) ∧
        ∀ found, printed = some found → protectedData crates (view w₀.card) = .ok found) := by
  rw [readProtectedForUpdate]
  by_cases hneeded : (update.protect || pivman.hasStoredKey) = true
  · rw [if_pos hneeded, hneeded]
    refine .bind (P := fun _ => True) ?_ fun pin _ => ?_
    · refine .orThrow ?_ (fun _ _ => trivial)
      intro e he
      cases hp : update.pin <;> rw [hp] at he <;> cases he
      exact PivError.unreplaced_drive _
    · refine .bind (readRecord_holds h w₀) fun printed hprinted => .pure ⟨rfl, ?_⟩
      intro found hfound
      cases hfound
      exact hprinted
  · rw [if_neg hneeded]
    refine .pure ⟨?_, by simp⟩
    simpa using hneeded

/-- The preparation only inspects the card, and finds what is there. -/
theorem prepare_holds (h : Documented crates device view) (w₀ : World σ) :
    Fallible.Holds (environment device) (Inspects view w₀) (prepare crates update)
      PivError.Unreplaced (PreparedFor crates update (view w₀.card)) := by
  refine .bind (orDrive_holds _) fun newKey hkey => ?_
  refine .bind (replacementPuk_holds _) fun replacement hreplacement => ?_
  refine .bind (readRecord_holds h w₀) fun pivman hpivman => ?_
  refine .bind (readProtectedForUpdate_holds h pivman w₀) fun printed hprinted => ?_
  refine .bind (unwrap_holds _ _) fun oldValue hold => .pure ?_
  exact ⟨Crates.managementKey_eq hkey, hreplacement, hpivman, hprinted.2, hprinted.1, hold⟩

def protectedUpdate (update : ManagementKeyUpdate) : PivmanProtectedData :=
  ⟨if update.protect then some update.newKeyBytes else none⟩

def stageOperation (crates : Crates) (update : ManagementKeyUpdate) (p : Prepared) :
    ManagementKeyUpdateStage → Fallible (Answer E) (PivError E) Unit
  | .replaceKey => setManagementKey crates p.newKey update.touch update.access
  | .storeProtectedKey => storeProtectedKey crates update p.newKey (protectedUpdate update)
  | .updateMetadata => do
    let value ← unwrap ((updatedData p.pivman update.protect).toValue crates.tlv)
    updateMetadata crates p.newKey value
  | .protectPuk => do
    let replacement ← unwrap p.replacement
    protectPuk crates update replacement

/-- The stages that apply to a card with this ADMIN DATA and this PRINTED, in
their order. -/
def applicableStages (update : ManagementKeyUpdate) (data : PivmanData)
    (printed : Option PivmanProtectedData) : List ManagementKeyUpdateStage :=
  .replaceKey ::
    ((if (protectedToWrite update printed).isSome then [.storeProtectedKey] else []) ++
      ((if updatedData data update.protect ≠ data then [.updateMetadata] else []) ++
        if update.protect then [.protectPuk] else []))

def StageEffect (crates : Crates) (update : ManagementKeyUpdate) (data : PivmanData) :
    ManagementKeyUpdateStage → Card → Card → Prop
  | .replaceKey, c, d =>
    d = c.apply (.setManagementKey ⟨update.algorithm, update.newKeyBytes.val⟩)
  | .storeProtectedKey, c, d => ∃ value,
    (protectedUpdate update).toValue crates.tlv = some value ∧
      d = c.apply (.putData pivmanProtectedObjectId value)
  | .updateMetadata, c, d => ∃ value,
    (updatedData data update.protect).toValue crates.tlv = some value ∧
      d = c.apply (.putData pivmanObjectId value)
  | .protectPuk, c, d => (∃ ms, (∀ m ∈ ms, m.OfPuk) ∧ d = c.applyAll ms) ∧ d.pukRetries = 0

abbrev RunsStages (device : Device E σ) (crates : Crates) (update : ManagementKeyUpdate)
    (p : Prepared) : List ManagementKeyUpdateStage → World σ → Option (Except (PivError E) Unit) →
      World σ → Prop :=
  Staged (environment device) (stageOperation crates update p) managementUpdateError

theorem protectedToWrite_eq {printed : Option PivmanProtectedData} {found : PivmanProtectedData}
    (h : protectedToWrite update printed = some found) : found = protectedUpdate update := by
  cases printed with
  | none => cases h
  | some printed =>
    cases hp : update.protect with
    | true =>
      simp only [protectedToWrite, hp, if_true, Option.some.injEq] at h
      rw [protectedUpdate, hp, ← h]
      rfl
    | false =>
      by_cases hk : printed.key.isSome = true
      · simp only [protectedToWrite, hp, hk, if_true, Bool.false_eq_true, if_false,
          Option.some.injEq] at h
        rw [protectedUpdate, hp, ← h]
        rfl
      · simp [protectedToWrite, hp, hk] at h

theorem run_ok {T : Type} {operation : Except Error (Operation T)} {behaviour : Behaviour E T}
    (h : Acts device view operation behaviour) {t : T}
    (hr : Fallible.Runs (environment device) (run operation) w (some (.ok t)) u) :
    behaviour (view w.card) (some (.ok t)) (view u.card) := by
  rcases h.run hr with ⟨e, he, -, -⟩ | ⟨o', ho', hb⟩
  · cases he
  · rcases o' with _ | ⟨e | t'⟩ <;> cases ho'
    exact hb

/-- An operation that succeeded has made its change. -/
theorem Commits.ok {T : Type} {m : Mutation} {c d : Card} {t : T}
    (h : Commits (E := E) m c (some (.ok t)) d) : d = c.apply m := by
  rcases h with ⟨-, hfailed⟩ | hd
  · exact absurd rfl (hfailed t)
  · exact hd

/-- A completed stage has made its change. -/
theorem stage_effect (h : Documented crates device view) {p : Prepared}
    (hp : PreparedFor crates update card p) (stage : ManagementKeyUpdateStage)
    (hr : Fallible.Runs (environment device) (stageOperation crates update p stage) w
      (some (.ok ())) u) :
    StageEffect crates update p.pivman stage (view w.card) (view u.card) := by
  cases stage with
  | replaceKey =>
    have hset := (run_ok (h.setManagementKey _ _ _) hr).ok
    rw [hp.newKey] at hset
    exact hset
  | storeProtectedKey =>
    obtain ⟨pin, v, hpin, h₁⟩ := Fallible.bind_ok_iff.mp hr
    obtain ⟨rfl, -⟩ := Runs.unwrap_ok_iff.mp hpin
    obtain ⟨value, v, hvalue, h₂⟩ := Fallible.bind_ok_iff.mp h₁
    obtain ⟨rfl, hv⟩ := Runs.unwrap_ok_iff.mp hvalue
    exact ⟨value, hv, (run_ok (h.writeObject _ _ _) h₂).ok⟩
  | updateMetadata =>
    obtain ⟨value, v, hvalue, h₁⟩ := Fallible.bind_ok_iff.mp hr
    obtain ⟨rfl, hv⟩ := Runs.unwrap_ok_iff.mp hvalue
    exact ⟨value, hv, (run_ok (h.writeObject _ _ _) h₁).ok⟩
  | protectPuk =>
    obtain ⟨replacement, v, hreplacement, h₁⟩ := Fallible.bind_ok_iff.mp hr
    obtain ⟨rfl, -⟩ := Runs.unwrap_ok_iff.mp hreplacement
    obtain ⟨pin, v, hpin, h₂⟩ := Fallible.bind_ok_iff.mp h₁
    obtain ⟨rfl, -⟩ := Runs.unwrap_ok_iff.mp hpin
    obtain ⟨key, v, hkey, h₃⟩ := Fallible.bind_ok_iff.mp h₂
    obtain ⟨-, rfl⟩ := Fallible.pure_iff.mp h₃
    have hblocks := run_ok (h.pinManaged_some _ _) hkey
    exact ⟨hblocks.1, hblocks.2 key rfl⟩

def runPrepared (crates : Crates) (update : ManagementKeyUpdate) (p : Prepared) :
    Fallible (Answer E) (PivError E) Unit := do
  atStage .replaceKey (setManagementKey crates p.newKey update.touch update.access)
  whenSome (protectedToWrite update p.printed) fun printed =>
    atStage .storeProtectedKey (storeProtectedKey crates update p.newKey printed)
  let value ← unwrap ((updatedData p.pivman update.protect).toValue crates.tlv)
  whenSome (if value ≠ p.oldValue then some value else none) fun value =>
    atStage .updateMetadata (updateMetadata crates p.newKey value)
  whenSome p.replacement fun replacement =>
    atStage .protectPuk (protectPuk crates update replacement)

theorem setManagementKeySynced_eq (crates : Crates) (update : ManagementKeyUpdate) :
    (setManagementKeySynced crates update : Fallible (Answer E) (PivError E) Unit) =
      prepare crates update >>= runPrepared crates update := rfl

section Stages

variable {α : Type} {p : Prepared} {stage : ManagementKeyUpdateStage}
  {rest : List ManagementKeyUpdateStage} {value : Option α}
  {body : α → Fallible (Answer E) (PivError E) Unit} {o : Option (Except (PivError E) Unit)}

/-- A stage that runs when there is something for it, followed by the rest. -/
theorem stages_whenSome {next : Unit → Fallible (Answer E) (PivError E) Unit}
    (hbody : ∀ a, value = some a → body a = atStage stage (stageOperation crates update p stage))
    (hnext : ∀ v o u, Fallible.Runs (environment device) (next ()) v o u →
      RunsStages device crates update p rest v o u)
    (hr : Fallible.Runs (environment device) (whenSome value body >>= next) w o u) :
    RunsStages device crates update p ((if value.isSome then [stage] else []) ++ rest) w o u := by
  cases value with
  | none => exact hnext w o u hr
  | some a =>
    rw [whenSome, hbody a rfl] at hr
    exact Staged.of_bind hnext hr

/-- The last stage has nothing after it. -/
theorem stages_whenSome_last
    (hbody : ∀ a, value = some a → body a = atStage stage (stageOperation crates update p stage))
    (hr : Fallible.Runs (environment device) (whenSome value body) w o u) :
    RunsStages device crates update p (if value.isSome then [stage] else []) w o u := by
  cases value with
  | none =>
    obtain ⟨rfl, rfl⟩ := Fallible.pure_iff.mp hr
    exact .finished u
  | some a =>
    rw [whenSome, hbody a rfl] at hr
    obtain ⟨o', rfl, hx⟩ := Fallible.mapError_iff.mp hr
    rcases o' with _ | ⟨e | ⟨⟩⟩
    · exact .stopped hx
    · exact .failed hx
    · exact .next hx (.finished u)

/-- The metadata is written exactly when the records differ. -/
theorem metadata_differs (h : crates.tlv.Documented) {old updated : PivmanData} {a b : Bytes}
    (ha : updated.toValue crates.tlv = some a) (hb : old.toValue crates.tlv = some b) :
    a ≠ b ↔ updated ≠ old := by
  refine not_congr ⟨?_, ?_⟩
  · rintro rfl
    exact PivmanData.toValue_injective h ha hb
  · rintro rfl
    rw [ha] at hb
    exact Option.some.inj hb

/-- After the preparation, the update runs the applicable stages. -/
theorem runPrepared_stages {card : Card} (h : crates.tlv.Documented)
    (hp : PreparedFor crates update card p)
    (hr : Fallible.Runs (environment device) (runPrepared crates update p) w o u) :
    RunsStages device crates update p (applicableStages update p.pivman p.printed) w o u := by
  refine Staged.of_bind ?_ hr
  intro v₁ o u hr
  refine stages_whenSome ?_ ?_ hr
  · intro printed hprinted
    rw [protectedToWrite_eq hprinted]
    rfl
  intro v₂ o u hr
  have hlast : ∀ v o u, Fallible.Runs (environment device)
      (whenSome p.replacement fun replacement =>
        atStage .protectPuk (protectPuk crates update replacement)) v o u →
      RunsStages device crates update p
        (if update.protect then [.protectPuk] else []) v o u := by
    intro v o u hr
    rw [← hp.replacement]
    refine stages_whenSome_last ?_ hr
    intro replacement hreplacement
    simp only [stageOperation, hreplacement]
    rfl
  cases hv : (updatedData p.pivman update.protect).toValue crates.tlv with
  | none =>
    -- The encoder panics: the records differ, since the old one was encoded.
    have hdiffers : updatedData p.pivman update.protect ≠ p.pivman := by
      intro heq
      rw [heq, hp.oldValue] at hv
      cases hv
    rw [if_pos hdiffers]
    rw [hv] at hr
    rcases Run.ask_iff.mp hr with ⟨rfl, rfl⟩ | ⟨never, -⟩
    · refine .stopped ?_
      rw [stageOperation, hv]
      exact .stop _ _ _
    · exact nomatch never
  | some value =>
    rw [hv, unwrap_some_bind] at hr
    have hiff := metadata_differs h hv hp.oldValue
    by_cases hne : value = p.oldValue
    · rw [if_neg (not_not.mpr hne)] at hr
      rw [if_neg (mt hiff.mpr (not_not.mpr hne))]
      exact hlast v₂ o u hr
    · rw [if_pos hne] at hr
      rw [if_pos (hiff.mp hne)]
      have hbody : ∀ a, some value = some a → atStage .updateMetadata (updateMetadata crates p.newKey a) =
          (atStage .updateMetadata (stageOperation crates update p .updateMetadata) :
            Fallible (Answer E) (PivError E) Unit) := by
        intro a ha
        cases ha
        simp only [stageOperation, hv]
        rfl
      exact stages_whenSome hbody hlast hr

end Stages

/-- Protect a new key on a card without records. -/
def exampleUpdate : ManagementKeyUpdate where
  newKeyBytes := Reference.freshKey
  algorithm := .aes192
  touch := .never
  protect := true
  pin := some ⟨defaultPin⟩
  access := .management (externalAuth ⟨.aes192, Reference.exampleKey.val⟩)

/-- A card without records whose PUK is blocked. -/
def plainStart : World Reference.Chip := Reference.cardWith ⟨.aes192, Reference.exampleKey.val⟩ [] 0

def exampleRun (choices : List (Reference.Choice Unit)) : Option (Except (PivError Unit) Unit) × World Reference.Chip :=
  Reference.play Reference.knownAnswers choices
    (setManagementKeySynced (Reference.crates Reference.knownAnswers) exampleUpdate) plainStart

/-- Stages fail only with drive errors. -/
theorem stage_error {p : Prepared} {stage : ManagementKeyUpdateStage} {e : PivError E}
    (hr : Fallible.Runs (environment device) (stageOperation crates update p stage) w
      (some (.error e)) u) : ∃ source, e = .drive source := by
  cases stage with
  | replaceKey => exact Runs.run_error hr
  | storeProtectedKey =>
    rcases Runs.unwrap_bind_error hr with ⟨pin, h₁⟩
    rcases Runs.unwrap_bind_error h₁ with ⟨value, h₂⟩
    exact Runs.run_error h₂
  | updateMetadata =>
    rcases Runs.unwrap_bind_error hr with ⟨value, h₁⟩
    exact Runs.run_error h₁
  | protectPuk =>
    rcases Runs.unwrap_bind_error hr with ⟨replacement, h₁⟩
    rcases Runs.unwrap_bind_error h₁ with ⟨pin, h₂⟩
    rcases Fallible.bind_iff.mp h₂ with ⟨ho, -⟩ | ⟨e', ho, hrun⟩ | ⟨key, v, -, hpure⟩
    · cases ho
    · cases ho
      exact Runs.run_error hrun
    · cases (Fallible.pure_iff.mp hpure).1

/-- A failure before the replacement leaves the card as it was. A failed
replacement names the last stage that ran: the applicable stages before it are
complete, in order, and the run ends where its operation failed. -/
theorem setManagementKeySynced_failure (h : Documented crates device view) {e : PivError E}
    (hr : Fallible.Runs (environment device) (setManagementKeySynced crates update) w
      (some (.error e)) u) :
    (e.Unreplaced → Inspects view w u) ∧
      ∀ stage source, e = .managementKeyUpdate stage source →
        ∃ p v x done rest, PreparedFor crates update (view w.card) p ∧ Inspects view w v ∧
          applicableStages update p.pivman p.printed = done ++ stage :: rest ∧
          RunsStages device crates update p done v (some (.ok ())) x ∧
          Steps (StageEffect crates update p.pivman) done (view w.card) (view x.card) ∧
          Fallible.Runs (environment device) (stageOperation crates update p stage) x
            (some (.error (.drive source))) u := by
  rw [setManagementKeySynced_eq] at hr
  rcases Fallible.bind_iff.mp hr with ⟨ho, -⟩ | ⟨e', ho, hprep⟩ | ⟨p, v, hprep, hrun⟩
  · cases ho
  · cases ho
    obtain ⟨hinspects, hunreplaced, -⟩ := prepare_holds h w w _ u (.refl view w) hprep
    refine ⟨fun _ => hinspects, ?_⟩
    intro stage source he
    exact absurd he (hunreplaced e rfl stage source)
  · obtain ⟨hinspects, -, hprepared⟩ := prepare_holds h w w _ v (.refl view w) hprep
    have hp := (hprepared p rfl).2
    obtain ⟨done, stage, rest, x, e', hstages, he, hdone, hfail⟩ :=
      (runPrepared_stages h.tlv hp hrun).error
    obtain ⟨source, rfl⟩ := stage_error hfail
    refine ⟨fun hunreplaced => absurd he (hunreplaced stage source), ?_⟩
    intro stage' source' he'
    rw [he'] at he
    cases he
    have hsteps : Steps (StageEffect crates update p.pivman) done (view w.card) (view x.card) := by
      rw [← hinspects.card]
      exact Staged.steps (fun w : World σ => view w.card)
        (fun i _ w u hrun => stage_effect h hp i hrun) hdone
    exact ⟨p, v, x, done, rest, hp, hinspects, hstages, hdone, hsteps, hfail⟩

/-- The answer to the metadata write is lost: two stages are complete, and the
run ends with the third. -/
theorem setManagementKeySynced_failure_metadata :
    ∃ p v x done rest,
      PreparedFor (Reference.crates Reference.knownAnswers) exampleUpdate plainStart.card.card p ∧
      Inspects Reference.Chip.card plainStart v ∧
      applicableStages exampleUpdate p.pivman p.printed = done ++ .updateMetadata :: rest ∧
      RunsStages (Reference.device (E := Unit) Reference.knownAnswers)
        (Reference.crates Reference.knownAnswers) exampleUpdate p done v (some (.ok ())) x ∧
      Steps (StageEffect (Reference.crates Reference.knownAnswers) exampleUpdate p.pivman) done
        plainStart.card.card x.card.card ∧
      Fallible.Runs (environment (Reference.device (E := Unit) Reference.knownAnswers))
        (stageOperation (Reference.crates Reference.knownAnswers) exampleUpdate p .updateMetadata) x
        (some (.error (.drive (.transport ()))))
        (exampleRun (List.replicate 18 (.works 0) ++ [.lost ()])).2 := by
  have hfails : (exampleRun (List.replicate 18 (.works 0) ++ [.lost ()])).1 =
      some (.error (.managementKeyUpdate .updateMetadata (.transport ()))) := by
    decide +kernel
  exact (setManagementKeySynced_failure Reference.documented
    (Reference.play_runs Reference.knownAnswers hfails)).2 .updateMetadata (.transport ()) rfl

/-- What a completed update leaves on the card: the records of the card before
and after it, and the changes that were applied in between. -/
structure Completed (crates : Crates) (update : ManagementKeyUpdate) (before after : Card)
    (old new : PivmanData) (applied : List Mutation) : Prop where
  reads_before : adminData crates before = .ok old
  reads_after : adminData crates after = .ok new
  history : after.applied = before.applied ++ applied
  key : after.managementKey = ⟨update.algorithm, update.newKeyBytes.val⟩
  salt : new.salt = none
  pinTimestamp : new.pinTimestamp = old.pinTimestamp
  otherFlags : new.otherFlags = old.otherFlags
  hasStoredKey : new.hasStoredKey = update.protect
  pukBlocked : new.pukBlocked = (update.protect || old.pukBlocked)
  /-- Protection stores exactly the new key and blocks the PUK. -/
  protects : update.protect = true →
    protectedData crates after = .ok ⟨some update.newKeyBytes⟩ ∧ after.pukRetries = 0
  /-- A stored key that is no longer wanted is cleared. -/
  clears : update.protect = false → old.hasStoredKey = true →
    protectedData crates after = .ok ⟨none⟩
  /-- Without a stored key there is nothing to clear. -/
  untouched : update.protect = false → old.hasStoredKey = false →
    after.objects pivmanProtectedObjectId = before.objects pivmanProtectedObjectId ∧
      ∀ value, .putData pivmanProtectedObjectId value ∉ applied
  /-- ADMIN DATA is left alone only when it already is what it should be. -/
  skipped : (∀ value, .putData pivmanObjectId value ∉ applied) →
    updatedData old update.protect = old

/-- The metadata after the update, field by field. -/
theorem updatedData_spec (data : PivmanData) (protect : Bool) :
    (updatedData data protect).salt = none ∧
      (updatedData data protect).pinTimestamp = data.pinTimestamp ∧
      (updatedData data protect).otherFlags = data.otherFlags ∧
      (updatedData data protect).hasStoredKey = protect ∧
      (updatedData data protect).pukBlocked = (protect || data.pukBlocked) := by
  have hsalt : ∀ d : PivmanData, d = (if data.hasDerivedKey then { data with salt := none } else data) →
      d.salt = none ∧ d.pinTimestamp = data.pinTimestamp ∧ d.otherFlags = data.otherFlags ∧
        d.pukBlocked = data.pukBlocked := by
    rintro d rfl
    by_cases hd : data.hasDerivedKey = true
    · rw [if_pos hd]
      exact ⟨rfl, rfl, rfl, rfl⟩
    · rw [if_neg hd]
      exact ⟨by simpa [PivmanData.hasDerivedKey] using hd, rfl, rfl, rfl⟩
  obtain ⟨hs, ht, ho, hp⟩ := hsalt _ rfl
  rw [updatedData]
  generalize (if data.hasDerivedKey then { data with salt := none } else data : PivmanData) = d at *
  obtain ⟨hstored, hblocked, hother⟩ := d.setStoredKey_bits protect
  obtain ⟨hblocked', hstored', hother'⟩ := (d.setStoredKey protect).setPukBlocked_bits true
  cases protect with
  | false =>
    refine ⟨(d.setFlag_salt 2 false).trans hs, (d.setFlag_pinTimestamp 2 false).trans ht,
      hother.trans ho, hstored, hblocked.trans hp⟩
  | true =>
    refine ⟨?_, ?_, (hother'.trans hother).trans ho, hstored'.trans hstored, hblocked'⟩
    · exact (PivmanData.setFlag_salt _ 1 true).trans ((d.setFlag_salt 2 true).trans hs)
    · exact (PivmanData.setFlag_pinTimestamp _ 1 true).trans ((d.setFlag_pinTimestamp 2 true).trans ht)

theorem adminData_congr {c d : Card} (h : d.objects pivmanObjectId = c.objects pivmanObjectId) :
    adminData crates d = adminData crates c := by
  rw [adminData, adminData, h]

theorem protectedData_congr {c d : Card}
    (h : d.objects pivmanProtectedObjectId = c.objects pivmanProtectedObjectId) :
    protectedData crates d = protectedData crates c := by
  rw [protectedData, protectedData, h]

/-- At most one write of an object between two cards. -/
structure PutsAtMost (id : ObjectId) (c d : Card) (ms : List Mutation) : Prop where
  result : d = c.applyAll ms
  managementKey : d.managementKey = c.managementKey
  others : ∀ other, other ≠ id → d.objects other = c.objects other
  only : ∀ m ∈ ms, ∃ value, m = .putData id value

/-- A conditional stage that writes one object. -/
theorem putsAtMost_of_optional {b : Prop} {id : ObjectId} {P : Bytes → Prop} {c d : Card}
    (h : (b ∧ ∃ value, P value ∧ d = c.apply (.putData id value)) ∨ (¬ b ∧ d = c)) :
    ∃ ms, PutsAtMost id c d ms ∧
      ((b ∧ ∃ value, P value ∧ d = c.apply (.putData id value) ∧ .putData id value ∈ ms) ∨
        (¬ b ∧ d = c ∧ ms = [])) := by
  rcases h with ⟨hb, value, hv, rfl⟩ | ⟨hb, rfl⟩
  · refine ⟨[.putData id value], ⟨rfl, rfl, ?_, ?_⟩, .inl ⟨hb, value, hv, rfl, by simp⟩⟩
    · intro other hother
      exact Card.apply_putData_objects_other c value hother
    · intro m hm
      exact ⟨value, List.mem_singleton.mp hm⟩
  · exact ⟨[], ⟨rfl, rfl, fun _ _ => rfl, by simp⟩, .inr ⟨hb, rfl, rfl⟩⟩

/-- The PRINTED record after its stage: stored, cleared, or left as it was. -/
theorem protectedData_stored (h : crates.tlv.Documented) {p : Prepared} {c c₁ c₂ : Card}
    (hp : PreparedFor crates update c p)
    (hc : c₁.objects pivmanProtectedObjectId = c.objects pivmanProtectedObjectId)
    (hstore : ((protectedToWrite update p.printed).isSome = true ∧ ∃ value,
        (protectedUpdate update).toValue crates.tlv = some value ∧
          c₂ = c₁.apply (.putData pivmanProtectedObjectId value)) ∨
      (¬ (protectedToWrite update p.printed).isSome = true ∧ c₂ = c₁))
    (hneeded : (update.protect || p.pivman.hasStoredKey) = true) :
    protectedData crates c₂ = .ok (protectedUpdate update) := by
  rcases hstore with ⟨-, value, hv, rfl⟩ | ⟨hskip, rfl⟩
  · exact protectedData_putData h hv c₁
  · -- The record was read, and it holds no key that would have to be cleared.
    have hread : p.printed.isSome = true := hp.printed_isSome.trans hneeded
    obtain ⟨found, hfound⟩ := Option.isSome_iff_exists.mp hread
    have hdata := hp.printed found hfound
    cases hprotect : update.protect with
    | true => simp [protectedToWrite, hfound, hprotect] at hskip
    | false =>
      have hkey : found.key = none := by simpa [protectedToWrite, hfound, hprotect] using hskip
      rw [protectedData_congr hc, hdata, protectedUpdate, hprotect]
      obtain ⟨key⟩ := found
      cases hkey
      rfl

/-- The effects of all applicable stages complete the update. -/
theorem completed_of_steps (h : crates.tlv.Documented) {p : Prepared} {c d : Card}
    (hp : PreparedFor crates update c p)
    (hsteps : Steps (StageEffect crates update p.pivman)
      (applicableStages update p.pivman p.printed) c d) :
    ∃ applied, Completed crates update c d p.pivman (updatedData p.pivman update.protect)
      applied := by
  obtain ⟨c₁, hkey, h₁⟩ := Steps.cons_iff.mp hsteps
  obtain ⟨c₂, hstore, h₂⟩ := h₁.optional
  obtain ⟨c₃, hmeta, h₃⟩ := h₂.optional
  rw [← List.append_nil (if update.protect then _ else _)] at h₃
  obtain ⟨c₄, hpuk, h₄⟩ := h₃.optional
  obtain rfl := Steps.nil_iff.mp h₄
  obtain ⟨ms₂, hputs₂, hcase₂⟩ := putsAtMost_of_optional hstore
  obtain ⟨ms₃, hputs₃, hcase₃⟩ := putsAtMost_of_optional hmeta
  obtain ⟨ms₄, hofPuk, hresult₄⟩ : ∃ ms, (∀ m ∈ ms, m.OfPuk) ∧ d = c₃.applyAll ms := by
    rcases hpuk with ⟨-, ⟨ms, hms, hd⟩, -⟩ | ⟨-, rfl⟩
    · exact ⟨ms, hms, hd⟩
    · exact ⟨[], by simp, rfl⟩
  obtain ⟨hkey₄, hobjects₄, -⟩ := c₃.applyAll_ofPuk hofPuk
  rw [← hresult₄] at hkey₄ hobjects₄
  have hobjects₁ : c₁.objects = c.objects := by
    rw [hkey]
    rfl
  obtain ⟨hsalt, htime, hother, hstored, hblocked⟩ := updatedData_spec p.pivman update.protect
  have hadmin : adminData crates d = .ok (updatedData p.pivman update.protect) := by
    rw [adminData_congr (congrFun hobjects₄ _)]
    rcases hcase₃ with ⟨-, value, hv, rfl, -⟩ | ⟨hsame, rfl, -⟩
    · exact adminData_putData h hv c₂
    · rw [adminData_congr ((hputs₂.others _ printed_ne_admin.symm).trans (congrFun hobjects₁ _)),
        hp.pivman, not_not.mp hsame]
  have hprinted : d.objects pivmanProtectedObjectId = c₂.objects pivmanProtectedObjectId :=
    (congrFun hobjects₄ _).trans (hputs₃.others _ printed_ne_admin)
  have hstoredData : (update.protect || p.pivman.hasStoredKey) = true →
      protectedData crates d = .ok (protectedUpdate update) := by
    intro hneeded
    rw [protectedData_congr hprinted]
    exact protectedData_stored h hp (congrFun hobjects₁ _) hstore hneeded
  refine ⟨.setManagementKey ⟨update.algorithm, update.newKeyBytes.val⟩ :: (ms₂ ++ (ms₃ ++ ms₄)),
    hp.pivman, hadmin, ?_, ?_, hsalt, htime, hother, hstored, hblocked, ?_, ?_, ?_, ?_⟩
  · have happly : d = c.applyAll
        (.setManagementKey ⟨update.algorithm, update.newKeyBytes.val⟩ :: (ms₂ ++ (ms₃ ++ ms₄))) := by
      rw [Card.applyAll_cons, Card.applyAll_append, Card.applyAll_append, ← hkey, ← hputs₂.result,
        ← hputs₃.result, ← hresult₄]
    rw [happly, Card.applied_applyAll]
  · rw [hkey₄, hputs₃.managementKey, hputs₂.managementKey, hkey]
    rfl
  · intro hprotect
    refine ⟨?_, ?_⟩
    · rw [hstoredData (by rw [hprotect]; rfl), protectedUpdate, if_pos hprotect]
    · rcases hpuk with ⟨-, -, hretries⟩ | ⟨hnot, -⟩
      · exact hretries
      · exact absurd hprotect hnot
  · intro hprotect hold
    rw [hstoredData (by rw [hold, Bool.or_true]), protectedUpdate, hprotect]
    rfl
  · intro hprotect hold
    have hnone : p.printed = none := by
      have hread := hp.printed_isSome
      rw [hprotect, hold] at hread
      exact Option.not_isSome_iff_eq_none.mp (by simp [hread])
    rcases hcase₂ with ⟨hwrite, -⟩ | ⟨-, rfl, rfl⟩
    · rw [hnone] at hwrite
      cases hwrite
    · refine ⟨hprinted.trans (congrFun hobjects₁ _), ?_⟩
      intro value hmem
      simp only [List.nil_append, List.mem_cons, reduceCtorEq, false_or, List.mem_append] at hmem
      rcases hmem with hmem | hmem
      · obtain ⟨value', heq⟩ := hputs₃.only _ hmem
        cases heq
      · exact (hofPuk _ hmem).elim
  · intro habsent
    rcases hcase₃ with ⟨-, value, -, -, hmem⟩ | ⟨hsame, -, -⟩
    · exact absurd (by simp [hmem]) (habsent value)
    · exact not_not.mp hsame

/-- A successful update leaves the card complete: the new key is active, the
records are in step with it, and nothing else was lost. -/
theorem setManagementKeySynced_completed (h : Documented crates device view)
    (hr : Fallible.Runs (environment device) (setManagementKeySynced crates update) w
      (some (.ok ())) u) :
    ∃ old new applied, Completed crates update (view w.card) (view u.card) old new applied := by
  rw [setManagementKeySynced_eq] at hr
  obtain ⟨p, v, hprep, hrun⟩ := Fallible.bind_ok_iff.mp hr
  obtain ⟨hinspects, -, hprepared⟩ := prepare_holds h w w _ v (.refl view w) hprep
  have hp := (hprepared p rfl).2
  have hsteps := Staged.steps (fun w : World σ => view w.card)
    (fun i _ w u hrun => stage_effect h hp i hrun) (runPrepared_stages h.tlv hp hrun)
  simp only [hinspects.card] at hsteps
  obtain ⟨applied, hcompleted⟩ := completed_of_steps h.tlv hp hsteps
  exact ⟨_, _, applied, hcompleted⟩

/-- With working exchanges every stage of the example completes. -/
theorem setManagementKeySynced_completed_protected :
    ∃ old new applied, Completed (Reference.crates Reference.knownAnswers) exampleUpdate
      plainStart.card.card (exampleRun (List.replicate 28 (.works 0))).2.card.card old new applied := by
  have hsucceeds : (exampleRun (List.replicate 28 (.works 0))).1 = some (.ok ()) := by
    decide +kernel
  exact setManagementKeySynced_completed Reference.documented
    (Reference.play_runs Reference.knownAnswers hsucceeds)

end Piv
