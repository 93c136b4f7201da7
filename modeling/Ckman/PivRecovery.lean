import Ckman.ManagementKeySync
import Ckman.PivSession
import Ckman.ReferenceHost

/-!
# The recovery file of a key replacement

The new key is written to a fresh durable file before the card is asked to
change anything, and the file is removed only after the whole update. So at
every point either the old key is active, or the file holds the new one, or
the update is complete.
-/
namespace PivRecovery

open Host Interaction CommandLine PivSession
open Piv (Crates Card Device Documented ManagementKeyAlgorithm ManagementTouchPolicy KeyBytes
  ManagementKeyUpdate Access PivError)

def algorithmName : ManagementKeyAlgorithm → String
  | .tdes => "tdes"
  | .aes192 => "aes192"

def boolText (b : Bool) : String := if b then "true" else "false"

/-- `{serial:?}`. -/
def serialText : Option UInt32 → String
  | none => "None"
  | some serial => "Some(" ++ toString serial.toNat ++ ")"

/-- What the file is about; the reader's name is given as `{:?}` prints it. -/
structure Recovery where
  requested : Option Path
  serial : Option UInt32
  reader : String
  algorithm : ManagementKeyAlgorithm
  key : KeyBytes
  protect : Bool
  touch : Bool

def instructions : String :=
  "The replacement may or may not have committed. Keep the original credentials.\nTo finish, repeat change-management-key with the saved algorithm and new-management-key.\nIf the new key is active, also supply it as --management-key; otherwise use the original credentials.\nUse --protect again if protect is true, and --touch if touch is true.\nUse a fresh --recovery-file path; existing recovery files are never overwritten.\nDo not reset PIV to recover this key.\n"

def header (r : Recovery) : String :=
  "CanoKey PIV management key recovery\nreader: " ++ r.reader ++ "\nserial: " ++ serialText r.serial ++
    "\nalgorithm: " ++ algorithmName r.algorithm ++ "\nprotect: " ++ boolText r.protect ++
    "\ntouch: " ++ boolText r.touch

def contents (r : Recovery) : String :=
  header r ++ "\nnew-management-key: " ++ hexEncode r.key.val ++ "\n\n" ++ instructions

/-- A generated name; sixteen bytes print as 32 hexadecimal digits. -/
def generatedName (algorithm : ManagementKeyAlgorithm) (random : Bytes) : String :=
  "ckman-piv-management-" ++ algorithmName algorithm ++ "-" ++ hexEncode random ++ ".recovery"

/-- `getrandom::fill(&mut random)?`. -/
def fillRandom (n : Nat) : Command { bytes : Bytes // bytes.length = n } :=
  mapError .random (attempt (Prog.request (Request.card (.fill n))))

def candidatePath (requested : Option Path) (algorithm : ManagementKeyAlgorithm) : Command Path :=
  match requested with
  | some path => pure path
  | none => do
    let random ← fillRandom 16
    let directory ← mapError .io (attempt (Prog.request Request.currentDir))
    pure (directory.join (generatedName algorithm random.val))

/-- `path.parent().filter(|p| !p.as_os_str().is_empty()).unwrap_or(Path::new("."))`. -/
def parentOrHere (path : Path) : Path :=
  ((Path.parent path).filter fun parent => parent ≠ []).getD [.curDir]

def openNew (path : Path) : Command (Except IoError Unit) :=
  attempt (Prog.ask (Request.createNew path) fun result => .pure (.ok result))

def writeAll (path : Path) (data : Bytes) : Fallible Answer IoError Unit :=
  attempt (Prog.request (Request.writeAll path data))

def syncAll (path : Path) : Fallible Answer IoError Unit :=
  attempt (Prog.request (Request.syncAll path))

def removeFile (path : Path) : Fallible Answer IoError Unit :=
  attempt (Prog.request (Request.removeFile path))

def syncDirectory (path : Path) : Fallible Answer IoError Unit :=
  attempt (Prog.request (Request.syncDirectory path))

/-- `let _ = …;` on a fallible call. -/
def ignore {ε α : Type} (p : Fallible Answer ε α) : Command Unit :=
  Prog.bind p fun _ => .pure (.ok ())

def save (parent path : Path) (data : Bytes) : Fallible Answer IoError Unit := do
  writeAll path data
  syncAll path
  syncDirectory parent

/-- What follows an attempt to save: a file that could not be saved is removed. -/
def finishSave (path : Path) : Except IoError Unit → Command Path
  | .ok () => pure path
  | .error error => do
    ignore (removeFile path)
    throw (.cannotPersist path error)

/-- Only a generated name may be tried again, when it is taken. -/
def NameTaken (requested : Option Path) (error : IoError) : Prop :=
  requested = none ∧ error.kind = .alreadyExists

instance (requested : Option Path) (error : IoError) : Decidable (NameTaken requested error) :=
  inferInstanceAs (Decidable (_ ∧ _))

/-- `for _ in 0..attempts`. -/
def createAttempts (r : Recovery) : Nat → Command Path
  | 0 => throw (.text "cannot allocate a management key recovery file")
  | attempts + 1 => do
    let candidate ← candidatePath r.requested r.algorithm
    let parent ← mapError .io (attempt (Prog.request (Request.canonicalize (parentOrHere candidate))))
    let name ← orThrow (okOr (Path.fileName candidate) (.text "recovery file has no file name"))
    let path := Path.join parent name
    let opened ← openNew path
    match opened with
    | .ok () => Prog.bind (save parent path (asBytes (contents r))) (finishSave path)
    | .error error =>
      if NameTaken r.requested error then createAttempts r attempts
      else throw (.cannotCreate path error)

/-- `ManagementKeyRecovery::create`. -/
def create (r : Recovery) : Command Path := createAttempts r 8

def cleanup (path : Path) : Fallible Answer IoError Unit := do
  removeFile path
  let parent ← onCard (Piv.unwrap (Path.parent path))
  syncDirectory parent

/-- `ManagementKeyRecovery::run`: the file is kept unless the operation succeeds. -/
def run (path : Path) (operation : Command Unit) : Command Unit := do
  mapError (fun error => .retained error path) operation
  ignore (cleanup path)

def touchPolicy (touch : Bool) : ManagementTouchPolicy := if touch then .always else .never

def updateOf (r : Recovery) (pin : Option Piv.Pin) (access : Access) : ManagementKeyUpdate :=
  ⟨r.key, r.algorithm, touchPolicy r.touch, r.protect, pin, access⟩

def synchronisedUpdate (crates : Crates) (r : Recovery) (management : ResolvedManagement)
    (pin : Option Piv.Pin) : Fallible (Piv.Answer IoError) (PivError IoError) Unit := do
  let access ← management.access crates
  Piv.setManagementKeySynced crates (updateOf r pin access)

/-- Create the file, run the synchronised update, remove the file on success. -/
def replaceKey (crates : Crates) (r : Recovery) (management : ResolvedManagement)
    (pin : Option Piv.Pin) : Command Unit := do
  let path ← create r
  run path (sessionRun (synchronisedUpdate crates r management pin))

/-- Every file of before is still there with its contents. -/
def Kept (before after : Files) : Prop :=
  ∀ path file, before path = some file →
    ∃ b, after path = some { file with entrySynced := b }

theorem Kept.refl (files : Files) : Kept files files :=
  fun _ file h => ⟨file.entrySynced, h⟩

theorem Kept.absent {before after : Files} (h : Kept before after) {path : Path}
    (hpath : after path = none) : before path = none := by
  cases hb : before path with
  | none => rfl
  | some file =>
    obtain ⟨b, hafter⟩ := h path file hb
    rw [hpath] at hafter
    cases hafter

/-- Whatever happens to a file that was not there before, the others are kept. -/
theorem Kept.update {before after : Files} (h : Kept before after) {path : Path}
    (hpath : before path = none) (file : Option File) :
    Kept before (Function.update after path file) := by
  intro other found hfound
  have hne : other ≠ path := by
    intro heq
    rw [heq, hpath] at hfound
    cases hfound
  obtain ⟨b, hafter⟩ := h other found hfound
  exact ⟨b, by rw [Function.update_of_ne hne, hafter]⟩

theorem Kept.syncDirectory {before after : Files} (h : Kept before after) (reached : Path → Bool) :
    Kept before fun path => (after path).map fun file =>
      { file with entrySynced := file.entrySynced || reached path } := by
  intro other found hfound
  obtain ⟨b, hafter⟩ := h other found hfound
  exact ⟨b || reached other, by simp only [hafter]; rfl⟩

def Fatal (requested : Option Path) : FileEvent → Prop
  | .opened _ (.error error) => ¬ NameTaken requested error
  | .written _ (.error _) => True
  | .synced _ (.error _) => True
  | .directorySynced _ (.error _) => True
  | _ => False

def isRemoval : FileEvent → Bool
  | .removed _ _ => true
  | _ => false

/-- Opening, writing or synchronising the recovery file failed: it happened
before any file was removed. -/
def CreationFailed (requested : Option Path) (events : List FileEvent) : Prop :=
  ∃ event ∈ events.takeWhile (fun event => !isRemoval event), Fatal requested event

def Passing (requested : Option Path) (event : FileEvent) : Prop :=
  ¬ Fatal requested event ∧ isRemoval event = false

section Runs

variable {σ : Type} {device : Device IoError σ} {r : Recovery} {w₀ : World σ}

/-- The card has not been asked anything, and no file of before is lost. -/
structure Untouched (w₀ v : World σ) : Prop where
  piv : v.piv = w₀.piv
  kept : Kept w₀.files v.files

structure Creating (requested : Option Path) (w₀ v : World σ) : Prop extends Untouched w₀ v where
  events : ∃ events, v.events = w₀.events ++ events ∧ ∀ event ∈ events, Passing requested event

theorem Creating.step {requested : Option Path} {v x : World σ} (h : Creating requested w₀ v)
    {new : List FileEvent} (hpiv : x.piv = v.piv) (hkept : Kept w₀.files x.files)
    (hevents : x.events = v.events ++ new) (hnew : ∀ event ∈ new, Passing requested event) :
    Creating requested w₀ x := by
  obtain ⟨events, hold, hpassing⟩ := h.events
  refine ⟨⟨hpiv.trans h.piv, hkept⟩, events ++ new, by rw [hevents, hold, List.append_assoc], ?_⟩
  intro event hevent
  rcases List.mem_append.mp hevent with hevent | hevent
  · exact hpassing event hevent
  · exact hnew event hevent

/-- The file was made after `w₀`, where nothing was. -/
def CreatedSince (w₀ : World σ) (path : Path) (v : World σ) : Prop :=
  w₀.files path = none ∧ ∃ events, v.events = w₀.events ++ events ∧ .opened path (.ok ()) ∈ events

theorem CreatedSince.append {path : Path} {v x : World σ} (h : CreatedSince w₀ path v) {new : List FileEvent}
    (hevents : x.events = v.events ++ new) : CreatedSince w₀ path x := by
  obtain ⟨habsent, events, hold, hopened⟩ := h
  exact ⟨habsent, events ++ new, by rw [hevents, hold, List.append_assoc], List.mem_append_left new hopened⟩

def Saving (requested : Option Path) (w₀ : World σ) (path : Path) (file : File) (v : World σ) : Prop :=
  Creating requested w₀ v ∧ CreatedSince w₀ path v ∧ v.files path = some file

/-- One call of the saving: whatever its outcome, only the new file and
directory entries change; when it succeeds the creation goes on. -/
theorem call_triple {requested : Option Path} {path : Path} {file file' : File}
    (q : CommandLine.Request) (answer : Answer q → Except IoError Unit)
    (hcall : ∀ w r v, environment device q w r v → v.piv = w.piv ∧ v.events = w.events ++ eventOf q r)
    (hfiles : ∀ w r v, environment device q w r v → Kept w₀.files w.files → w₀.files path = none →
      w.files path = some file →
        Kept w₀.files v.files ∧ (answer r = .ok () → v.files path = some file'))
    (hpassing : ∀ r, answer r = .ok () → ∀ event ∈ eventOf q r, Passing requested event) :
    Fallible.Triple (environment device) (Saving requested w₀ path file)
      (attempt (.ask q fun r => .pure (answer r)))
      (fun v => Untouched w₀ v ∧ w₀.files path = none) (fun _ => True)
      (fun _ => Saving requested w₀ path file') := by
  refine Fallible.Triple.attempt answer (fun w hw => ⟨hw.1.toUntouched, hw.2.1.1⟩) ?_
  rintro w r v ⟨hcreating, hcreated, hfile⟩ he
  obtain ⟨hpiv, hevents⟩ := hcall w r v he
  obtain ⟨hkeep, hpost⟩ := hfiles w r v he hcreating.kept hcreated.1 hfile
  refine ⟨⟨⟨hpiv.trans hcreating.piv, hkeep⟩, hcreated.1⟩, fun _ _ => trivial, ?_⟩
  intro a ha
  exact ⟨hcreating.step hpiv hkeep hevents (hpassing r ha), hcreated.append hevents, hpost ha⟩

theorem writeAll_triple (requested : Option Path) (path : Path) (data : Bytes) :
    Fallible.Triple (environment device) (Saving requested w₀ path newFile) (writeAll path data)
      (fun v => Untouched w₀ v ∧ w₀.files path = none) (fun _ => True)
      (fun _ => Saving requested w₀ path ⟨data, false, false⟩) := by
  refine call_triple (.writeAll path data) (fun r => r) (fun w r v he => ⟨he.1, he.2.2⟩) ?_ ?_
  · rintro w r v ⟨-, hfiles, -⟩ hkept habsent hopened
    cases r with
    | error e =>
      obtain ⟨file, file', -, heq⟩ := hfiles
      rw [heq]
      exact ⟨hkept.update habsent _, by simp⟩
    | ok a =>
      obtain ⟨file, hfile, heq⟩ := hfiles
      rw [hopened] at hfile
      cases hfile
      rw [heq]
      exact ⟨hkept.update habsent _, fun _ => by simp [newFile]⟩
  · rintro r rfl event hevent
    obtain rfl := List.mem_singleton.mp hevent
    exact ⟨by simp [Fatal], rfl⟩

theorem syncAll_triple (requested : Option Path) (path : Path) (data : Bytes) :
    Fallible.Triple (environment device) (Saving requested w₀ path ⟨data, false, false⟩)
      (syncAll path) (fun v => Untouched w₀ v ∧ w₀.files path = none) (fun _ => True)
      (fun _ => Saving requested w₀ path ⟨data, true, false⟩) := by
  refine call_triple (.syncAll path) (fun r => r) (fun w r v he => ⟨he.1, he.2.2⟩) ?_ ?_
  · rintro w r v ⟨-, hfiles, -⟩ hkept habsent hwritten
    cases r with
    | error e =>
      obtain ⟨file, synced, -, heq⟩ := hfiles
      rw [heq]
      exact ⟨hkept.update habsent _, by simp⟩
    | ok a =>
      obtain ⟨file, hfile, heq⟩ := hfiles
      rw [hwritten] at hfile
      cases hfile
      rw [heq]
      exact ⟨hkept.update habsent _, fun _ => by simp⟩
  · rintro r rfl event hevent
    obtain rfl := List.mem_singleton.mp hevent
    exact ⟨by simp [Fatal], rfl⟩

theorem syncDirectory_triple (requested : Option Path) (parent : Path) (name : String) (data : Bytes) :
    Fallible.Triple (environment device)
      (Saving requested w₀ (parent.join name) ⟨data, true, false⟩) (syncDirectory parent)
      (fun v => Untouched w₀ v ∧ w₀.files (parent.join name) = none) (fun _ => True)
      (fun _ => Saving requested w₀ (parent.join name) ⟨data, true, true⟩) := by
  refine call_triple (.syncDirectory parent) (fun r => r) (fun w r v he => ⟨he.1, he.2.2⟩) ?_ ?_
  · rintro w r v ⟨-, ⟨reached, hreached, heq⟩, -⟩ hkept habsent hsynced
    rw [heq]
    refine ⟨hkept.syncDirectory reached, fun hr => ?_⟩
    simp [hsynced, hreached hr]
  · rintro r rfl event hevent
    obtain rfl := List.mem_singleton.mp hevent
    exact ⟨by simp [Fatal], rfl⟩

variable (device w₀) in
/-- Saving a file that was just opened makes it durable. -/
theorem save_triple (requested : Option Path) (parent : Path) (name : String) (data : Bytes) :
    Fallible.Triple (environment device) (Saving requested w₀ (parent.join name) newFile)
      (save parent (parent.join name) data)
      (fun v => Untouched w₀ v ∧ w₀.files (parent.join name) = none) (fun _ => True)
      (fun _ => Saving requested w₀ (parent.join name) ⟨data, true, true⟩) :=
  .bind (writeAll_triple requested _ data) fun _ =>
    .bind (syncAll_triple requested _ data) fun _ => syncDirectory_triple requested parent name data

/-- A file that could not be saved is removed again; nothing else changes. -/
theorem removeUnsaved_triple {post : Path → World σ → Prop} (path : Path) (error : IoError) :
    Fallible.Triple (environment device) (fun v => Untouched w₀ v ∧ w₀.files path = none)
      (finishSave path (.error error)) (fun v => Untouched w₀ v ∧ w₀.files path = none)
      (fun _ => True) post := by
  have hremove : Fallible.Triple (environment device) (fun v => Untouched w₀ v ∧ w₀.files path = none)
      (removeFile path) (fun v => Untouched w₀ v ∧ w₀.files path = none) (fun _ => True)
      (fun _ v => Untouched w₀ v ∧ w₀.files path = none) := by
    refine Fallible.Triple.attempt (A := Answer) (q := .removeFile path) (fun r => r)
      (fun _ hv => hv) ?_
    rintro w r v ⟨huntouched, habsent⟩ ⟨hpiv, hfiles, -⟩
    have hkept : Kept w₀.files v.files := by
      cases r with
      | error e =>
        rcases hfiles with heq | heq
        · rw [heq]
          exact huntouched.kept
        · rw [heq]
          exact huntouched.kept.update habsent _
      | ok a =>
        have heq : v.files = Function.update w.files path none := hfiles
        rw [heq]
        exact huntouched.kept.update habsent _
    have hv : Untouched w₀ v ∧ w₀.files path = none := ⟨⟨hpiv.trans huntouched.piv, hkept⟩, habsent⟩
    exact ⟨hv, fun _ _ => trivial, fun _ _ => hv⟩
  refine .bind (P := fun _ v => Untouched w₀ v ∧ w₀.files path = none) ?_ fun _ =>
    .throw (fun _ hv => hv) trivial
  exact .handle hremove (fun _ => .pure (fun _ hv => hv) (fun _ hv => hv))
    (fun _ => .pure (fun _ hv => hv) (fun _ hv => hv))

/-- Opening a fresh file: a path that exists is left alone. -/
theorem openNew_triple (requested : Option Path) (path : Path) :
    Fallible.Triple (environment device) (Creating requested w₀) (openNew path) (Untouched w₀)
      (fun _ => True) (fun opened v => (opened = .ok () → Saving requested w₀ path newFile v) ∧
        ∀ e, opened = .error e → Untouched w₀ v ∧ (NameTaken requested e → Creating requested w₀ v)) := by
  refine Fallible.Triple.attempt (fun r => .ok r) (fun _ hw => hw.toUntouched) ?_
  rintro w r v hw ⟨hpiv, hfiles, hevents⟩
  cases r with
  | error e =>
    have hkept : Kept w₀.files v.files := by
      rcases hfiles with heq | ⟨hfree, heq⟩
      · rw [heq]
        exact hw.kept
      · rw [heq]
        exact hw.kept.update (hw.kept.absent hfree) _
    have hv : Untouched w₀ v := ⟨hpiv.trans hw.piv, hkept⟩
    refine ⟨hv, fun _ _ => trivial, ?_⟩
    intro a ha
    cases ha
    refine ⟨by simp, ?_⟩
    intro e' he'
    cases he'
    refine ⟨hv, fun htaken => hw.step hpiv hkept hevents ?_⟩
    intro event hevent
    obtain rfl := List.mem_singleton.mp hevent
    exact ⟨not_not.mpr htaken, rfl⟩
  | ok a =>
    obtain ⟨hfree, heq⟩ := hfiles
    have habsent := hw.kept.absent hfree
    have hkept : Kept w₀.files v.files := by
      rw [heq]
      exact hw.kept.update habsent _
    refine ⟨⟨hpiv.trans hw.piv, hkept⟩, fun _ _ => trivial, ?_⟩
    intro b hb
    cases hb
    have hcreated : CreatedSince w₀ path v := by
      obtain ⟨events, hold, -⟩ := hw.events
      exact ⟨habsent, events ++ [.opened path (.ok ())], by rw [hevents, hold, List.append_assoc]; rfl, by simp⟩
    refine ⟨fun _ => ⟨hw.step hpiv hkept hevents ?_, hcreated, by rw [heq]; simp⟩, by simp⟩
    intro event hevent
    obtain rfl := List.mem_singleton.mp hevent
    exact ⟨by simp [Fatal], rfl⟩

variable (device w₀) in
/-- A request that neither the card nor the files see. -/
theorem quiet_triple {ε α : Type} (requested : Option Path) (q : CommandLine.Request)
    (answer : Answer q → Except ε α)
    (hquiet : ∀ w r v, environment device q w r v →
      v.piv = w.piv ∧ v.files = w.files ∧ v.events = w.events) :
    Fallible.Triple (environment device) (Creating requested w₀)
      (attempt (.ask q fun r => .pure (answer r))) (Untouched w₀) (fun _ => True)
      (fun _ => Creating requested w₀) := by
  refine Fallible.Triple.attempt answer (fun _ hw => hw.toUntouched) ?_
  intro w r v hw he
  obtain ⟨hpiv, hfiles, hevents⟩ := hquiet w r v he
  have hv : Creating requested w₀ v := by
    have happend : v.events = w.events ++ [] := by rw [hevents, List.append_nil]
    exact hw.step hpiv (hfiles ▸ hw.kept) happend (by simp)
  exact ⟨hv.toUntouched, fun _ _ => trivial, fun _ _ => hv⟩

theorem candidatePath_triple (requested : Option Path) (algorithm : ManagementKeyAlgorithm) :
    Fallible.Triple (environment device) (Creating requested w₀) (candidatePath requested algorithm)
      (Untouched w₀) (fun _ => True)
      (fun candidate v => Creating requested w₀ v ∧ ∀ path, requested = some path → candidate = path) := by
  cases requested with
  | some path =>
    refine .pure (fun _ hw => hw.toUntouched) (fun _ hw => ⟨hw, ?_⟩)
    rintro other ⟨⟩
    rfl
  | none =>
    refine .bind (P := fun _ => Creating none w₀) ?_ fun random => ?_
    · have hfill := quiet_triple device w₀ none (.card (.fill 16)) (fun r => r)
        fun w r v he => ⟨he.1, he.2.1, he.2.2⟩
      exact hfill.mapError (fun _ _ => trivial)
    · refine .bind (P := fun _ => Creating none w₀) ?_ fun directory =>
        .pure (fun _ hw => hw.toUntouched) (fun _ hw => ⟨hw, by simp⟩)
      have hcurrent := quiet_triple device w₀ none .currentDir (fun r => r)
        fun w r v he => ⟨he.1, he.2.1, he.2.2.trans (List.append_nil _)⟩
      exact hcurrent.mapError (fun _ _ => trivial)

/-- A file in some directory, which has the requested name if there is one. -/
def Named (requested : Option Path) (path : Path) : Prop :=
  ∃ parent name, path = Path.join parent name ∧ ∀ p, requested = some p → Path.fileName p = some name

/-- The recovery file is complete and durable. -/
def Saved (r : Recovery) (w₀ : World σ) (path : Path) (v : World σ) : Prop :=
  Saving r.requested w₀ path ⟨asBytes (contents r), true, true⟩ v ∧ Named r.requested path

variable (device w₀) in
/-- The creation, whatever its calls return: the card is not asked anything, no
file of before is lost, and success leaves a durable file. -/
theorem createAttempts_triple (r : Recovery) (attempts : Nat) :
    Fallible.Triple (environment device) (Creating r.requested w₀) (createAttempts r attempts)
      (Untouched w₀) (fun _ => True) (Saved r w₀) := by
  induction attempts with
  | zero => exact .throw (fun _ hw => hw.toUntouched) trivial
  | succ attempts ih =>
    refine .bind (candidatePath_triple r.requested r.algorithm) fun candidate => ?_
    refine .assume fun hcandidate => ?_
    refine .bind (P := fun _ => Creating r.requested w₀) ?_ fun parent => ?_
    · have hcanonical := quiet_triple device w₀ r.requested
        (.canonicalize (parentOrHere candidate)) (fun r => r)
        fun w r v he => ⟨he.1, he.2.1, he.2.2.trans (List.append_nil _)⟩
      exact hcanonical.mapError (fun _ _ => trivial)
    refine .bind (P := fun name v => Creating r.requested w₀ v ∧ Path.fileName candidate = some name) ?_
      fun name => ?_
    · refine .orThrow (fun _ hw => hw.toUntouched) (fun _ _ => trivial) (fun name hname _ hw => ⟨hw, ?_⟩)
      exact okOr_eq_ok_iff.mp hname
    refine .assume fun hname => ?_
    refine .bind (openNew_triple r.requested (Path.join parent name)) fun opened => ?_
    cases opened with
    | error e =>
      by_cases htaken : NameTaken r.requested e
      · simp only [htaken, if_true]
        exact ih.weaken (fun _ hw => (hw.2 e rfl).2 htaken) (fun _ hw => hw) (fun _ _ h => h)
      · simp only [htaken, if_false]
        exact .throw (fun _ hw => (hw.2 e rfl).1) trivial
    | ok a =>
      have hnamed : ∀ p, r.requested = some p → Path.fileName p = some name := by
        intro p hp
        rw [← hcandidate p hp, hname]
      have hfinish : ∀ b, Fallible.Triple (environment device)
          (Saving r.requested w₀ (Path.join parent name) ⟨asBytes (contents r), true, true⟩)
          (finishSave (Path.join parent name) (.ok b))
          (fun v => Untouched w₀ v ∧ w₀.files (Path.join parent name) = none) (fun _ => True) (Saved r w₀) :=
        fun _ => .pure (fun _ hw => ⟨hw.1.toUntouched, hw.2.1.1⟩) (fun _ hw => ⟨hw, parent, name, rfl, hnamed⟩)
      have hsaved := Fallible.Triple.handle (save_triple device w₀ r.requested parent name _) hfinish
        (removeUnsaved_triple _)
      exact hsaved.weaken (fun _ hw => hw.1 rfl) (fun _ hw => hw.1) (fun _ _ h => h)

/-- The file holds the complete key: it can be read back from the text. -/
def HoldsKey (file : File) (key : KeyBytes) : Prop :=
  ∃ before hex after,
    file.contents = asBytes (before ++ "\nnew-management-key: " ++ hex ++ "\n" ++ after) ∧
      hexDecode hex = some key.val

theorem contents_holdsKey (r : Recovery) : HoldsKey ⟨asBytes (contents r), true, true⟩ r.key := by
  refine ⟨header r, hexEncode r.key.val, "\n" ++ instructions, ?_, hexDecode_hexEncode r.key.val⟩
  have hblank : "\n\n" = "\n" ++ "\n" := rfl
  rw [contents, hblank]
  simp only [String.append_assoc]

/-- The cleanup has not started, or it starts with the removal. -/
structure Cleaning (w₀ x : World σ) (started : Bool) (v : World σ) : Prop where
  piv : v.piv = x.piv
  kept : Kept w₀.files v.files
  events : ∃ rest, v.events = x.events ++ rest ∧
    ((started = false ∧ rest = []) ∨ ∃ path result tail, rest = .removed path result :: tail)

theorem Cleaning.start {x v : World σ} (h : Cleaning w₀ x true v) : Cleaning w₀ x false v := by
  obtain ⟨hpiv, hkept, rest, hevents, hrest⟩ := h
  refine ⟨hpiv, hkept, rest, hevents, ?_⟩
  rcases hrest with ⟨hnot, -⟩ | hrest
  · cases hnot
  · exact .inr hrest

/-- Nothing that fails in the cleanup is a failure of the creation. -/
theorem Cleaning.not_creationFailed {x v : World σ} {started : Bool} (h : Cleaning w₀ x started v) :
    ∃ rest, v.events = x.events ++ rest ∧ rest.takeWhile (fun event => !isRemoval event) = [] := by
  obtain ⟨-, -, rest, hevents, hrest⟩ := h
  refine ⟨rest, hevents, ?_⟩
  rcases hrest with ⟨-, rfl⟩ | ⟨path, result, tail, rfl⟩
  · rfl
  · rfl

/-- The cleanup only removes the file and synchronises its directory. -/
theorem cleanup_triple (x : World σ) (parent : Path) (name : String)
    (habsent : w₀.files (parent.join name) = none) :
    Fallible.Triple (environment device) (fun v => v = x ∧ Kept w₀.files x.files)
      (cleanup (parent.join name)) (Cleaning w₀ x false) (fun _ => True) (fun _ _ => True) := by
  refine .bind (P := fun _ => Cleaning w₀ x true) ?_ fun _ => ?_
  · refine Fallible.Triple.attempt (A := Answer) (q := .removeFile (parent.join name)) (fun r => r) ?_ ?_
    · rintro w ⟨rfl, hkept⟩
      exact ⟨rfl, hkept, [], by simp, .inl ⟨rfl, rfl⟩⟩
    · rintro w r v ⟨rfl, hkept⟩ ⟨hpiv, hfiles, hevents⟩
      have hkept' : Kept w₀.files v.files := by
        cases r with
        | error e =>
          rcases hfiles with heq | heq
          · rw [heq]
            exact hkept
          · rw [heq]
            exact hkept.update habsent _
        | ok a =>
          have heq : v.files = Function.update w.files (parent.join name) none := hfiles
          rw [heq]
          exact hkept.update habsent _
      have hv : Cleaning w₀ w true v := ⟨hpiv, hkept', _, hevents, .inr ⟨_, r, [], rfl⟩⟩
      exact ⟨hv.start, fun _ _ => trivial, fun _ _ => hv⟩
  · rw [Path.parent_join]
    refine Fallible.Triple.attempt (A := Answer) (q := .syncDirectory parent) (fun r => r)
      (fun _ hv => hv.start) ?_
    rintro w r v ⟨hpiv, hkept, rest, hrest, hstarted⟩ ⟨hpiv', ⟨reached, -, heq⟩, hevents⟩
    refine ⟨⟨hpiv'.trans hpiv, ?_, rest ++ [.directorySynced parent r], ?_, ?_⟩, fun _ _ => trivial,
      fun _ _ => trivial⟩
    · rw [heq]
      exact hkept.syncDirectory reached
    · rw [hevents, hrest, List.append_assoc]
      rfl
    · rcases hstarted with ⟨hnot, -⟩ | ⟨path, result, tail, rfl⟩
      · cases hnot
      · exact .inr ⟨path, result, tail ++ [.directorySynced parent r], rfl⟩

/-- Calls that all pass, followed by the cleanup, are no failed creation. -/
theorem not_creationFailed {requested : Option Path} {events rest : List FileEvent}
    (hevents : ∀ event ∈ events, Passing requested event)
    (hrest : rest.takeWhile (fun event => !isRemoval event) = []) :
    ¬ CreationFailed requested (events ++ rest) := by
  rintro ⟨event, hevent, hfatal⟩
  rw [List.takeWhile_append_of_pos (fun event h => by simp [(hevents event h).2]), hrest,
    List.append_nil] at hevent
  exact (hevents event hevent).1 hfatal

variable {crates : Crates} {view : σ → Card} {w u : World σ}

/-- A successful update under a mutual authentication is complete. -/
theorem synchronisedUpdate_completed (h : Documented crates device view)
    {management : ResolvedManagement} {pin : Option Piv.Pin} {w u : Piv.World σ}
    (hr : Fallible.Runs (Piv.environment device) (synchronisedUpdate crates r management pin) w
      (some (.ok ())) u) :
    ∃ access old new applied,
      Piv.Completed crates (updateOf r pin access) (view w.card) (view u.card) old new applied := by
  obtain ⟨access, v, haccess, hupdate⟩ := Fallible.bind_ok_iff.mp hr
  obtain rfl := ResolvedManagement.access_world haccess
  exact ⟨access, Piv.setManagementKeySynced_completed h hupdate⟩

/-- The file that the run has made holds the complete key. -/
structure Recoverable (r : Recovery) (w : World σ) (path : Path) (u : World σ) : Prop where
  created : CreatedSince w path u
  named : Named r.requested path
  key : ∃ file, u.files path = some file ∧ file.Durable ∧ HoldsKey file r.key

structure Safe (crates : Crates) (view : σ → Card) (r : Recovery) (pin : Option Piv.Pin)
    (w u : World σ) : Prop where
  /-- The old key is active, or the file that was made holds the new one, or all is
  done. -/
  recoverable : (view u.piv.card).managementKey = (view w.piv.card).managementKey ∨
    (∃ path, Recoverable r w path u) ∨
    ∃ access old new applied, Piv.Completed crates (updateOf r pin access) (view w.piv.card)
      (view u.piv.card) old new applied
  /-- Without the file the card is not asked anything. -/
  guarded : ∀ events, u.events = w.events ++ events → CreationFailed r.requested events →
    u.piv = w.piv
  /-- No file of before is overwritten, truncated or removed. -/
  kept : Kept w.files u.files

/-- While the file is there and every call passed, all is well. -/
theorem safe_of_saved {pin : Option Piv.Pin} {path : Path} {v : World σ} (hv : Saved r w path v)
    (hfiles : u.files = v.files) (hevents : u.events = v.events) : Safe crates view r pin w u := by
  obtain ⟨⟨hcreating, hcreated, hfile⟩, hnamed⟩ := hv
  obtain ⟨events, happend, hpassing⟩ := hcreating.events
  have hrecoverable : Recoverable r w path u := by
    have hsince := hcreated.append (hevents.trans (List.append_nil _).symm)
    refine ⟨hsince, hnamed, _, ?_, ⟨rfl, rfl⟩, contents_holdsKey r⟩
    rw [hfiles]
    exact hfile
  refine ⟨.inr (.inl ⟨path, hrecoverable⟩), ?_, by rw [hfiles]; exact hcreating.kept⟩
  intro events' hevents' hfailed
  rw [hevents, happend] at hevents'
  obtain rfl := List.append_cancel_left hevents'
  have hnot : ¬ CreationFailed r.requested (events ++ []) := not_creationFailed hpassing rfl
  rw [List.append_nil] at hnot
  exact absurd hfailed hnot

/-- The card operation of a command leaves the files alone, however it ends. -/
theorem retained_files {path : Path} {operation : Fallible (Piv.Answer IoError) (PivError IoError) Unit}
    {o : Option (Except CliError Unit)}
    (hr : Fallible.Runs (environment device)
      (mapError (fun error => CliError.retained error path) (sessionRun operation)) w o u) :
    u.files = w.files ∧ u.events = w.events := by
  obtain ⟨o₁, -, h₁⟩ := Fallible.mapError_iff.mp hr
  obtain ⟨o₂, -, h₂⟩ := Fallible.mapError_iff.mp h₁
  exact (onCard_runs h₂).2

/-- A successful operation completes the update, and the cleanup after it, which
may be cut off, leaves the card alone. -/
theorem run_finished (h : Documented crates device view) {management : ResolvedManagement}
    {pin : Option Piv.Pin} {parent : Path} {name : String} {v x : World σ}
    (hv : Saved r w (parent.join name) v)
    (hx : Fallible.Runs (environment device) (mapError (fun error => CliError.retained error (parent.join name))
      (sessionRun (synchronisedUpdate crates r management pin))) v (some (.ok ())) x)
    {o : Option (Except CliError Unit)}
    (hcleanup : Fallible.Runs (environment device) (ignore (cleanup (parent.join name))) x o u) :
    (∃ access old new applied, Piv.Completed crates (updateOf r pin access) (view w.piv.card)
      (view u.piv.card) old new applied) ∧ Cleaning w x false u := by
  obtain ⟨o', ho, hsession⟩ := Fallible.mapError_iff.mp hx
  rcases o' with _ | ⟨e | ⟨⟩⟩ <;> cases ho
  obtain ⟨access, old, new, applied, hcompleted⟩ :=
    synchronisedUpdate_completed h (sessionRun_ok hsession)
  have hkept : Kept w.files x.files := (retained_files hx).1 ▸ hv.1.1.kept
  have hcleaning : Cleaning w x false u := by
    rcases Run.bind_iff.mp hcleanup with ⟨-, hrun⟩ | ⟨result, y, hrun, hpure⟩
    · exact (cleanup_triple x parent name hv.1.2.1.1 x _ u ⟨rfl, hkept⟩ hrun).1
    · obtain ⟨-, rfl⟩ := Run.pure_iff.mp hpure
      exact (cleanup_triple x parent name hv.1.2.1.1 x _ u ⟨rfl, hkept⟩ hrun).1
  refine ⟨⟨access, old, new, applied, ?_⟩, hcleaning⟩
  rw [hcleaning.piv, ← hv.1.1.piv]
  exact hcompleted

/-- The update under a saved file, and the cleanup after its success. -/
theorem run_safe (h : Documented crates device view) {management : ResolvedManagement}
    {pin : Option Piv.Pin} {parent : Path} {name : String} {v : World σ}
    (hv : Saved r w (parent.join name) v)
    {o : Option (Except CliError Unit)}
    (hr : Fallible.Runs (environment device)
      (run (parent.join name) (sessionRun (synchronisedUpdate crates r management pin))) v o u) :
    Safe crates view r pin w u := by
  rcases Fallible.bind_iff.mp hr with ⟨-, hx⟩ | ⟨e, -, hx⟩ | ⟨⟨⟩, x, hx, hcleanup⟩
  · exact safe_of_saved hv (retained_files hx).1 (retained_files hx).2
  · exact safe_of_saved hv (retained_files hx).1 (retained_files hx).2
  obtain ⟨hcompleted, hcleaning⟩ := run_finished h hv hx hcleanup
  obtain ⟨events, happend, hpassing⟩ := hv.1.1.events
  obtain ⟨rest, hrest, htake⟩ := hcleaning.not_creationFailed
  refine ⟨.inr (.inr hcompleted), ?_, hcleaning.kept⟩
  intro events' hevents' hfailed
  rw [hrest, (retained_files hx).2, happend, List.append_assoc] at hevents'
  obtain rfl := List.append_cancel_left hevents'
  exact absurd hfailed (not_creationFailed hpassing htake)

/-- The replacement is safe wherever it ends or is stopped, whatever the
file-system calls and the card exchanges do. -/
theorem replaceKey_safe (h : Documented crates device view) {management : ResolvedManagement}
    {pin : Option Piv.Pin} {o : Option (Except CliError Unit)}
    (hr : Fallible.Runs (environment device) (replaceKey crates r management pin) w o u) :
    Safe crates view r pin w u := by
  have hstart : Creating r.requested w w := ⟨⟨rfl, Kept.refl _⟩, [], by simp, by simp⟩
  have huntouched : ∀ {v : World σ}, Untouched w v → Safe crates view r pin w v := by
    intro v hv
    exact ⟨.inl (by rw [hv.piv]), fun _ _ _ => hv.piv, hv.kept⟩
  have hcreate := createAttempts_triple device w r 8
  rcases Fallible.bind_iff.mp hr with ⟨-, hx⟩ | ⟨e, -, hx⟩ | ⟨path, v, hx, hrun⟩
  · exact huntouched (hcreate w _ u hstart hx).1
  · exact huntouched (hcreate w _ u hstart hx).1
  · obtain ⟨-, -, hsaved⟩ := hcreate w _ v hstart hx
    have hv := hsaved path rfl
    obtain ⟨parent, name, rfl, -⟩ := hv.2
    exact run_safe h hv hrun

/-! A replacement on a host where the first generated name is taken. -/

def exampleRecovery : Recovery := ⟨none, none, "CanoKey", .aes192, Reference.freshKey, false, false⟩

def exampleManagement : ResolvedManagement := ⟨⟨.aes192, Reference.exampleKey.val⟩, none⟩

def takenPath : Path := [.rootDir, .normal (generatedName .aes192 (List.replicate 16 0))]

def takenStart : World Reference.Chip where
  piv := Reference.cardWith ⟨.aes192, Reference.exampleKey.val⟩ [] 3
  files := fun path => if path = takenPath then some ⟨[], true, true⟩ else none
  events := []

def exampleReplacement : Option (Except CliError Unit) × World Reference.Chip :=
  Reference.playCommand Reference.knownAnswers
    (List.replicate 4 (.works 0) ++ List.replicate 4 (.works 1) ++ List.replicate 12 (.works 0))
    (replaceKey (Reference.crates Reference.knownAnswers) exampleRecovery exampleManagement none) takenStart

theorem replaceKey_safe_taken :
    Safe (Reference.crates Reference.knownAnswers) Reference.Chip.card exampleRecovery none takenStart
      exampleReplacement.2 :=
  replaceKey_safe Reference.documented (Reference.playCommand_runs Reference.knownAnswers rfl)

/-- Opening the recovery file failed because its generated name was taken, and
commands of the update were sent after it, under another name. -/
theorem replaceKey_continues :
    Fallible.Runs (environment (Reference.device Reference.knownAnswers))
        (replaceKey (Reference.crates Reference.knownAnswers) exampleRecovery exampleManagement none)
        takenStart (some (.ok ())) exampleReplacement.2 ∧
      .opened takenPath (.error Reference.fileExists) ∈
        exampleReplacement.2.events.takeWhile (fun event => !isRemoval event) ∧
      exampleReplacement.2.piv.log ≠ takenStart.piv.log := by
  refine ⟨Reference.playCommand_runs Reference.knownAnswers ?_, ?_, ?_⟩ <;> decide +kernel

/-- A successful replacement completed the update. -/
theorem replaceKey_completed (h : Documented crates device view) {management : ResolvedManagement}
    {pin : Option Piv.Pin}
    (hr : Fallible.Runs (environment device) (replaceKey crates r management pin) w
      (some (.ok ())) u) :
    ∃ access old new applied, Piv.Completed crates (updateOf r pin access) (view w.piv.card)
      (view u.piv.card) old new applied := by
  obtain ⟨path, v, hcreate, hrun⟩ := Fallible.bind_ok_iff.mp hr
  have hstart : Creating r.requested w w := ⟨⟨rfl, Kept.refl _⟩, [], by simp, by simp⟩
  obtain ⟨-, -, hsaved⟩ := createAttempts_triple device w r 8 w _ v hstart hcreate
  have hv := hsaved path rfl
  obtain ⟨parent, name, rfl, -⟩ := hv.2
  obtain ⟨⟨⟩, x, hx, hcleanup⟩ := Fallible.bind_ok_iff.mp hrun
  exact (run_finished h hv hx hcleanup).1

end Runs

end PivRecovery
