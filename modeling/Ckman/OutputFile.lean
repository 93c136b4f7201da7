import Ckman.CommandLine
import Ckman.InteractionLogic
import Ckman.InteractionTrace

/-!
# Files that are replaced as a whole

A file is written under a temporary name in the directory of its destination
and renamed when it is complete. Every call of the operating system may fail;
renaming is atomic.
-/
namespace OutputFile

open Host Interaction
open CommandLine (Path)

structure Metadata where
  isFile : Bool
  permissions : Nat
  deriving DecidableEq, Repr

/-- An open file is named by the path that it was created under. -/
inductive Request where
  /-- `Path::symlink_metadata`, as far as it is asked whether the path is a link. -/
  | symlinkMetadata (path : Path)
  | canonicalize (path : Path)
  | metadata (path : Path)
  /-- Open for writing, without truncating. -/
  | openWrite (path : Path)
  /-- `getrandom::fill` of 16 bytes. -/
  | fill
  /-- `create_new(true)`, with the mode that is set on Unix. -/
  | createNew (path : Path) (mode : Option Nat)
  | setPermissions (file : Path) (permissions : Nat)
  /-- `write` until it is not interrupted; an interrupted call writes nothing. -/
  | write (file : Path) (data : Bytes)
  | syncAll (file : Path)
  | close (file : Path)
  | rename (source target : Path)
  | removeFile (path : Path)
  deriving DecidableEq, Repr

abbrev Answer : Request → Type
  | .symlinkMetadata _ => Except IoError Bool
  | .canonicalize _ => Except IoError Path
  | .metadata _ => Except IoError Metadata
  | .openWrite _ => Except IoError Unit
  | .fill => Except RandomError { bytes : Bytes // bytes.length = 16 }
  | .createNew _ _ => Except IoError Unit
  | .setPermissions _ _ => Except IoError Unit
  | .write _ _ => Except IoError Nat
  | .syncAll _ => Except IoError Unit
  | .close _ => Unit
  | .rename _ _ => Except IoError Unit
  | .removeFile _ => Except IoError Unit

/-- The errors of an output. A message that is formatted from values is kept as
these values. -/
inductive CliError where
  | text (message : String)
  | io (error : IoError)
  | random (error : RandomError)
  /-- `output is not a regular file: {path}` -/
  | notRegular (path : Path)
  /-- `cannot replace {destination}: {error}; output saved at {saved}` -/
  | cannotReplace (destination : Path) (error : IoError) (saved : Path)
  deriving DecidableEq, Repr

abbrev Output (α : Type) : Type := Fallible Answer CliError α

def call (q : Request) : Output (Answer q) := Prog.ask q fun answer => .pure (.ok answer)

structure PreparedFile where
  destination : Path
  temporary : Path
  file : Option Path
  deriving DecidableEq, Repr

/-- `Drop::drop`: close the file and remove it, unless its name has been
cleared. A failed removal is ignored. -/
def PreparedFile.drop (output : PreparedFile) : Prog Answer Unit := do
  match output.file with
  | some file => Prog.request (Request.close file)
  | none => pure ()
  if output.temporary ≠ [] then
    let _ ← Prog.request (Request.removeFile output.temporary)
    pure ()
  else pure ()

/-- The destination that is written to: an existing symbolic link is followed. -/
def followed (path : Path) : Output Path := do
  match ← call (.symlinkMetadata path) with
  | .ok true => mapError .io (attempt (Prog.request (Request.canonicalize path)))
  | .ok false => pure path
  | .error error => if error.kind = .notFound then pure path else throw (.io error)

/-- The permissions of an existing destination, which must be a regular file
that can be written. -/
def existing (path destination : Path) : Output (Option Nat) := do
  match ← call (.metadata destination) with
  | .ok metadata =>
    if ¬ metadata.isFile then throw (.notRegular path)
    else do
      mapError .io (attempt (Prog.request (Request.openWrite destination)))
      pure (some metadata.permissions)
  | .error error => if error.kind = .notFound then pure none else throw (.io error)

/-- `format!(".ckman-{:032x}.tmp", u128::from_be_bytes(random))`. -/
def temporaryName (random : Bytes) : String := ".ckman-" ++ hexEncode random ++ ".tmp"

/-- `output.set_permissions(permissions)?`: where it fails, the output is
dropped. -/
def restore (output : PreparedFile) (permissions : Option Nat) : Output PreparedFile :=
  match permissions with
  | none => pure output
  | some permissions => do
    match ← call (.setPermissions output.temporary permissions) with
    | .ok () => pure output
    | .error error => do
      Prog.bind output.drop fun _ => .pure (.ok ())
      throw (.io error)

def allocate (parent destination : Path) (permissions : Option Nat) (isPrivate : Bool) : Nat → Output PreparedFile
  | 0 => throw (.text "cannot allocate a temporary output file")
  | attempts + 1 => do
    let random ← mapError .random (attempt (Prog.request Request.fill))
    let temporary := parent.join (temporaryName random.val)
    match ← call (.createNew temporary (if isPrivate then some 0o600 else none)) with
    | .ok () => restore ⟨destination, temporary, some temporary⟩ (permissions.filter fun _ => !isPrivate)
    | .error error =>
      if error.kind = .alreadyExists then allocate parent destination permissions isPrivate attempts
      else throw (.io error)

/-- `PreparedFile::prepare`. -/
def prepare (path : Path) (isPrivate : Bool) : Output PreparedFile := do
  let destination ← followed path
  let permissions ← existing path destination
  let parent ← mapError .io (attempt (Prog.request
    (Request.canonicalize (((Path.parent destination).filter fun parent => parent ≠ []).getD [.curDir]))))
  let name ← orThrow (okOr (Path.fileName destination) (.text "output has no file name"))
  allocate parent (parent.join name) permissions isPrivate 8

/-- `Write::write_all`: the parts that the calls take, one after the other. -/
def writeAll (file : Path) (data : Bytes) : Fallible Answer IoError Unit :=
  if data = [] then pure ()
  else do
    let count ← attempt (Prog.request (Request.write file data))
    if _h : count = 0 then throw ⟨.other, "failed to write whole buffer"⟩
    else writeAll file (data.drop count)
termination_by data.length
decreasing_by
  have hdata : data.length ≠ 0 := fun h => ‹data ≠ []› (List.eq_nil_of_length_eq_zero h)
  rw [List.length_drop]
  omega

/-- The contents are complete and on the disk before the file is closed. -/
def fillFile (file : Path) (data : Bytes) : Fallible Answer IoError Unit := do
  writeAll file data
  attempt (Prog.request (Request.syncAll file))

/-- `PreparedFile::write`, with the output that it leaves. -/
def PreparedFile.write (output : PreparedFile) (data : Bytes) : Prog Answer (Except CliError Unit × PreparedFile) :=
  match output.file with
  | none => pure (.error (.text "output file was already written"), output)
  | some file => do
    match ← (fillFile file data : Prog Answer (Except IoError Unit)) with
    | .error error => pure (.error (.io error), output)
    | .ok () =>
      let _ ← Prog.request (Request.close file)
      let renamed ← Prog.request (Request.rename output.temporary output.destination)
      match renamed with
      -- The name is taken out, so the complete output is kept.
      | .error error =>
        pure (.error (.cannotReplace output.destination error output.temporary), ⟨output.destination, [], none⟩)
      | .ok () => pure (.ok (), ⟨output.destination, [], none⟩)

/-- The life of an output: it is prepared, written at most once, and dropped. -/
def useOutput (path : Path) (isPrivate : Bool) (data : Option Bytes) :
    Output (PreparedFile × Option (Except CliError Unit)) := do
  let output ← prepare path isPrivate
  match data with
  | none => Prog.bind output.drop fun _ => .pure (.ok (output, none))
  | some data =>
    Prog.bind (output.write data) fun (result, after) =>
      Prog.bind after.drop fun _ => .pure (.ok (output, some result))

structure File where
  contents : Bytes
  mode : Nat
  deriving DecidableEq, Repr

abbrev Files := Path → Option File

/-- The calls that make a name, move it and take it away, with their outcomes. -/
inductive FileEvent where
  | created (path : Path)
  | renamed (source target : Path) (result : Except IoError Unit)
  | removed (path : Path) (result : Except IoError Unit)
  deriving DecidableEq

@[ext] structure World where
  files : Files
  /-- The events so far, oldest first. -/
  events : List FileEvent

/-- `rename`, which does nothing where both names are the same. -/
def Files.rename (files : Files) (source target : Path) : Files :=
  if source = target then files
  else Function.update (Function.update files target (files source)) source none

/-- What a call does to the files. A failed write may have written anything to
its file, and a failed removal may have removed it. -/
def fileEffect : (q : Request) → Files → Answer q → Files → Prop
  | .createNew path mode, f, .ok (), g => f path = none ∧ ∃ masked,
    (∀ m, mode = some m → masked &&& m = masked) ∧ g = Function.update f path (some ⟨[], masked⟩)
  | .setPermissions path permissions, f, .ok (), g => ∃ file, f path = some file ∧
    g = Function.update f path (some { file with mode := permissions })
  | .write path data, f, .ok count, g => count ≤ data.length ∧ ∃ file, f path = some file ∧
    g = Function.update f path (some { file with contents := file.contents ++ data.take count })
  | .write path _, f, .error _, g => ∃ file contents, f path = some file ∧
    g = Function.update f path (some { file with contents := contents })
  | .rename source target, f, .ok (), g => g = f.rename source target
  | .removeFile path, f, .ok (), g => g = Function.update f path none
  | .removeFile path, f, .error _, g => g = f ∨ g = Function.update f path none
  | _, f, _, g => g = f

def eventOf : (q : Request) → Answer q → List FileEvent
  | .createNew path _, .ok () => [.created path]
  | .rename source target, r => [.renamed source target r]
  | .removeFile path, r => [.removed path r]
  | _, _ => []

def environment : Env Answer World
  | q, w, r, v => fileEffect q w.files r v.files ∧ v.events = w.events ++ eventOf q r

section Stages

variable {files : Files} {temporary destination : Path} {contents : Bytes} {w v : World}

/-- The temporary file is there with some contents; nothing else has changed. -/
def Opened (files : Files) (temporary : Path) (contents : Bytes) (w : World) : Prop :=
  files temporary = none ∧ w.events = [.created temporary] ∧
    ∃ mode, w.files = Function.update files temporary (some ⟨contents, mode⟩)

/-- The temporary file has been removed, or its removal has failed. -/
def Discarded (files : Files) (temporary : Path) (w : World) : Prop :=
  files temporary = none ∧ ∃ r, w.events = [.created temporary, .removed temporary r] ∧
    (w.files = files ∨ (∃ e, r = .error e) ∧ ∃ file, w.files = Function.update files temporary (some file))

/-- The temporary file, complete, has been renamed to the destination. -/
def Replaced (files : Files) (temporary destination : Path) (contents : Bytes) (w : World) : Prop :=
  files temporary = none ∧ w.events = [.created temporary, .renamed temporary destination (.ok ())] ∧
    ∃ mode, w.files = Files.rename (Function.update files temporary (some ⟨contents, mode⟩)) temporary destination

/-- The temporary file is complete, but renaming it has failed. -/
def Stranded (files : Files) (temporary destination : Path) (contents : Bytes) (w : World) : Prop :=
  files temporary = none ∧ (∃ e, w.events = [.created temporary, .renamed temporary destination (.error e)]) ∧
    ∃ mode, w.files = Function.update files temporary (some ⟨contents, mode⟩)

/-- The worlds of a run that writes `data`, wherever it is stopped. -/
inductive Stage (data : Option Bytes) (files : Files) (w : World) : Prop where
  | untouched : w = ⟨files, []⟩ → Stage data files w
  | opened (temporary : Path) (contents : Bytes) : Opened files temporary contents w → Stage data files w
  | discarded (temporary : Path) : Discarded files temporary w → Stage data files w
  | replaced (temporary destination : Path) (bytes : Bytes) : data = some bytes →
      Replaced files temporary destination bytes w → Stage data files w
  | stranded (temporary destination : Path) (bytes : Bytes) : data = some bytes →
      Stranded files temporary destination bytes w → Stage data files w

inductive Outcome (data : Option Bytes) (files : Files) :
    Except CliError (PreparedFile × Option (Except CliError Unit)) → World → Prop where
  | refused {e : CliError} {w : World} : w = ⟨files, []⟩ → Outcome data files (.error e) w
  | abandoned {e : CliError} {temporary : Path} {w : World} :
      Discarded files temporary w → Outcome data files (.error e) w
  | unused {output : PreparedFile} {w : World} : data = none →
      Discarded files output.temporary w → Outcome data files (.ok (output, none)) w
  | incomplete {output : PreparedFile} {bytes : Bytes} {e : CliError} {w : World} : data = some bytes →
      Discarded files output.temporary w → Outcome data files (.ok (output, some (.error e))) w
  | stranded {output : PreparedFile} {bytes : Bytes} {e : CliError} {w : World} : data = some bytes →
      Stranded files output.temporary output.destination bytes w →
        Outcome data files (.ok (output, some (.error e))) w
  | replaced {output : PreparedFile} {bytes : Bytes} {w : World} : data = some bytes →
      Replaced files output.temporary output.destination bytes w →
        Outcome data files (.ok (output, some (.ok ()))) w

/-- Creating the temporary file either opens it or leaves everything as it is. -/
def Created (files : Files) (temporary : Path) : Except IoError Unit → World → Prop
  | .ok (), w => Opened files temporary [] w
  | .error _, w => w = ⟨files, []⟩

theorem created_of_createNew {mode : Option Nat} {r : Except IoError Unit}
    (he : environment (.createNew temporary mode) ⟨files, []⟩ r v) : Created files temporary r v := by
  obtain ⟨newFiles, newEvents⟩ := v
  obtain ⟨heffect, hevents⟩ := he
  cases r with
  | error e =>
    cases heffect
    cases hevents
    rfl
  | ok done =>
    obtain ⟨habsent, masked, -, hfiles⟩ := heffect
    exact ⟨habsent, hevents, masked, hfiles⟩

theorem Opened.setPermissions {permissions : Nat} {r : Except IoError Unit} (h : Opened files temporary contents w)
    (he : environment (.setPermissions temporary permissions) w r v) : Opened files temporary contents v := by
  obtain ⟨habsent, hopened, mode, hfiles⟩ := h
  obtain ⟨heffect, hevents⟩ := he
  rw [hopened] at hevents
  cases r with
  | error e => exact ⟨habsent, hevents, mode, heffect.trans hfiles⟩
  | ok done =>
    obtain ⟨file, hfile, hset⟩ := heffect
    rw [hfiles, Function.update_self] at hfile
    cases hfile
    refine ⟨habsent, hevents, permissions, ?_⟩
    rw [hset, hfiles, Function.update_idem]

/-- A call that takes a part of the data puts it behind what the file had. -/
def Taken (files : Files) (temporary : Path) (contents data : Bytes) : Except IoError Nat → World → Prop
  | .ok count, w => Opened files temporary (contents ++ data.take count) w
  | .error _, w => ∃ left, Opened files temporary left w

theorem Opened.write {data : Bytes} {r : Except IoError Nat} (h : Opened files temporary contents w)
    (he : environment (.write temporary data) w r v) : Taken files temporary contents data r v := by
  obtain ⟨habsent, hopened, mode, hfiles⟩ := h
  obtain ⟨heffect, hevents⟩ := he
  rw [hopened] at hevents
  cases r with
  | error e =>
    obtain ⟨file, left, hfile, hwritten⟩ := heffect
    refine ⟨left, habsent, hevents, file.mode, ?_⟩
    rw [hwritten, hfiles, Function.update_idem]
  | ok count =>
    obtain ⟨-, file, hfile, hwritten⟩ := heffect
    rw [hfiles, Function.update_self] at hfile
    cases hfile
    refine ⟨habsent, hevents, mode, ?_⟩
    rw [hwritten, hfiles, Function.update_idem]

theorem Opened.removeFile {r : Except IoError Unit} (h : Opened files temporary contents w)
    (he : environment (.removeFile temporary) w r v) : Discarded files temporary v := by
  obtain ⟨habsent, hopened, mode, hfiles⟩ := h
  obtain ⟨heffect, hevents⟩ := he
  rw [hopened] at hevents
  have hgone : Function.update w.files temporary none = files := by
    rw [hfiles, Function.update_idem, ← habsent, Function.update_eq_self]
  refine ⟨habsent, r, hevents, ?_⟩
  cases r with
  | ok done => exact .inl (heffect.trans hgone)
  | error e =>
    rcases heffect with heffect | heffect
    · exact .inr ⟨⟨e, rfl⟩, _, heffect.trans hfiles⟩
    · exact .inl (heffect.trans hgone)

/-- Renaming either replaces the destination or leaves the complete file. -/
def Renamed (files : Files) (temporary destination : Path) (contents : Bytes) : Except IoError Unit → World → Prop
  | .ok (), w => Replaced files temporary destination contents w
  | .error _, w => Stranded files temporary destination contents w

theorem Opened.rename {r : Except IoError Unit} (h : Opened files temporary contents w)
    (he : environment (.rename temporary destination) w r v) :
    Renamed files temporary destination contents r v := by
  obtain ⟨habsent, hopened, mode, hfiles⟩ := h
  obtain ⟨heffect, hevents⟩ := he
  rw [hopened] at hevents
  cases r with
  | error e => exact ⟨habsent, ⟨e, hevents⟩, mode, heffect.trans hfiles⟩
  | ok done =>
    refine ⟨habsent, hevents, mode, ?_⟩
    rw [heffect, hfiles]

end Stages

/-- The requests that leave every file as it is. -/
def Request.looks : Request → Bool
  | .symlinkMetadata _ | .canonicalize _ | .metadata _ | .openWrite _ | .fill | .syncAll _ | .close _ => true
  | _ => false

theorem environment_looks {q : Request} {w v : World} {r : Answer q} (hq : q.looks = true)
    (he : environment q w r v) : v = w := by
  have hsame : ∀ {events : List FileEvent}, v.files = w.files → v.events = w.events ++ events → events = [] →
      v = w := by
    rintro events hfiles hevents rfl
    exact World.ext hfiles (hevents.trans (List.append_nil _))
  cases q with
  | symlinkMetadata path | canonicalize path | metadata path | openWrite path | fill | syncAll path | close path =>
    exact hsame he.1 he.2 rfl
  | createNew path mode | setPermissions path permissions | write path data | rename source target
  | removeFile path => exact nomatch hq

theorem followed_looks (path : Path) : Prog.Only (fun q => q.looks = true) (followed path) := by
  refine Fallible.only_bind ⟨rfl, fun _ => trivial⟩ fun answer => ?_
  rcases answer with error | _ | _
  · change Prog.Only _ (if error.kind = .notFound then pure path else throw (.io error) : Output Path)
    split <;> trivial
  · trivial
  · exact Fallible.only_mapError ⟨rfl, fun _ => trivial⟩

theorem existing_looks (path destination : Path) : Prog.Only (fun q => q.looks = true) (existing path destination) := by
  refine Fallible.only_bind ⟨rfl, fun _ => trivial⟩ fun answer => ?_
  rcases answer with error | metadata
  · change Prog.Only _ (if error.kind = .notFound then pure none else throw (.io error) : Output (Option Nat))
    split <;> trivial
  · change Prog.Only _ (if ¬ metadata.isFile then throw (.notRegular path)
      else do
        mapError .io (attempt (Prog.request (Request.openWrite destination)))
        pure (some metadata.permissions) : Output (Option Nat))
    split
    · trivial
    · exact Fallible.only_bind (Fallible.only_mapError ⟨rfl, fun _ => trivial⟩) fun _ => trivial

section Runs

variable {files : Files} {temporary destination : Path} {data : Option Bytes}

/-- Dropping an output whose file is open leaves no temporary file behind,
unless removing it fails. -/
theorem drop_ensures {contents : Bytes} {output : PreparedFile} (hfile : output.file = some output.temporary)
    (hname : output.temporary ≠ []) :
    Prog.Ensures environment (Opened files output.temporary contents) output.drop (Stage data files)
      fun _ => Discarded files output.temporary := by
  have hopened : ∀ w, Opened files output.temporary contents w → Stage data files w :=
    fun w hw => .opened output.temporary contents hw
  have hdrop : output.drop = .ask (Request.close output.temporary) fun _ =>
      .ask (Request.removeFile output.temporary) fun _ => .pure () := by
    rw [PreparedFile.drop, hfile]
    simp only [ne_eq, hname, not_false_eq_true, if_true]
    rfl
  rw [hdrop]
  refine .ask hopened (M := fun _ => Opened files output.temporary contents)
    (fun w r v hw he => environment_looks rfl he ▸ hw) fun _ => ?_
  refine .ask hopened (M := fun _ => Discarded files output.temporary)
    (fun w r v hw he => hw.removeFile he) fun _ => ?_
  exact .pure fun w hw => ⟨.discarded output.temporary hw, hw⟩

/-- What preparing leaves: an empty temporary file, or after a failure at most one
that could not be removed. -/
def Prepared (files : Files) : Except CliError PreparedFile → World → Prop
  | .ok output, w =>
    Opened files output.temporary [] w ∧ output.file = some output.temporary ∧ output.temporary ≠ []
  | .error _, w => w = ⟨files, []⟩ ∨ ∃ temporary, Discarded files temporary w

theorem looking_ensures {α : Type} {p : Output α} (hp : Prog.Only (fun q => q.looks = true) p) :
    Prog.Ensures environment (fun w => w = ⟨files, []⟩) p (Stage data files) fun _ w => w = ⟨files, []⟩ :=
  (Prog.Ensures.of_only (hp.imp fun _ hq _ _ _ he => environment_looks hq he)).weaken (fun _ hw => hw)
    (fun _ hw => .untouched hw) fun _ _ hw => hw

theorem restore_ensures {output : PreparedFile} (hfile : output.file = some output.temporary)
    (hname : output.temporary ≠ []) (permissions : Option Nat) :
    Prog.Ensures environment (Opened files output.temporary []) (restore output permissions) (Stage data files)
      (Prepared files) := by
  have hstage : ∀ w, Opened files output.temporary [] w → Stage data files w :=
    fun w hw => .opened output.temporary [] hw
  have hready : Prog.Ensures environment (Opened files output.temporary []) (pure output : Output PreparedFile)
      (Stage data files) (Prepared files) := .pure fun w hw => ⟨hstage w hw, hw, hfile, hname⟩
  cases permissions with
  | none => exact hready
  | some permissions =>
    refine .askValue hstage (M := fun _ => Opened files output.temporary [])
      (fun w r v hw he => hw.setPermissions he) fun r => ?_
    cases r with
    | ok done => exact hready
    | error e =>
      refine .andThen (P := fun _ => Discarded files output.temporary) ?_ (fun _ => ?_) ?_
      · refine .bind (drop_ensures hfile hname) fun _ => ?_
        exact .pure fun w hw => ⟨.discarded output.temporary hw, hw⟩
      · exact .pure fun w hw => ⟨.discarded output.temporary hw, .inr ⟨_, hw⟩⟩
      · intro e w hw
        exact ⟨.discarded output.temporary hw, .inr ⟨_, hw⟩⟩

theorem allocate_ensures (parent : Path) (permissions : Option Nat) (isPrivate : Bool) (attempts : Nat) :
    Prog.Ensures environment (fun w => w = ⟨files, []⟩) (allocate parent destination permissions isPrivate attempts)
      (Stage data files) (Prepared files) := by
  have hrefuse : ∀ e : CliError, Prog.Ensures environment (fun w => w = ⟨files, []⟩)
      (throw e : Output PreparedFile) (Stage data files) (Prepared files) :=
    fun e => .pure fun w hw => ⟨.untouched hw, .inl hw⟩
  induction attempts with
  | zero => exact hrefuse _
  | succ attempts ih =>
    refine .andThen (looking_ensures (Fallible.only_mapError ⟨rfl, fun _ => trivial⟩)) (fun random => ?_)
      fun e w hw => ⟨.untouched hw, .inl hw⟩
    refine .askValue (fun w hw => .untouched hw) (M := Created files (parent.join (temporaryName random.val)))
      ?_ fun r => ?_
    · rintro w r v rfl he
      exact created_of_createNew he
    · cases r with
      | error e =>
        by_cases hkind : e.kind = .alreadyExists
        · simp only [hkind, if_true]
          exact ih
        · simp only [hkind, if_false]
          exact hrefuse _
      | ok done =>
        have hname : parent.join (temporaryName random.val) ≠ [] := List.append_ne_nil_of_right_ne_nil _ (by simp)
        exact restore_ensures (show (⟨destination, _, some _⟩ : PreparedFile).file = some _ from rfl) hname _

/-- Until the temporary file is created, everything is as it was. -/
theorem prepare_ensures (path : Path) (isPrivate : Bool) :
    Prog.Ensures environment (fun w => w = ⟨files, []⟩) (prepare path isPrivate) (Stage data files)
      (Prepared files) := by
  have herror : ∀ (e : CliError) (w : World), w = ⟨files, []⟩ →
      Stage data files w ∧ Prepared files (.error e) w := fun e w hw => ⟨.untouched hw, .inl hw⟩
  refine .andThen (looking_ensures (followed_looks path)) (fun found => ?_) herror
  refine .andThen (looking_ensures (existing_looks path found)) (fun permissions => ?_) herror
  refine .andThen (looking_ensures (Fallible.only_mapError ⟨rfl, fun _ => trivial⟩)) (fun parent => ?_) herror
  refine .andThen (looking_ensures trivial) (fun name => ?_) herror
  exact allocate_ensures parent permissions isPrivate 8

/-- A write that is over has taken all of the data or has failed. -/
def Written (files : Files) (temporary : Path) (contents : Bytes) : Except IoError Unit → World → Prop
  | .ok (), w => Opened files temporary contents w
  | .error _, w => ∃ left, Opened files temporary left w

/-- Every turn of the loop moves a part of the data into the file. -/
theorem writeAll_ensures (bytes before : Bytes) :
    Prog.Ensures environment (Opened files temporary before) (writeAll temporary bytes) (Stage data files)
      (Written files temporary (before ++ bytes)) := by
  have hstage : ∀ contents w, Opened files temporary contents w → Stage data files w :=
    fun contents w hw => .opened temporary contents hw
  induction bytes using writeAll.induct generalizing before with
  | case1 => 
    rw [writeAll]
    simp only [if_true, List.append_nil]
    exact .pure fun w hw => ⟨hstage before w hw, hw⟩
  | case2 bytes hbytes ih =>
    have hunfold : writeAll temporary bytes = attempt (Prog.request (Request.write temporary bytes)) >>= fun count =>
        if count = 0 then throw ⟨.other, "failed to write whole buffer"⟩
        else writeAll temporary (bytes.drop count) := by
      rw [writeAll]
      simp only [hbytes, if_false, dite_eq_ite]
    rw [hunfold]
    refine .andThen (P := Taken files temporary before bytes) (.request (hstage before) ?_) (fun count => ?_) ?_
    · rintro w (e | count) v hw he
      · obtain ⟨left, hv⟩ := hw.write he
        exact ⟨hstage left v hv, left, hv⟩
      · exact ⟨hstage _ v (hw.write he), hw.write he⟩
    · by_cases hcount : count = 0
      · simp only [hcount, if_true]
        exact .pure fun w hw => ⟨hstage _ w hw, _, hw⟩
      · simp only [hcount, if_false]
        have hrest := ih count hcount (before ++ bytes.take count)
        rw [List.append_assoc, List.take_append_drop] at hrest
        exact hrest
    · rintro e w ⟨left, hw⟩
      exact ⟨hstage left w hw, left, hw⟩

theorem fillFile_ensures (bytes : Bytes) :
    Prog.Ensures environment (Opened files temporary []) (fillFile temporary bytes) (Stage data files)
      (Written files temporary bytes) := by
  refine .andThen (writeAll_ensures bytes []) (fun done => .request (fun w hw => .opened temporary _ hw) ?_) ?_
  · intro w r v hw he
    obtain rfl := environment_looks rfl he
    refine ⟨.opened temporary bytes hw, ?_⟩
    cases r with
    | error e => exact ⟨bytes, hw⟩
    | ok done => exact hw
  · rintro e w ⟨left, hw⟩
    exact ⟨.opened temporary left hw, left, hw⟩

/-- What writing leaves, and what dropping is to do after it: only an output whose
name is still there has something to remove. -/
inductive Finished (files : Files) (output : PreparedFile) (bytes : Bytes) :
    Except CliError Unit × PreparedFile → World → Prop where
  | incomplete {e : CliError} {left : Bytes} {w : World} : Opened files output.temporary left w →
      Finished files output bytes (.error e, output) w
  | stranded {e : CliError} {w : World} : Stranded files output.temporary output.destination bytes w →
      Finished files output bytes (.error e, ⟨output.destination, [], none⟩) w
  | replaced {w : World} : Replaced files output.temporary output.destination bytes w →
      Finished files output bytes (.ok (), ⟨output.destination, [], none⟩) w

theorem write_ensures {output : PreparedFile} {bytes : Bytes} (hdata : data = some bytes)
    (hfile : output.file = some output.temporary) :
    Prog.Ensures environment (Opened files output.temporary []) (output.write bytes) (Stage data files)
      (Finished files output bytes) := by
  have hopened : ∀ w, Opened files output.temporary bytes w → Stage data files w :=
    fun w hw => .opened output.temporary bytes hw
  rw [PreparedFile.write, hfile]
  refine .bind (fillFile_ensures bytes) fun filled => ?_
  cases filled with
  | error e => exact .pure fun w ⟨left, hw⟩ => ⟨.opened output.temporary left hw, .incomplete hw⟩
  | ok done =>
    refine .bind (P := fun _ => Opened files output.temporary bytes) (.request hopened ?_) fun _ => ?_
    · intro w r v hw he
      obtain rfl := environment_looks rfl he
      exact ⟨hopened v hw, hw⟩
    refine .bind (P := Renamed files output.temporary output.destination bytes) (.request hopened ?_)
      fun renamed => ?_
    · intro w r v hw he
      have hv := hw.rename he
      cases r with
      | error e => exact ⟨.stranded output.temporary output.destination bytes hdata hv, hv⟩
      | ok done => exact ⟨.replaced output.temporary output.destination bytes hdata hv, hv⟩
    cases renamed with
    | error e => exact .pure fun w hw => ⟨.stranded _ _ bytes hdata hw, .stranded hw⟩
    | ok done => exact .pure fun w hw => ⟨.replaced _ _ bytes hdata hw, .replaced hw⟩

/-- Every run goes through the stages of an output and ends in an outcome of it. -/
theorem useOutput_ensures (path : Path) (isPrivate : Bool) (data : Option Bytes) :
    Prog.Ensures environment (fun w => w = ⟨files, []⟩) (useOutput path isPrivate data) (Stage data files)
      (Outcome data files) := by
  refine .andThen (prepare_ensures path isPrivate) (fun output => ?_) ?_
  · refine .each fun w ⟨hw, hfile, hname⟩ => ⟨Opened files output.temporary [], hw, ?_⟩
    cases data with
    | none =>
      refine .bind (drop_ensures hfile hname) fun done => ?_
      exact .pure fun v hv => ⟨.discarded output.temporary hv, .unused rfl hv⟩
    | some bytes =>
      refine .bind (write_ensures rfl hfile) fun (result, after) => .each fun v hv => ?_
      cases hv with
      | @incomplete e left v hv =>
        refine ⟨Opened files output.temporary left, hv, .bind (drop_ensures hfile hname) fun done => ?_⟩
        exact .pure fun x hx => ⟨.discarded output.temporary hx, .incomplete rfl hx⟩
      | stranded hv =>
        exact ⟨_, hv, .pure fun x hx => ⟨.stranded _ _ bytes rfl hx, .stranded rfl hx⟩⟩
      | replaced hv =>
        exact ⟨_, hv, .pure fun x hx => ⟨.replaced _ _ bytes rfl hx, .replaced rfl hx⟩⟩
  · rintro e w (hw | ⟨temporary, hw⟩)
    · exact ⟨.untouched hw, .refused hw⟩
    · exact ⟨.discarded temporary hw, .abandoned hw⟩

end Runs

def World.Holds (w : World) (path : Path) (bytes : Bytes) : Prop :=
  ∃ file, w.files path = some file ∧ file.contents = bytes

def World.RemovalFailed (w : World) (path : Path) : Prop := ∃ e, .removed path (.error e) ∈ w.events

def World.RenameFailed (w : World) (source target : Path) : Prop :=
  ∃ e, .renamed source target (.error e) ∈ w.events

/-- A path is as it was before, or it holds exactly the complete new bytes. -/
def OldOrNew (data : Option Bytes) (files : Files) (w : World) (path : Path) : Prop :=
  w.files path = files path ∨ ∃ bytes, data = some bytes ∧ w.Holds path bytes

section Stages

variable {data : Option Bytes} {files : Files} {temporary destination path : Path} {contents : Bytes} {w : World}

theorem Opened.other (h : Opened files temporary contents w) (hpath : path ≠ temporary) :
    w.files path = files path := by
  obtain ⟨-, -, mode, hfiles⟩ := h
  rw [hfiles, Function.update_of_ne hpath]

theorem Discarded.other (h : Discarded files temporary w) (hpath : path ≠ temporary) : w.files path = files path := by
  obtain ⟨-, r, -, hfiles | ⟨-, file, hfiles⟩⟩ := h
  · rw [hfiles]
  · rw [hfiles, Function.update_of_ne hpath]

theorem Discarded.gone (h : Discarded files temporary w) : w.files temporary = none ∨ w.RemovalFailed temporary := by
  obtain ⟨habsent, r, hevents, hfiles | ⟨⟨e, rfl⟩, -⟩⟩ := h
  · exact .inl (hfiles ▸ habsent)
  · exact .inr ⟨e, by simp [hevents]⟩

theorem Replaced.holds (h : Replaced files temporary destination contents w) : w.Holds destination contents := by
  obtain ⟨-, -, mode, hfiles⟩ := h
  refine ⟨⟨contents, mode⟩, ?_, rfl⟩
  rw [hfiles, Files.rename]
  by_cases hsame : temporary = destination
  · simp [hsame]
  · simp [hsame, Function.update_of_ne (Ne.symm hsame)]

theorem Replaced.gone (h : Replaced files temporary destination contents w) (hdistinct : temporary ≠ destination) :
    w.files temporary = none := by
  obtain ⟨-, -, mode, hfiles⟩ := h
  rw [hfiles, Files.rename, if_neg hdistinct, Function.update_self]

theorem Replaced.other (h : Replaced files temporary destination contents w) (hpath : path ≠ temporary)
    (hother : path ≠ destination) : w.files path = files path := by
  obtain ⟨-, -, mode, hfiles⟩ := h
  rw [hfiles, Files.rename]
  by_cases hsame : temporary = destination
  · rw [if_pos hsame, Function.update_of_ne hpath]
  · rw [if_neg hsame, Function.update_of_ne hpath, Function.update_of_ne hother, Function.update_of_ne hpath]

theorem Stranded.opened (h : Stranded files temporary destination contents w) :
    (∀ path, path ≠ temporary → w.files path = files path) ∧ w.Holds temporary contents ∧
      w.RenameFailed temporary destination := by
  obtain ⟨-, ⟨e, hevents⟩, mode, hfiles⟩ := h
  refine ⟨fun path hpath => ?_, ⟨⟨contents, mode⟩, ?_, rfl⟩, e, by simp [hevents]⟩
  · rw [hfiles, Function.update_of_ne hpath]
  · rw [hfiles, Function.update_self]

theorem Discarded.created_iff (h : Discarded files temporary w) {path : Path} :
    .created path ∈ w.events ↔ path = temporary := by
  obtain ⟨-, r, hevents, -⟩ := h
  simp [hevents]

theorem Replaced.created_iff (h : Replaced files temporary destination contents w) {path : Path} :
    .created path ∈ w.events ↔ path = temporary := by
  simp [h.2.1]

theorem Stranded.created_iff (h : Stranded files temporary destination contents w) {path : Path} :
    .created path ∈ w.events ↔ path = temporary := by
  obtain ⟨-, ⟨e, hevents⟩, -⟩ := h
  simp [hevents]

/-- A run makes one name, its temporary file's, where nothing was; every other path
is as it was before or complete. -/
theorem Stage.cases (h : Stage data files w) : w = ⟨files, []⟩ ∨ ∃ temporary, files temporary = none ∧
    (∀ path, .created path ∈ w.events ↔ path = temporary) ∧
    ∀ path, path ≠ temporary → OldOrNew data files w path := by
  cases h with
  | untouched h => exact .inl h
  | opened temporary contents h =>
    exact .inr ⟨temporary, h.1, fun path => by simp [h.2.1], fun path hpath => .inl (h.other hpath)⟩
  | discarded temporary h =>
    exact .inr ⟨temporary, h.1, fun _ => h.created_iff, fun path hpath => .inl (h.other hpath)⟩
  | replaced temporary destination bytes hdata h =>
    refine .inr ⟨temporary, h.1, fun _ => h.created_iff, fun path hpath => ?_⟩
    by_cases hdestination : path = destination
    · exact .inr ⟨bytes, hdata, hdestination ▸ h.holds⟩
    · exact .inl (h.other hpath hdestination)
  | stranded temporary destination bytes hdata h =>
    exact .inr ⟨temporary, h.1, fun _ => h.created_iff, fun path hpath => .inl (h.opened.1 path hpath)⟩

/-- The temporary file is gone, unless removing it or renaming it has failed; after
a failed renaming it is complete. -/
def CleanedUp (data : Option Bytes) (w : World) (temporary destination : Path) : Prop :=
  (w.files temporary = none ∨ w.RemovalFailed temporary ∨ w.RenameFailed temporary destination) ∧
    (w.RenameFailed temporary destination → ∃ bytes, data = some bytes ∧ w.Holds temporary bytes)

theorem Discarded.cleanedUp (h : Discarded files temporary w) : CleanedUp data w temporary destination := by
  refine ⟨?_, ?_⟩
  · rcases h.gone with hgone | hfailed
    · exact .inl hgone
    · exact .inr (.inl hfailed)
  · rintro ⟨e, he⟩
    obtain ⟨-, r, hevents, -⟩ := h
    simp [hevents] at he

end Stages

/-- The destination of a path, by the answers of the file system: the path itself,
or the target of the link that it is, under the real path of its directory. -/
def Destined (path : Path) (tr : List (Interaction.Event Answer)) (destination : Path) : Prop :=
  ∃ found parent name,
    ((∃ answer, answer ≠ .ok true ∧ ⟨.symlinkMetadata path, answer⟩ ∈ tr ∧ found = path) ∨
      ⟨.symlinkMetadata path, .ok true⟩ ∈ tr ∧ ⟨.canonicalize path, .ok found⟩ ∈ tr) ∧
    ⟨.canonicalize (((Path.parent found).filter fun parent => parent ≠ []).getD [.curDir]), .ok parent⟩ ∈ tr ∧
    Path.fileName found = some name ∧ destination = parent.join name

section Traces

variable {tr : List (Interaction.Event Answer)} {path destination : Path} {output : PreparedFile}

/-- An existing link is followed, and nothing else is. -/
theorem followed_traces {found : Path} (h : Fallible.Traces (followed path) tr (some (.ok found))) :
    (∃ answer, answer ≠ .ok true ∧ ⟨.symlinkMetadata path, answer⟩ ∈ tr ∧ found = path) ∨
      ⟨.symlinkMetadata path, .ok true⟩ ∈ tr ∧ ⟨.canonicalize path, .ok found⟩ ∈ tr := by
  rcases Trace.ask_iff.mp h with ⟨-, hnone⟩ | ⟨answer, rest, rfl, hnext⟩
  · cases hnone
  rcases answer with error | _ | _
  · change Trace (if error.kind = .notFound then pure path else throw (.io error) : Output Path) rest _ at hnext
    split at hnext
    · obtain ⟨-, hfound⟩ := Trace.pure_iff.mp hnext
      cases hfound
      exact .inl ⟨.error error, (fun h => by cases h), List.mem_cons_self, rfl⟩
    · cases (Trace.pure_iff.mp hnext).2
  · obtain ⟨-, hfound⟩ := Trace.pure_iff.mp hnext
    cases hfound
    exact .inl ⟨.ok false, (fun h => by cases h), List.mem_cons_self, rfl⟩
  · obtain ⟨o, ho, hanswer⟩ := Fallible.traces_mapError_iff.mp hnext
    rcases Fallible.traces_request_iff.mp hanswer with ⟨-, rfl⟩ | ⟨r, rfl, rfl⟩
    · cases ho
    · rcases r with error | target <;> cases ho
      exact .inr ⟨List.mem_cons_self, List.mem_cons_of_mem _ List.mem_cons_self⟩

theorem drop_traces {α : Type} {a : α} {o : Option α}
    (h : Trace (Prog.bind output.drop fun _ => .pure a) tr o) : o = none ∨ o = some a := by
  rcases Trace.bind_iff.mp h with ⟨hnone, -⟩ | ⟨_, _, rest, -, -, hrest⟩
  · exact .inl hnone
  · exact .inr (Trace.pure_iff.mp hrest).2

theorem restore_traces {permissions : Option Nat} {prepared : PreparedFile}
    (h : Fallible.Traces (restore output permissions) tr (some (.ok prepared))) : prepared = output := by
  cases permissions with
  | none =>
    obtain ⟨-, hprepared⟩ := Trace.pure_iff.mp h
    cases hprepared
    rfl
  | some permissions =>
    rcases Trace.ask_iff.mp h with ⟨-, hnone⟩ | ⟨answer, rest, -, h⟩
    · cases hnone
    cases answer with
    | ok done =>
      obtain ⟨-, hprepared⟩ := Trace.pure_iff.mp h
      cases hprepared
      rfl
    | error error =>
      obtain ⟨_, _, last, -, -, h⟩ := Fallible.traces_bind_ok_iff.mp h
      cases (Trace.pure_iff.mp h).2

theorem allocate_traces {parent : Path} {permissions : Option Nat} {isPrivate : Bool} {attempts : Nat}
    (h : Fallible.Traces (allocate parent destination permissions isPrivate attempts) tr (some (.ok output))) :
    output.destination = destination := by
  induction attempts generalizing tr with
  | zero => cases (Trace.pure_iff.mp h).2
  | succ attempts ih =>
    obtain ⟨random, _, rest, -, -, h⟩ := Fallible.traces_bind_ok_iff.mp h
    rcases Trace.ask_iff.mp h with ⟨-, hnone⟩ | ⟨answer, last, -, h⟩
    · cases hnone
    cases answer with
    | ok done => rw [restore_traces h]
    | error error =>
      change Trace (if error.kind = .alreadyExists then allocate parent destination permissions isPrivate attempts
        else throw (.io error) : Output PreparedFile) last _ at h
      split at h
      · exact ih h
      · cases (Trace.pure_iff.mp h).2

theorem prepare_traces {isPrivate : Bool} (h : Fallible.Traces (prepare path isPrivate) tr (some (.ok output))) :
    Destined path tr output.destination := by
  obtain ⟨found, first, rest, rfl, hfound, h⟩ := Fallible.traces_bind_ok_iff.mp h
  obtain ⟨permissions, second, rest, rfl, -, h⟩ := Fallible.traces_bind_ok_iff.mp h
  obtain ⟨parent, third, rest, rfl, hparent, h⟩ := Fallible.traces_bind_ok_iff.mp h
  obtain ⟨name, fourth, last, rfl, hname, h⟩ := Fallible.traces_bind_ok_iff.mp h
  have hfileName : Path.fileName found = some name := by
    obtain ⟨-, hname⟩ := Trace.pure_iff.mp hname
    cases hnamed : Path.fileName found <;> rw [hnamed] at hname <;> cases hname
    rfl
  obtain ⟨o, ho, hparent⟩ := Fallible.traces_mapError_iff.mp hparent
  refine ⟨found, parent, name, ?_, ?_, hfileName, allocate_traces h⟩
  · rcases followed_traces hfound with ⟨answer, hanswer, hlooked, hsame⟩ | ⟨hlooked, htarget⟩
    · exact .inl ⟨answer, hanswer, List.mem_append_left _ hlooked, hsame⟩
    · exact .inr ⟨List.mem_append_left _ hlooked, List.mem_append_left _ htarget⟩
  · rcases Fallible.traces_request_iff.mp hparent with ⟨-, rfl⟩ | ⟨r, rfl, rfl⟩
    · cases ho
    · rcases r with error | target <;> cases ho
      exact List.mem_append_right _ (List.mem_append_right _ List.mem_cons_self)

/-- What is written and dropped is what was prepared. -/
theorem useOutput_traces {isPrivate : Bool} {data : Option Bytes} {written : Option (Except CliError Unit)}
    (h : Fallible.Traces (useOutput path isPrivate data) tr (some (.ok (output, written)))) :
    Destined path tr output.destination := by
  obtain ⟨prepared, first, rest, rfl, hprepared, h⟩ := Fallible.traces_bind_ok_iff.mp h
  have hsame : prepared = output := by
    cases data with
    | none =>
      rcases drop_traces h with hnone | hsome
      · cases hnone
      · cases hsome
        rfl
    | some bytes =>
      rcases Trace.bind_iff.mp h with ⟨hnone, -⟩ | ⟨result, _, last, -, -, h⟩
      · cases hnone
      rcases drop_traces h with hnone | hsome
      · cases hnone
      · cases hsome
        rfl
  subst hsame
  obtain ⟨found, parent, name, hfound, hparent, hname, hdestination⟩ := prepare_traces hprepared
  refine ⟨found, parent, name, ?_, List.mem_append_left _ hparent, hname, hdestination⟩
  rcases hfound with ⟨answer, hanswer, hlooked, hpath⟩ | ⟨hlooked, htarget⟩
  · exact .inl ⟨answer, hanswer, List.mem_append_left _ hlooked, hpath⟩
  · exact .inr ⟨List.mem_append_left _ hlooked, List.mem_append_left _ htarget⟩

end Traces

/-- A file is replaced as a whole or not at all, wherever the run ends. The one file
that is made, in a place where nothing was, is the temporary one; every other path
holds what it held or the complete new bytes. The destination is the one that the
file system names for the path. A temporary file that is not the
destination itself leaves the destination alone unless writing has succeeded, and
is cleaned up. -/
theorem useOutput_atomic {path : Path} {isPrivate : Bool} {data : Option Bytes} {files : Files}
    {o : Option (Except CliError (PreparedFile × Option (Except CliError Unit)))} {u : World}
    (hr : Fallible.Runs environment (useOutput path isPrivate data) ⟨files, []⟩ o u) :
    (∀ p, .created p ∈ u.events → files p = none ∧ ∀ q, .created q ∈ u.events → q = p) ∧
    (∀ p, .created p ∉ u.events → OldOrNew data files u p) ∧
    (∀ e, o = some (.error e) → ∀ p, u.files p = files p ∨ .created p ∈ u.events ∧ u.RemovalFailed p) ∧
    ∀ output written, o = some (.ok (output, written)) → .created output.temporary ∈ u.events ∧
      (∃ tr, Fallible.Traces (useOutput path isPrivate data) tr o ∧ Leads environment ⟨files, []⟩ tr u ∧
        Destined path tr output.destination) ∧
      (written = some (.ok ()) → ∃ bytes, data = some bytes ∧ u.Holds output.destination bytes) ∧
      (output.temporary ≠ output.destination →
        (written ≠ some (.ok ()) → u.files output.destination = files output.destination) ∧
        CleanedUp data u output.temporary output.destination) := by
  obtain ⟨hstage, houtcome⟩ := useOutput_ensures path isPrivate data ⟨files, []⟩ o u rfl hr
  refine ⟨?_, ?_, ?_, ?_⟩
  · intro p hp
    rcases hstage.cases with rfl | ⟨temporary, habsent, hcreated, -⟩
    · cases hp
    · obtain rfl := (hcreated p).mp hp
      exact ⟨habsent, fun q hq => (hcreated q).mp hq⟩
  · intro p hp
    rcases hstage.cases with rfl | ⟨temporary, -, hcreated, hothers⟩
    · exact .inl rfl
    · exact hothers p fun hsame => hp ((hcreated p).mpr hsame)
  · intro e ho p
    cases houtcome _ ho with
    | refused hu => exact .inl (by rw [hu])
    | @abandoned _ temporary _ hu =>
      by_cases hp : p = temporary
      · subst hp
        rcases hu.gone with hgone | hfailed
        · exact .inl (hgone.trans hu.1.symm)
        · exact .inr ⟨hu.created_iff.mpr rfl, hfailed⟩
      · exact .inl (hu.other hp)
  · intro output written ho
    obtain ⟨tr, htr, hleads⟩ := Run.iff_trace.mp hr
    have hplaced : ∃ tr, Fallible.Traces (useOutput path isPrivate data) tr o ∧
        Leads environment ⟨files, []⟩ tr u ∧ Destined path tr output.destination :=
      ⟨tr, htr, hleads, useOutput_traces (ho ▸ htr)⟩
    cases houtcome _ ho with
    | unused hdata hu | incomplete hdata hu =>
      exact ⟨hu.created_iff.mpr rfl, hplaced, (fun h => by cases h),
        fun hdistinct => ⟨fun _ => hu.other hdistinct.symm, hu.cleanedUp⟩⟩
    | stranded hdata hu =>
      obtain ⟨hothers, hholds, hfailed⟩ := hu.opened
      refine ⟨hu.created_iff.mpr rfl, hplaced, (fun h => by cases h),
        fun hdistinct => ⟨fun _ => hothers _ hdistinct.symm, ?_⟩⟩
      exact ⟨.inr (.inr hfailed), fun _ => ⟨_, hdata, hholds⟩⟩
    | replaced hdata hu =>
      refine ⟨hu.created_iff.mpr rfl, hplaced, fun _ => ⟨_, hdata, hu.holds⟩, fun hdistinct => ?_⟩
      refine ⟨fun hfailed => absurd rfl hfailed, .inl (hu.gone hdistinct), ?_⟩
      rintro ⟨e, he⟩
      simp [hu.2.1] at he

namespace Fixture

def missing : IoError := ⟨.notFound, "No such file or directory (os error 2)"⟩

def full : IoError := ⟨.other, "No space left on device (os error 28)"⟩

def busy : IoError := ⟨.other, "Device or resource busy (os error 16)"⟩

/-- A disk that takes one byte at a time. A call that is told to fail changes
nothing. -/
def answer : Bool → (q : Request) → World → Option (Answer q × World)
  | true, .symlinkMetadata path, w => some (if (w.files path).isSome then .ok false else .error missing, w)
  | true, .canonicalize path, w => some (.ok path, w)
  | true, .metadata path, w => some ((w.files path).elim (.error missing) fun file => .ok ⟨true, file.mode⟩, w)
  | true, .openWrite _, w => some (.ok (), w)
  | true, .fill, w => some (.ok ⟨List.replicate 16 0, rfl⟩, w)
  | true, .createNew path mode, w =>
    if w.files path = none then
      some (.ok (), ⟨Function.update w.files path (some ⟨[], mode.getD 0o644⟩), w.events ++ [.created path]⟩)
    else none
  | true, .setPermissions path permissions, w => (w.files path).map fun file =>
    (.ok (), ⟨Function.update w.files path (some { file with mode := permissions }), w.events⟩)
  | true, .write path data, w => (w.files path).map fun file => (.ok (min 1 data.length),
    ⟨Function.update w.files path
      (some { file with contents := file.contents ++ data.take (min 1 data.length) }), w.events⟩)
  | false, .write path _, w => (w.files path).map fun file =>
    (.error full, ⟨Function.update w.files path (some file), w.events⟩)
  | true, .syncAll _, w => some (.ok (), w)
  | true, .close _, w => some ((), w)
  | true, .rename source target, w =>
    some (.ok (), ⟨w.files.rename source target, w.events ++ [.renamed source target (.ok ())]⟩)
  | false, .removeFile path, w => some (.error busy, ⟨w.files, w.events ++ [.removed path (.error busy)]⟩)
  | _, _, _ => none

theorem answer_environment (works : Bool) (q : Request) (w : World) (r : Answer q) (v : World)
    (h : answer works q w = some (r, v)) : environment q w r v := by
  have hsame : ∀ (q : Request) (r : Answer q) (w : World), fileEffect q w.files r w.files →
      eventOf q r = [] → environment q w r w := fun q r w he hevent => ⟨he, by rw [hevent, List.append_nil]⟩
  cases q with
  | symlinkMetadata path | canonicalize path | metadata path | openWrite path | syncAll path | close path | fill =>
    cases works <;> cases h
    exact hsame _ _ _ rfl rfl
  | createNew path mode =>
    cases works with
    | false => cases h
    | true =>
      simp only [answer] at h
      split at h
      · next habsent =>
        cases h
        refine ⟨⟨habsent, mode.getD 0o644, ?_, rfl⟩, rfl⟩
        rintro m rfl
        exact Nat.and_self m
      · cases h
  | setPermissions path permissions =>
    cases works with
    | false => cases h
    | true =>
      obtain ⟨file, hfile, h⟩ := Option.map_eq_some_iff.mp h
      cases h
      exact ⟨⟨file, hfile, rfl⟩, (List.append_nil _).symm⟩
  | write path data =>
    cases works with
    | false =>
      obtain ⟨file, hfile, h⟩ := Option.map_eq_some_iff.mp h
      cases h
      exact ⟨⟨file, file.contents, hfile, rfl⟩, (List.append_nil _).symm⟩
    | true =>
      obtain ⟨file, hfile, h⟩ := Option.map_eq_some_iff.mp h
      cases h
      exact ⟨⟨Nat.min_le_right 1 data.length, file, hfile, rfl⟩, (List.append_nil _).symm⟩
  | rename source target =>
    cases works <;> cases h
    exact ⟨rfl, rfl⟩
  | removeFile path =>
    cases works <;> cases h
    exact ⟨.inl rfl, rfl⟩

def temporary : Path := [.rootDir, .normal ".ckman-00000000000000000000000000000000.tmp"]

/-- A file with these contents at `key.pem`. -/
def previous : Files := Function.update (fun _ => none) [.rootDir, .normal "key.pem"] (some ⟨[9, 9, 9], 0o640⟩)

def replaced : Option (Except CliError (PreparedFile × Option (Except CliError Unit))) × World :=
  follow answer (List.replicate 15 true) (useOutput [.rootDir, .normal "key.pem"] false (some [1, 2]))
    ⟨previous, []⟩

/-- The destination is new and has the name that is drawn for the temporary file;
the second byte does not fit, and the file cannot be removed. -/
def collided : Option (Except CliError (PreparedFile × Option (Except CliError Unit))) × World :=
  follow answer [true, true, true, true, true, true, false, true, false]
    (useOutput temporary false (some [1, 2])) ⟨fun _ => none, []⟩

end Fixture

/-- The destination of a completed output holds the new bytes, and nothing else is left. -/
theorem useOutput_atomic_replaced :
    Fixture.replaced.2.Holds [.rootDir, .normal "key.pem"] [1, 2] ∧
      CleanedUp (some [1, 2]) Fixture.replaced.2 Fixture.temporary [.rootDir, .normal "key.pem"] := by
  have h := useOutput_atomic (run_follow Fixture.answer_environment (List.replicate 15 true)
    (useOutput [.rootDir, .normal "key.pem"] false (some [1, 2])) ⟨Fixture.previous, []⟩)
  have hresult : Fixture.replaced.1 = some (.ok (⟨[.rootDir, .normal "key.pem"], Fixture.temporary,
      some Fixture.temporary⟩, some (.ok ()))) := by decide +kernel
  obtain ⟨-, -, hok, hclean⟩ := h.2.2.2 _ _ hresult
  obtain ⟨bytes, hdata, hholds⟩ := hok rfl
  cases hdata
  exact ⟨hholds, (hclean (by decide)).2⟩

/-- A partial file at the destination: the random name of the temporary file is
that of a destination that does not exist yet. -/
theorem useOutput_partial :
    ∃ output e u, Fallible.Runs environment (useOutput Fixture.temporary false (some [1, 2])) ⟨fun _ => none, []⟩
        (some (.ok (output, some (.error e)))) u ∧
      output.destination = Fixture.temporary ∧ u.Holds output.destination [1] ∧
      ¬ OldOrNew (some [1, 2]) (fun _ => none) u output.destination := by
  have hrun := run_follow Fixture.answer_environment [true, true, true, true, true, true, false, true, false]
    (useOutput Fixture.temporary false (some [1, 2])) ⟨fun _ => none, []⟩
  have hresult : Fixture.collided.1 = some (.ok (⟨Fixture.temporary, Fixture.temporary, some Fixture.temporary⟩,
      some (.error (.io Fixture.full)))) := by decide +kernel
  have hfile : Fixture.collided.2.files Fixture.temporary = some ⟨[1], 0o644⟩ := by decide +kernel
  refine ⟨⟨Fixture.temporary, Fixture.temporary, some Fixture.temporary⟩, .io Fixture.full, Fixture.collided.2,
    ?_, rfl, ⟨⟨[1], 0o644⟩, hfile, rfl⟩, ?_⟩
  · rw [← hresult]
    exact hrun
  · rintro (hold | ⟨bytes, hdata, file, hnew, hcontents⟩)
    · cases hfile.symm.trans hold
    · cases hdata
      cases hfile.symm.trans hnew
      cases hcontents

end OutputFile
