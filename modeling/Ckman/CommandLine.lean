import Ckman.Piv

/-!
# The command line around a PIV session

A command talks to the card, prompts its user and keeps a recovery file. Every
call of the operating system may fail, and a failed one may have done part of
its work. A file is durable when both its contents and its directory entry
have been synchronised.
-/
namespace CommandLine

open Host Interaction
open Piv (PivError Crates Card Device)

/-- The components of a Unix path, as `Path::components` yields them. -/
inductive Component where
  | rootDir | curDir | parentDir
  | normal (name : String)
  deriving DecidableEq, Repr

/-- Paths are compared by their components. -/
abbrev Path := List Component

/-- `Path::parent`. -/
def Path.parent (path : Path) : Option Path :=
  match path.getLast? with
  | none => none
  | some .rootDir => none
  | some _ => some path.dropLast

/-- `Path::file_name`. -/
def Path.fileName (path : Path) : Option String :=
  match path.getLast? with
  | some (.normal name) => some name
  | _ => none

/-- `Path::join` with a relative name. -/
def Path.join (path : Path) (name : String) : Path := path ++ [.normal name]

theorem Path.parent_join (path : Path) (name : String) :
    Path.parent (Path.join path name) = some path := by
  simp [Path.parent, Path.join]

inductive Request where
  | card (request : Piv.Request)
  /-- `rpassword::prompt_password`. -/
  | prompt (text : String)
  /-- A yes-or-no question, answered on standard input. -/
  | confirm (text : String)
  | currentDir
  | canonicalize (path : Path)
  /-- Open for writing; the file must not exist. -/
  | createNew (path : Path)
  | writeAll (path : Path) (contents : Bytes)
  | syncAll (path : Path)
  | removeFile (path : Path)
  /-- `sync_directory` opens a directory and synchronises it. -/
  | syncDirectory (path : Path)
  deriving DecidableEq, Repr

abbrev Answer : Request → Type
  | .card request => Piv.Answer IoError request
  | .prompt _ => Except IoError String
  | .confirm _ => Except IoError Bool
  | .currentDir => Except IoError Path
  | .canonicalize _ => Except IoError Path
  | .createNew _ => Except IoError Unit
  | .writeAll _ _ => Except IoError Unit
  | .syncAll _ => Except IoError Unit
  | .removeFile _ => Except IoError Unit
  | .syncDirectory _ => Except IoError Unit

/-- The errors of a command. A message that is formatted from values is kept
as these values. -/
inductive CliError where
  | text (message : String)
  | io (error : IoError)
  | random (error : RandomError)
  | piv (error : PivError IoError)
  /-- `cannot prompt for input ({prompt:?}): {error}; is a terminal attached?` -/
  | cannotPrompt (prompt : String) (error : IoError)
  /-- `cannot create management key recovery file {path}: {error}` -/
  | cannotCreate (path : Path) (error : IoError)
  /-- `cannot persist management key recovery file {path}: {error}; management key was not changed` -/
  | cannotPersist (path : Path) (error : IoError)
  /-- `{error}; management key recovery file retained at {path}` -/
  | retained (error : CliError) (path : Path)
  deriving DecidableEq, Repr

/-- A program that ends with a `CliResult`. -/
abbrev Command (α : Type) := Fallible Answer CliError α

variable {α σ : Type}

def onCard {ε : Type} (operation : Fallible (Piv.Answer IoError) ε α) : Fallible Answer ε α :=
  Prog.lift Request.card (fun _ response => response) operation

/-- `PivSession::run`. -/
def sessionRun (operation : Fallible (Piv.Answer IoError) (PivError IoError) α) : Command α :=
  mapError .piv (onCard operation)

def promptPassword (prompt : String) : Command String :=
  mapError (.cannotPrompt prompt) (attempt (Prog.request (Request.prompt prompt)))

def confirm (prompt : String) : Command Bool :=
  mapError .io (attempt (Prog.request (Request.confirm prompt)))

structure File where
  contents : Bytes
  contentsSynced : Bool
  /-- The directory entry is synchronised. -/
  entrySynced : Bool
  deriving DecidableEq, Repr

/-- The file survives a crash with its contents. -/
def File.Durable (file : File) : Prop := file.contentsSynced = true ∧ file.entrySynced = true

abbrev Files := Path → Option File

inductive FileEvent where
  | opened (path : Path) (result : Except IoError Unit)
  | written (path : Path) (result : Except IoError Unit)
  | synced (path : Path) (result : Except IoError Unit)
  | directorySynced (path : Path) (result : Except IoError Unit)
  | removed (path : Path) (result : Except IoError Unit)
  deriving DecidableEq

structure World (σ : Type) where
  piv : Piv.World σ
  files : Files
  /-- The file-system calls so far, oldest first. -/
  events : List FileEvent

def newFile : File := ⟨[], false, false⟩

/-- What a call does to the files. A failed call may have done part of its
work, but it never touches a file that another call owns. -/
def fileEffect : (q : Request) → Files → Answer q → Files → Prop
  | .createNew path, f, .ok (), g => f path = none ∧ g = Function.update f path (some newFile)
  | .createNew path, f, .error _, g =>
    g = f ∨ f path = none ∧ g = Function.update f path (some newFile)
  | .writeAll path data, f, .ok (), g => ∃ file, f path = some file ∧
    g = Function.update f path
      (some { file with contents := file.contents ++ data, contentsSynced := false })
  | .writeAll path _, f, .error _, g => ∃ file file', f path = some file ∧
    g = Function.update f path (some file')
  | .syncAll path, f, .ok (), g => ∃ file, f path = some file ∧
    g = Function.update f path (some { file with contentsSynced := true })
  | .syncAll path, f, .error _, g => ∃ file synced, f path = some file ∧
    g = Function.update f path (some { file with contentsSynced := synced })
  | .removeFile path, f, .ok (), g => g = Function.update f path none
  | .removeFile path, f, .error _, g => g = f ∨ g = Function.update f path none
  | .syncDirectory directory, f, r, g => ∃ reached : Path → Bool,
    (r = .ok () → ∀ name, reached (directory.join name) = true) ∧
      g = fun path => (f path).map fun file =>
        { file with entrySynced := file.entrySynced || reached path }
  | _, f, _, g => g = f

def eventOf : (q : Request) → Answer q → List FileEvent
  | .createNew path, r => [.opened path r]
  | .writeAll path _, r => [.written path r]
  | .syncAll path, r => [.synced path r]
  | .syncDirectory path, r => [.directorySynced path r]
  | .removeFile path, r => [.removed path r]
  | _, _ => []

def environment (device : Device IoError σ) : Env Answer (World σ)
  | .card q, w, r, v =>
    Piv.environment device q w.piv r v.piv ∧ v.files = w.files ∧ v.events = w.events
  | q, w, r, v => v.piv = w.piv ∧ fileEffect q w.files r v.files ∧ v.events = w.events ++ eventOf q r

section Runs

variable {device : Device IoError σ} {w u : World σ}

/-- A card operation runs as it does alone, and it leaves the files alone. -/
theorem onCard_runs {ε : Type} {operation : Fallible (Piv.Answer IoError) ε α}
    {o : Option (Except ε α)} (hr : Fallible.Runs (environment device) (onCard operation) w o u) :
    Fallible.Runs (Piv.environment device) operation w.piv o u.piv ∧
      u.files = w.files ∧ u.events = w.events := by
  refine ⟨Run.of_lift (fun q w r v he => he.1) hr, ?_⟩
  have honly : Prog.Only (fun q => ∃ r, q = Request.card r) (onCard operation) :=
    Prog.only_lift operation (fun r => ⟨r, rfl⟩)
  refine Run.preserves (I := fun v => v.files = w.files ∧ v.events = w.events) ?_ honly hr ⟨rfl, rfl⟩
  rintro q w' r v ⟨request, rfl⟩ ⟨hfiles, hevents⟩ ⟨-, hf, he⟩
  exact ⟨hf.trans hfiles, he.trans hevents⟩

/-- A card operation that succeeded for a command succeeded on the card. -/
theorem sessionRun_ok {operation : Fallible (Piv.Answer IoError) (PivError IoError) α} {a : α}
    (hr : Fallible.Runs (environment device) (sessionRun operation) w (some (.ok a)) u) :
    Fallible.Runs (Piv.environment device) operation w.piv (some (.ok a)) u.piv := by
  obtain ⟨o', ho, hx⟩ := Fallible.mapError_iff.mp hr
  rcases o' with _ | ⟨e | a'⟩ <;> cases ho
  exact (onCard_runs hx).1

end Runs

end CommandLine
