import Ckman.CommandLine
import Ckman.ReferenceCard

/-!
# A host around the reference card

The operating system of a concrete run: its calls work, a path that is taken
cannot be created again, and the card answers as the reference card does.
-/
namespace Reference

open Host Interaction CommandLine

variable (vectors : Vectors)

/-- The call of a request together with what it leaves behind. -/
abbrev Reply (q : CommandLine.Request) := CommandLine.Answer q × CommandLine.World Chip

def fileExists : IoError := ⟨.alreadyExists, "File exists (os error 17)"⟩

/-- A call that only the user or the directory tree answers. -/
def quietReply (q : CommandLine.Request) (r : CommandLine.Answer q) (w : CommandLine.World Chip) :
    Option (Reply q) :=
  some (r, w)

def fileReply (q : CommandLine.Request) (r : CommandLine.Answer q) (files : Files)
    (w : CommandLine.World Chip) : Option (Reply q) :=
  some (r, { w with files := files, events := w.events ++ eventOf q r })

def hostAnswer (c : Choice IoError) (q : CommandLine.Request) (w : CommandLine.World Chip) :
    Option (Reply q) :=
  match q with
  | .card request => (answer vectors c request w.piv).map fun (r, v) => (r, { w with piv := v })
  | .prompt text => quietReply (.prompt text) (.ok "") w
  | .confirm text => quietReply (.confirm text) (.ok true) w
  | .currentDir => quietReply .currentDir (.ok [.rootDir]) w
  | .canonicalize path => quietReply (.canonicalize path) (.ok path) w
  | .createNew path =>
    match w.files path with
    | none => fileReply (.createNew path) (.ok ()) (Function.update w.files path (some newFile)) w
    | some _ => fileReply (.createNew path) (.error fileExists) w.files w
  | .writeAll path data =>
    (w.files path).bind fun file => fileReply (.writeAll path data) (.ok ()) (Function.update w.files path
      (some { file with contents := file.contents ++ data, contentsSynced := false })) w
  | .syncAll path =>
    (w.files path).bind fun file => fileReply (.syncAll path) (.ok ())
      (Function.update w.files path (some { file with contentsSynced := true })) w
  | .removeFile path => fileReply (.removeFile path) (.ok ()) (Function.update w.files path none) w
  | .syncDirectory path => fileReply (.syncDirectory path) (.ok ())
      (fun other => (w.files other).map fun file =>
        { file with entrySynced := file.entrySynced || decide (other.dropLast = path) }) w

theorem hostAnswer_environment {c : Choice IoError} {q : CommandLine.Request}
    {w v : CommandLine.World Chip} {r : CommandLine.Answer q}
    (h : hostAnswer vectors c q w = some (r, v)) :
    CommandLine.environment (device vectors) q w r v := by
  cases q with
  | card request =>
    obtain ⟨⟨r', x⟩, hanswer, hreply⟩ := Option.map_eq_some_iff.mp h
    cases hreply
    exact ⟨answer_environment vectors hanswer, rfl, rfl⟩
  | prompt text =>
    cases h
    exact ⟨rfl, rfl, (List.append_nil _).symm⟩
  | confirm text =>
    cases h
    exact ⟨rfl, rfl, (List.append_nil _).symm⟩
  | currentDir =>
    cases h
    exact ⟨rfl, rfl, (List.append_nil _).symm⟩
  | canonicalize path =>
    cases h
    exact ⟨rfl, rfl, (List.append_nil _).symm⟩
  | createNew path =>
    cases hfile : w.files path with
    | none =>
      simp only [hostAnswer, hfile] at h
      cases h
      exact ⟨rfl, ⟨hfile, rfl⟩, rfl⟩
    | some file =>
      simp only [hostAnswer, hfile] at h
      cases h
      exact ⟨rfl, .inl rfl, rfl⟩
  | writeAll path data =>
    obtain ⟨file, hfile, hreply⟩ := Option.bind_eq_some_iff.mp h
    cases hreply
    exact ⟨rfl, ⟨file, hfile, rfl⟩, rfl⟩
  | syncAll path =>
    obtain ⟨file, hfile, hreply⟩ := Option.bind_eq_some_iff.mp h
    cases hreply
    exact ⟨rfl, ⟨file, hfile, rfl⟩, rfl⟩
  | removeFile path =>
    cases h
    exact ⟨rfl, rfl, rfl⟩
  | syncDirectory path =>
    cases h
    exact ⟨rfl, ⟨fun other => decide (other.dropLast = path), by simp [Path.join], rfl⟩, rfl⟩

/-- The run of a command on the reference card with these choices. -/
def playCommand {α : Type} (choices : List (Choice IoError)) (command : Command α)
    (w : CommandLine.World Chip) : Option (Except CliError α) × CommandLine.World Chip :=
  follow (hostAnswer vectors) choices command w

theorem playCommand_runs {α : Type} {choices : List (Choice IoError)} {command : Command α}
    {w : CommandLine.World Chip} {o : Option (Except CliError α)}
    (h : (playCommand vectors choices command w).1 = o) :
    Fallible.Runs (CommandLine.environment (device vectors)) command w o
      (playCommand vectors choices command w).2 := by
  have hanswer : ∀ (c : Choice IoError) (q : CommandLine.Request) (w : CommandLine.World Chip)
      (r : CommandLine.Answer q) (v : CommandLine.World Chip),
      hostAnswer vectors c q w = some (r, v) → CommandLine.environment (device vectors) q w r v :=
    fun _ _ _ _ _ => hostAnswer_environment vectors
  rw [← h]
  exact run_follow hanswer choices command w

end Reference
