import Ckman.PivPrivateKeyRuns

/-!
# Where secrets go

What the card computes with a private key ends up, complete, in the destination
that was prepared for it before the card was looked for, or it is not published.
Over any sequence of commands, the card is asked for what they determine, and
the PIN is blocked only by wrong PINs.
-/
namespace PivPrivateKeys

open Host Interaction PivKeys
open CommandLine (Path)
open OutputFile (Files Stage Opened Discarded Stranded Replaced)
open Piv (Algorithm Device Slot)

/-- How a file is left by a command that had a secret for it, by how the command ended. -/
inductive FileDelivery (secret : Option Bytes) (files : Files) :
    Option (Except CliError Unit) → OutputFile.World → Prop where
  | stopped {u : OutputFile.World} : Stage secret files u → FileDelivery secret files none u
  | refused {e : CliError} : FileDelivery secret files (some (.error e)) ⟨files, []⟩
  | discarded {e : CliError} {temporary : Path} {u : OutputFile.World} : Discarded files temporary u →
      FileDelivery secret files (some (.error e)) u
  | stranded {e : CliError} {temporary destination : Path} {bytes : Bytes} {u : OutputFile.World} :
      secret = some bytes → Stranded files temporary destination bytes u →
        FileDelivery secret files (some (.error e)) u
  | replaced {temporary destination : Path} {bytes : Bytes} {u : OutputFile.World} : secret = some bytes →
      Replaced files temporary destination bytes u → FileDelivery secret files (some (.ok ())) u

section Runs

variable {σ : Type} {crates : PrivateKeyCrates} {device : Device IoError σ} {view : σ → KeyCard} {w u : World σ}
  {α : Type}

def HasTemporary (files : Files) (u : OutputFile.World) : Prop :=
  ∃ temporary, files temporary = none ∧ .created temporary ∈ u.events

/-- Where the secret of a command is afterwards. The device is not looked for
before the temporary file is there. -/
def Delivery (view : σ → KeyCard) (secret : Option Bytes) (w : World σ) (o : Option (Except CliError Unit))
    (u : World σ) : Place → Prop
  | .stream => u.output = w.output ∧ ∃ n, u.stdout = w.stdout ++ (secret.getD []).take n ∧
      (o = some (.ok ()) → ∃ bytes, secret = some bytes ∧ bytes.length ≤ n)
  | .path _ => u.stdout = w.stdout ∧ FileDelivery secret w.output.files o u.output ∧
      (u.reached = w.reached ∧ u.card view = w.card view ∧ u.typed = w.typed ∨ HasTemporary w.output.files u.output)

/-- Neither the card nor the user is concerned. -/
structure Aside (view : σ → KeyCard) (w u : World σ) : Prop where
  card : u.card view = w.card view
  typed : u.typed = w.typed
  reads : u.reads = w.reads

theorem Aside.refl (w : World σ) : Aside view w w := ⟨rfl, rfl, rfl⟩

theorem Aside.trans {v : World σ} (h : Aside view w v) (h' : Aside view v u) : Aside view w u :=
  ⟨h'.card.trans h.card, h'.typed.trans h.typed, h'.reads.trans h.reads⟩

structure OutputOnly (view : σ → KeyCard) (w u : World σ) : Prop extends Aside view w u where
  stdout : u.stdout = w.stdout
  reached : u.reached = w.reached
  grown : w.output.events <+: u.output.events

theorem OutputOnly.refl (w : World σ) : OutputOnly view w w := ⟨.refl w, rfl, rfl, List.prefix_refl _⟩

theorem OutputOnly.trans {v : World σ} (h : OutputOnly view w v) (h' : OutputOnly view v u) : OutputOnly view w u :=
  ⟨h.toAside.trans h'.toAside, h'.stdout.trans h.stdout, h'.reached.trans h.reached, h.grown.trans h'.grown⟩

theorem HasTemporary.grown {files : Files} (h : HasTemporary files w.output) (hu : OutputOnly view w u) :
    HasTemporary files u.output := by
  obtain ⟨temporary, habsent, hcreated⟩ := h
  exact ⟨temporary, habsent, hu.grown.subset hcreated⟩

variable (view) in
/-- What an output ensures is ensured in a command. -/
theorem onOutput_runs {pre always : OutputFile.World → Prop} {p : Prog OutputFile.Answer α}
    {post : α → OutputFile.World → Prop} (hp : Prog.Ensures OutputFile.environment pre p always post)
    (hpre : pre w.output) {o : Option α} (hr : Run (environment device) (onOutput p) w o u) :
    OutputOnly view w u ∧ always u.output ∧ ∀ a, o = some a → post a u.output := by
  have houtput : Run OutputFile.environment p w.output o u.output := by
    refine Run.of_lift (fun q x r v he => ?_) hr
    obtain ⟨output, houtput, rfl⟩ := he
    exact houtput
  have honly : Prog.Only (fun q => ∃ r, q = Request.output r) (onOutput p) := Prog.only_lift p fun r => ⟨r, rfl⟩
  refine ⟨?_, hp _ _ _ hpre houtput⟩
  refine Run.preserves (I := OutputOnly view w) ?_ honly hr (.refl w)
  rintro q x r v ⟨request, rfl⟩ hx ⟨output, henv, rfl⟩
  refine hx.trans ⟨⟨rfl, rfl, rfl⟩, rfl, rfl, ?_⟩
  exact ⟨OutputFile.eventOf request r, henv.2.symm⟩

variable (view) in
theorem writeStdout_runs {data : Bytes} {o : Option (Except CliError Unit)}
    (hr : Fallible.Runs (environment device) (writeStdout data) w o u) :
    Aside view w u ∧ u.output = w.output ∧ ∃ n, u.stdout = w.stdout ++ data.take n ∧
      (o = some (.ok ()) → data.length ≤ n) := by
  obtain ⟨o', rfl, hx⟩ := Fallible.mapError_iff.mp hr
  rcases Run.ask_iff.mp hx with ⟨rfl, rfl⟩ | ⟨r, v, ⟨n, hn, rfl⟩, hpure⟩
  · exact ⟨.refl u, rfl, 0, by simp, fun h => by cases h⟩
  · obtain ⟨rfl, rfl⟩ := Run.pure_iff.mp hpure
    refine ⟨⟨rfl, rfl, rfl⟩, rfl, n, rfl, fun ho => hn ?_⟩
    rcases r with e | ⟨⟩ <;> cases ho
    rfl

variable (view) in
theorem announce_runs (result : Result) {o : Option (Except CliError Unit)}
    (hr : Fallible.Runs (environment device) (announce result.1 result.2) w o u) :
    OutputOnly view w u ∧ u.output = w.output ∧ (o = none ∨ o = some (.ok ())) := by
  obtain ⟨operation, output⟩ := result
  cases operation with
  | agreeSm2 input =>
    rcases Run.ask_iff.mp hr with ⟨rfl, rfl⟩ | ⟨r, v, rfl, hpure⟩
    · exact ⟨.refl u, rfl, .inl rfl⟩
    · obtain ⟨rfl, rfl⟩ := Run.pure_iff.mp hpure
      exact ⟨⟨⟨rfl, rfl, rfl⟩, rfl, rfl, List.prefix_refl _⟩, rfl, .inr rfl⟩
  | _ =>
    obtain ⟨rfl, rfl⟩ := Run.pure_iff.mp hr
    exact ⟨.refl u, rfl, .inr rfl⟩

section Delivering

variable {files : Files} {output : OutputFile.PreparedFile} {secret : Option Bytes}

theorem HasTemporary.of_opened {temporary : Path} {contents : Bytes} {x : OutputFile.World}
    (h : Opened files temporary contents x) : HasTemporary files x := ⟨temporary, h.1, by simp [h.2.1]⟩

variable (view secret) in
/-- An output that is dropped after an error leaves nothing that is complete. -/
theorem abandon_runs {contents : Bytes} (hopened : Opened files output.temporary contents w.output)
    (hfile : output.file = some output.temporary) (hname : output.temporary ≠ []) {e : CliError}
    {o : Option (Except CliError Unit)}
    (hr : Run (environment device)
      (Prog.bind (SecretOutput.drop (.file output)) fun _ => .pure (.error e)) w o u) :
    OutputOnly view w u ∧ FileDelivery secret files o u.output := by
  have hdrop : Prog.Ensures OutputFile.environment (Opened files output.temporary contents) output.drop
      (Stage secret files) fun _ => Discarded files output.temporary := OutputFile.drop_ensures hfile hname
  rcases Run.bind_iff.mp hr with ⟨rfl, hx⟩ | ⟨⟨⟩, v, hx, hpure⟩
  · obtain ⟨honly, hstage, -⟩ := onOutput_runs view hdrop hopened hx
    exact ⟨honly, .stopped hstage⟩
  · obtain ⟨rfl, rfl⟩ := Run.pure_iff.mp hpure
    obtain ⟨honly, -, hdropped⟩ := onOutput_runs view hdrop hopened hx
    exact ⟨honly, .discarded (hdropped () rfl)⟩

variable (view) in
/-- A secret is written as a whole and published, or it is given up. -/
theorem deliver_runs (hopened : Opened files output.temporary [] w.output)
    (hfile : output.file = some output.temporary) (hname : output.temporary ≠ []) (result : Result)
    {o : Option (Except CliError Unit)}
    (hr : Fallible.Runs (environment device) (deliver (.file output) result) w o u) :
    OutputOnly view w u ∧ FileDelivery (some (secretOf result.1 result.2)) files o u.output := by
  have hwrite : Prog.Ensures OutputFile.environment (Opened files output.temporary [])
      (output.write (secretOf result.1 result.2)) (Stage (some (secretOf result.1 result.2)) files)
      (OutputFile.Finished files output (secretOf result.1 result.2)) := OutputFile.write_ensures rfl hfile
  rcases Run.bind_iff.mp hr with ⟨rfl, hx⟩ | ⟨⟨written, after⟩, v, hx, hrest⟩
  · rcases Run.bind_iff.mp hx with ⟨-, hy⟩ | ⟨pair, y, hy, hpure⟩
    · obtain ⟨honly, hstage, -⟩ := onOutput_runs view hwrite hopened hy
      exact ⟨honly, .stopped hstage⟩
    · cases (Run.pure_iff.mp hpure).1
  obtain ⟨⟨result', left⟩, y, hy, hpure⟩ := (Run.bind_iff.mp hx).resolve_left fun hnone => nomatch hnone.1
  obtain ⟨hpair, rfl⟩ := Run.pure_iff.mp hpure
  cases hpair
  obtain ⟨honly, -, hfinished⟩ := onOutput_runs view hwrite hopened hy
  cases hfinished _ rfl with
  | @incomplete e bytes _ hleft =>
    obtain ⟨hrest', hdelivery⟩ := abandon_runs view _ (e := .output e) hleft hfile hname hrest
    exact ⟨honly.trans hrest', hdelivery⟩
  | @stranded e _ hstranded =>
    obtain ⟨rfl, rfl⟩ := Run.pure_iff.mp hrest
    exact ⟨honly, .stranded rfl hstranded⟩
  | replaced hreplaced =>
    rcases Run.bind_iff.mp hrest with ⟨rfl, hz⟩ | ⟨r, x, hz, hdone⟩
    · obtain ⟨hsaid, hsame, -⟩ := announce_runs view result hz
      refine ⟨honly.trans hsaid, .stopped ?_⟩
      rw [hsame]
      exact .replaced _ _ _ rfl hreplaced
    · obtain ⟨hsaid, hsame, hnone | hok⟩ := announce_runs view result hz
      · cases hnone
      · cases hok
        obtain ⟨rfl, rfl⟩ := Run.pure_iff.mp hdone
        refine ⟨honly.trans hsaid, ?_⟩
        rw [hsame]
        exact .replaced rfl hreplaced

variable (view) in
theorem deliverStdout_runs (result : Result) {o : Option (Except CliError Unit)}
    (hr : Fallible.Runs (environment device) (deliver .stdout result) w o u) :
    Aside view w u ∧ u.output = w.output ∧ ∃ n, u.stdout = w.stdout ++ (secretOf result.1 result.2).take n ∧
      (o = some (.ok ()) → (secretOf result.1 result.2).length ≤ n) := by
  rcases Run.bind_iff.mp hr with ⟨rfl, hx⟩ | ⟨⟨written, after⟩, v, hx, hrest⟩
  · rcases Run.bind_iff.mp hx with ⟨-, hy⟩ | ⟨r, y, hy, hpure⟩
    · obtain ⟨haside, houtput, n, hstdout, -⟩ := writeStdout_runs view hy
      exact ⟨haside, houtput, n, hstdout, fun h => by cases h⟩
    · cases (Run.pure_iff.mp hpure).1
  obtain ⟨r, y, hy, hpure⟩ := (Run.bind_iff.mp hx).resolve_left fun hnone => nomatch hnone.1
  obtain ⟨hpair, rfl⟩ := Run.pure_iff.mp hpure
  cases hpair
  obtain ⟨haside, houtput, n, hstdout, hlength⟩ := writeStdout_runs view hy
  have hsaid : ∀ {x : World σ} {o' : Option (Except CliError Unit)}, Fallible.Runs (environment device)
      (orThrow written >>= fun _ => announce result.1 result.2) v o' x →
        OutputOnly view v x ∧ x.output = v.output ∧ (o' = some (.ok ()) → written = .ok ()) := by
    intro x o' hz
    rcases Fallible.orThrow_bind_iff.mp hz with ⟨e, -, rfl, rfl⟩ | ⟨⟨⟩, hok, hz⟩
    · exact ⟨.refl x, rfl, fun h => by cases h⟩
    · obtain ⟨honly, hsame, -⟩ := announce_runs view result hz
      exact ⟨honly, hsame, fun _ => hok⟩
  have hend : ∀ {o' : Option (Except CliError Unit)}, Fallible.Runs (environment device)
      (orThrow written >>= fun _ => announce result.1 result.2) v o' u → (o = some (.ok ()) → o' = o) →
        Aside view w u ∧ u.output = w.output ∧ ∃ n, u.stdout = w.stdout ++ (secretOf result.1 result.2).take n ∧
          (o = some (.ok ()) → (secretOf result.1 result.2).length ≤ n) := by
    intro o' hz ho
    obtain ⟨honly, hsame, hok⟩ := hsaid hz
    refine ⟨haside.trans honly.toAside, hsame.trans houtput, n, honly.stdout.trans hstdout, fun hdone => ?_⟩
    exact hlength (congrArg some (hok ((ho hdone).trans hdone)))
  rcases Run.bind_iff.mp hrest with ⟨rfl, hz⟩ | ⟨r', x, hz, hdone⟩
  · exact hend hz (fun h => by cases h)
  · obtain ⟨rfl, rfl⟩ := Run.pure_iff.mp hdone
    exact hend hz fun _ => rfl

variable (view) in
/-- What preparing a file leaves, by how it ends. -/
theorem prepare_runs {path : Path} (hfresh : w.output.events = []) {o : Option (Except CliError SecretOutput)}
    (hr : Fallible.Runs (environment device) (SecretOutput.prepare (.path path)) w o u) :
    OutputOnly view w u ∧ (o = none → Stage none w.output.files u.output) ∧
      (∀ e, o = some (.error e) →
        u.output = ⟨w.output.files, []⟩ ∨ ∃ temporary, Discarded w.output.files temporary u.output) ∧
      ∀ destination, o = some (.ok destination) → ∃ output, destination = .file output ∧
        Opened w.output.files output.temporary [] u.output ∧ output.file = some output.temporary ∧
        output.temporary ≠ [] := by
  have hstart : w.output = ⟨w.output.files, []⟩ := by rw [← hfresh]
  have hprepare : Prog.Ensures OutputFile.environment (fun x => x = ⟨w.output.files, []⟩)
      (OutputFile.prepare path true) (Stage none w.output.files) (OutputFile.Prepared w.output.files) :=
    OutputFile.prepare_ensures path true
  rcases Fallible.bind_iff.mp hr with ⟨rfl, hx⟩ | ⟨e, rfl, hx⟩ | ⟨output, v, hx, hpure⟩
  · obtain ⟨o', ho, hy⟩ := Fallible.mapError_iff.mp hx
    obtain ⟨honly, hstage, -⟩ := onOutput_runs view hprepare hstart hy
    exact ⟨honly, fun _ => hstage, (fun _ h => by cases h), fun _ h => by cases h⟩
  · obtain ⟨o', ho, hy⟩ := Fallible.mapError_iff.mp hx
    obtain ⟨honly, -, hprepared⟩ := onOutput_runs view hprepare hstart hy
    rcases o' with _ | e' | output <;> cases ho
    exact ⟨honly, (fun h => by cases h), fun _ _ => hprepared _ rfl, fun _ h => by cases h⟩
  · obtain ⟨rfl, rfl⟩ := Fallible.pure_iff.mp hpure
    obtain ⟨o', ho, hy⟩ := Fallible.mapError_iff.mp hx
    obtain ⟨honly, -, hprepared⟩ := onOutput_runs view hprepare hstart hy
    rcases o' with _ | e' | output' <;> cases ho
    refine ⟨honly, (fun h => by cases h), (fun _ h => by cases h),
      fun destination hd => ⟨output, (Except.ok.inj (Option.some.inj hd)).symm, ?_⟩⟩
    exact hprepared _ rfl

end Delivering

section Secret

variable {slot : Slot} {pin : Option String} {operationFor : Algorithm → Except CliError KeyOperation}
  {secret : Option Bytes}

theorem Handled.around {v x : World σ} (hw : Aside view w v)
    (h : Handled crates device view pin slot operationFor v x secret) (hu : Aside view x u) :
    Handled crates device view pin slot operationFor w u secret := by
  rw [Handled, hw.card, hw.typed] at h
  rw [Handled, hu.card, hu.typed]
  exact h

theorem operate_runs (h : Documented crates device view) {o : Option (Except CliError Result)}
    (hr : Fallible.Runs (environment device) (operate crates slot pin operationFor) w o u) :
    ∃ secret, Handled crates device view pin slot operationFor w u secret ∧ Beside w u ∧ u.reads = w.reads ∧
      ∀ result, o = some (.ok result) → secret = some (secretOf result.1 result.2) :=
  keyed_runs h (fun algorithm => conducts_operate h (operationFor algorithm)) hr

/-- A secret for the standard output. -/
theorem secretStdout_runs (h : Documented crates device view) {o : Option (Except CliError Unit)}
    (hr : Fallible.Runs (environment device) (withSecretOutput .stream (operate crates slot pin operationFor)) w o u) :
    u.reads = w.reads ∧ ∃ secret, Handled crates device view pin slot operationFor w u secret ∧
      Delivery view secret w o u .stream := by
  have hbody : Run (environment device) (Prog.bind (operate crates slot pin operationFor) _) w o u := hr
  rcases Run.bind_iff.mp hbody with ⟨rfl, hx⟩ | ⟨r, x, hx, hrest⟩
  · obtain ⟨secret, hhandled, hbeside, hreads, -⟩ := operate_runs h hx
    exact ⟨hreads, secret, hhandled, hbeside.1, 0, by rw [hbeside.2.1, List.take_zero, List.append_nil],
      fun ho => by cases ho⟩
  obtain ⟨secret, hhandled, hbeside, hreads, hsecret⟩ := operate_runs h hx
  cases r with
  | error e =>
    obtain ⟨rfl, rfl⟩ := Run.pure_iff.mp hrest
    exact ⟨hreads, secret, hhandled, hbeside.1, 0, by rw [hbeside.2.1, List.take_zero, List.append_nil],
      fun ho => by cases ho⟩
  | ok result =>
    obtain rfl := hsecret result rfl
    obtain ⟨haside, houtput, n, hstdout, hlength⟩ := deliverStdout_runs view result hrest
    refine ⟨haside.reads.trans hreads, _, hhandled.around (.refl w) haside, houtput.trans hbeside.1, n, ?_, ?_⟩
    · rw [hstdout, hbeside.2.1]
      rfl
    · exact fun ho => ⟨_, rfl, hlength ho⟩

/-- A secret for a file. -/
theorem secretFile_runs (h : Documented crates device view) {path : Path} (hfresh : w.output.events = [])
    {o : Option (Except CliError Unit)}
    (hr : Fallible.Runs (environment device) (withSecretOutput (.path path) (operate crates slot pin operationFor)) w o
      u) :
    u.reads = w.reads ∧ ∃ secret, Handled crates device view pin slot operationFor w u secret ∧
      Delivery view secret w o u (.path path) := by
  rcases Fallible.bind_iff.mp hr with ⟨rfl, hx⟩ | ⟨e, rfl, hx⟩ | ⟨destination, v, hx, hr₁⟩
  · obtain ⟨honly, hstage, -, -⟩ := prepare_runs view hfresh hx
    exact ⟨honly.reads, none, .inl ⟨honly.card, honly.typed, rfl⟩, honly.stdout, .stopped (hstage rfl),
      .inl ⟨honly.reached, honly.card, honly.typed⟩⟩
  · obtain ⟨honly, -, hfailed, -⟩ := prepare_runs view hfresh hx
    refine ⟨honly.reads, none, .inl ⟨honly.card, honly.typed, rfl⟩, honly.stdout, ?_,
      .inl ⟨honly.reached, honly.card, honly.typed⟩⟩
    rcases hfailed e rfl with hsame | ⟨temporary, hdiscarded⟩
    · rw [hsame]
      exact .refused
    · exact .discarded hdiscarded
  obtain ⟨honly, -, -, hprepared⟩ := prepare_runs view hfresh hx
  obtain ⟨output, rfl, hopened, hfile, hname⟩ := hprepared destination rfl
  have htemporary : HasTemporary w.output.files v.output := .of_opened hopened
  -- Whatever comes of the operation, the last step accounts for the file.
  have hend : ∀ {x : World σ} {secret : Option Bytes}, Handled crates device view pin slot operationFor v x secret →
      Beside v x → x.reads = v.reads → OutputOnly view x u → FileDelivery secret w.output.files o u.output →
        u.reads = w.reads ∧ ∃ secret, Handled crates device view pin slot operationFor w u secret ∧
          Delivery view secret w o u (.path path) := by
    intro x secret hhandled hbeside hreads hlast hdelivery
    rw [← hbeside.1] at htemporary
    exact ⟨hlast.reads.trans (hreads.trans honly.reads), _, hhandled.around honly.toAside hlast.toAside,
      hlast.stdout.trans (hbeside.2.1.trans honly.stdout), hdelivery, .inr (htemporary.grown hlast)⟩
  rcases Run.bind_iff.mp hr₁ with ⟨rfl, hy⟩ | ⟨r, x, hy, hrest⟩
  · obtain ⟨secret, hhandled, hbeside, hreads, -⟩ := operate_runs h hy
    rw [← hbeside.1] at hopened
    exact hend hhandled hbeside hreads (.refl u) (.stopped (.opened _ _ hopened))
  obtain ⟨secret, hhandled, hbeside, hreads, hsecret⟩ := operate_runs h hy
  rw [← hbeside.1] at hopened
  cases r with
  | error e =>
    obtain ⟨hlast, hdelivery⟩ := abandon_runs view secret hopened hfile hname hrest
    exact hend hhandled hbeside hreads hlast hdelivery
  | ok result =>
    obtain rfl := hsecret result rfl
    obtain ⟨hlast, hdelivery⟩ := deliver_runs view hopened hfile hname result hrest
    exact hend hhandled hbeside hreads hlast hdelivery

theorem withSecretOutput_runs (h : Documented crates device view) (place : Place) (hfresh : w.output.events = [])
    {o : Option (Except CliError Unit)}
    (hr : Fallible.Runs (environment device) (withSecretOutput place (operate crates slot pin operationFor)) w o u) :
    u.reads = w.reads ∧ ∃ secret, Handled crates device view pin slot operationFor w u secret ∧
      Delivery view secret w o u place := by
  cases place with
  | stream => exact secretStdout_runs h hr
  | path path => exact secretFile_runs h hfresh hr

end Secret

namespace PrivateKeyCommand

def slot : PrivateKeyCommand → Slot
  | sign args => args.slot
  | decrypt args | derive args | decapsulate args => args.slot
  | agreeSm2 args => args.slot

def pin : PrivateKeyCommand → Option String
  | sign args => args.pin
  | decrypt args | derive args | decapsulate args => args.pin
  | agreeSm2 args => args.pin

def output : PrivateKeyCommand → Place
  | sign args => args.output
  | decrypt args | derive args | decapsulate args => args.output
  | agreeSm2 args => args.keyOutput

end PrivateKeyCommand

/-- What a command makes of its inputs, for the algorithm of a key. -/
inductive Inputs (crates : PrivateKeyCrates) :
    PrivateKeyCommand → List (Place × Bytes) → (Algorithm → Except CliError KeyOperation) → Prop where
  | sign (args : SignArgs) (data : Bytes) :
      Inputs crates (.sign args) [(args.input, data)] (signOperation crates args data)
  | decrypt (args : SecretArgs) (data : Bytes) :
      Inputs crates (.decrypt args) [(args.input, data)] (decryptOperation data)
  | derive (args : SecretArgs) (data : Bytes) :
      Inputs crates (.derive args) [(args.input, data)] (deriveOperation data)
  | decapsulate (args : SecretArgs) (data : Bytes) :
      Inputs crates (.decapsulate args) [(args.input, data)] (decapsulateOperation data)
  | agreeSm2 (args : AgreeArgs) (peerStatic peerEphemeral : Bytes) {userId peerId : Option Bytes} :
      parseId args.userId "--user-id" = .ok userId → parseId args.peerId "--peer-id" = .ok peerId →
      Inputs crates (.agreeSm2 args) [(args.peerStatic, peerStatic), (args.peerEphemeral, peerEphemeral)]
        (agreeOperation ⟨args.role, peerStatic, peerEphemeral, userId, peerId, args.keyLen⟩)

/-- A signature is not a secret: its file is overwritten, and a failure may leave a part of it. -/
def SignatureDelivery (signature : Option Bytes) (w : World σ) (o : Option (Except CliError Unit)) (u : World σ) : Prop :=
  ∃ n, (o = some (.ok ()) → ∃ bytes, signature = some bytes ∧ bytes.length ≤ n) ∧
    ((u.output = w.output ∧ u.stdout = w.stdout ++ (signature.getD []).take n) ∨
      u.stdout = w.stdout ∧ ∃ target mode, u.output = ⟨Function.update w.output.files target
        (some ⟨(signature.getD []).take n, mode⟩), w.output.events⟩)

def Delivers (view : σ → KeyCard) (command : PrivateKeyCommand) (secret : Option Bytes) (w : World σ)
    (o : Option (Except CliError Unit)) (u : World σ) : Prop :=
  match command with
  | .sign _ => SignatureDelivery secret w o u
  | _ => Delivery view secret w o u command.output

def Reading (reads : List (Place × Bytes)) (w u : World σ) : Prop := u = { w with reads := w.reads ++ reads }

theorem Reading.refl (w : World σ) : Reading [] w w := by
  rw [Reading, List.append_nil]

theorem readInput_runs {place : Place} {o : Option (Except CliError Bytes)}
    (hr : Fallible.Runs (environment device) (readInput place) w o u) :
    (u = w ∧ ∀ data, o ≠ some (.ok data)) ∨ ∃ data, o = some (.ok data) ∧ Reading [(place, data)] w u := by
  obtain ⟨o', rfl, hx⟩ := Fallible.mapError_iff.mp hr
  rcases Run.ask_iff.mp hx with ⟨rfl, rfl⟩ | ⟨r, v, henv, hpure⟩
  · exact .inl ⟨rfl, fun _ h => by cases h⟩
  · obtain ⟨rfl, rfl⟩ := Run.pure_iff.mp hpure
    rcases r with e | data
    · refine .inl ⟨?_, fun _ h => by cases h⟩
      exact henv.trans (by simp [readAt])
    · exact .inr ⟨data, rfl, henv⟩

/-- A step that reads one input before the rest. -/
theorem readInput_bind {place : Place} {f : Bytes → Command Unit} {o : Option (Except CliError Unit)}
    (hr : Fallible.Runs (environment device) (readInput place >>= f) w o u) :
    (u = w ∧ o ≠ some (.ok ())) ∨
      ∃ data v, Reading [(place, data)] w v ∧ Fallible.Runs (environment device) (f data) v o u := by
  rcases Fallible.bind_iff.mp hr with ⟨rfl, hx⟩ | ⟨e, rfl, hx⟩ | ⟨data, v, hx, hrest⟩
  · rcases readInput_runs hx with ⟨rfl, -⟩ | ⟨data, ho, -⟩
    · exact .inl ⟨rfl, fun h => by cases h⟩
    · cases ho
  · rcases readInput_runs hx with ⟨rfl, -⟩ | ⟨data, ho, -⟩
    · exact .inl ⟨rfl, fun h => by cases h⟩
    · cases ho
  · rcases readInput_runs hx with ⟨-, hnone⟩ | ⟨data', ho, hreading⟩
    · exact absurd rfl (hnone data)
    · cases ho
      exact .inr ⟨data, v, hreading, hrest⟩

variable (view) in
theorem writeOutput_runs {place : Place} {data : Bytes} {o : Option (Except CliError Unit)}
    (hr : Fallible.Runs (environment device) (writeOutput place data) w o u) :
    Aside view w u ∧ SignatureDelivery (some data) w o u := by
  cases place with
  | stream =>
    obtain ⟨haside, houtput, n, hstdout, hlength⟩ := writeStdout_runs view hr
    exact ⟨haside, n, fun ho => ⟨data, rfl, hlength ho⟩, .inl ⟨houtput, hstdout⟩⟩
  | path path =>
    have hunwritten : ∀ {o' : Option (Except CliError Unit)}, o' ≠ some (.ok ()) → SignatureDelivery (some data) u o' u :=
      fun ho => ⟨0, fun hok => absurd hok ho, .inl ⟨rfl, by simp⟩⟩
    obtain ⟨o', rfl, hx⟩ := Fallible.mapError_iff.mp hr
    rcases Run.ask_iff.mp hx with ⟨rfl, rfl⟩ | ⟨r, v, ⟨rfl, hfailed⟩ | ⟨target, n, mode, hn, rfl⟩, hpure⟩
    · exact ⟨.refl u, hunwritten (fun h => by cases h)⟩
    · obtain ⟨rfl, rfl⟩ := Run.pure_iff.mp hpure
      refine ⟨.refl u, hunwritten ?_⟩
      rcases r with e | ⟨⟩
      · nofun
      · exact absurd rfl hfailed
    · obtain ⟨rfl, rfl⟩ := Run.pure_iff.mp hpure
      refine ⟨⟨rfl, rfl, rfl⟩, n, fun ho => ⟨data, rfl, hn ?_⟩, .inr ⟨rfl, target, mode, rfl⟩⟩
      rcases r with e | ⟨⟩ <;> cases ho
      rfl

/-- One run of a command: it reads its inputs, and then it comes to nothing or
handles what they determine and delivers the result. -/
structure RunOf (crates : PrivateKeyCrates) (device : Device IoError σ) (view : σ → KeyCard)
    (command : PrivateKeyCommand) (w : World σ) (o : Option (Except CliError Unit)) (u : World σ)
    (reads : List (Place × Bytes)) (operationFor : Algorithm → Except CliError KeyOperation) (secret : Option Bytes) :
    Prop where
  inputs : Inputs crates command reads operationFor
  reads : u.reads = w.reads ++ reads
  handled : Handled crates device view command.pin command.slot operationFor w u secret
  delivers : Delivers view command secret w o u

theorem secret_runOf (h : Documented crates device view) {command : PrivateKeyCommand} {v : World σ}
    {reads : List (Place × Bytes)} {operationFor : Algorithm → Except CliError KeyOperation}
    {o : Option (Except CliError Unit)} (hinputs : Inputs crates command reads operationFor)
    (hreading : Reading reads w v) (hfresh : w.output.events = []) (hsecret : ∀ args, command ≠ .sign args)
    (hr : Fallible.Runs (environment device)
      (withSecretOutput command.output (operate crates command.slot command.pin operationFor)) v o u) :
    ∃ secret, RunOf crates device view command w o u reads operationFor secret := by
  subst hreading
  obtain ⟨hreads, secret, hhandled, hdelivery⟩ :=
    withSecretOutput_runs (w := { w with reads := w.reads ++ reads }) h command.output hfresh hr
  have hmoved : ∀ place, Delivery view secret { w with reads := w.reads ++ reads } o u place →
      Delivery view secret w o u place := by
    intro place hd
    cases place <;> exact hd
  refine ⟨secret, hinputs, hreads, hhandled, ?_⟩
  cases command with
  | sign args => exact absurd rfl (hsecret args)
  | _ => exact hmoved _ hdelivery

theorem sign_runOf (h : Documented crates device view) {args : SignArgs} {data : Bytes} {v : World σ}
    {o : Option (Except CliError Unit)} (hreading : Reading [(args.input, data)] w v)
    (hr : Fallible.Runs (environment device)
      (signature crates args data >>= fun signature => writeOutput args.output signature) v o u) :
    ∃ secret, RunOf crates device view (.sign args) w o u [(args.input, data)] (signOperation crates args data)
      secret := by
  subst hreading
  have hsignature : ∀ {o' : Option (Except CliError Bytes)} {x : World σ}, Fallible.Runs (environment device)
      (signature crates args data) { w with reads := w.reads ++ [(args.input, data)] } o' x →
        ∃ secret, Handled crates device view args.pin args.slot (signOperation crates args data) w x secret ∧
          Beside w x ∧ x.reads = w.reads ++ [(args.input, data)] ∧ ∀ b, o' = some (.ok b) → secret = some b := by
    intro o' x hx
    have hconducts : ∀ algorithm, Conducts crates device view args.pin args.slot id
        (signOperation crates args data algorithm) _ := conducts_signature h args data
    exact keyed_runs (w := { w with reads := w.reads ++ [(args.input, data)] }) h hconducts hx
  have hunwritten : ∀ {secret : Option Bytes} {x : World σ} {o' : Option (Except CliError Unit)}, Beside w x →
      o' ≠ some (.ok ()) → SignatureDelivery secret w o' x :=
    fun hbeside ho => ⟨0, fun hok => absurd hok ho, .inl ⟨hbeside.1, by rw [hbeside.2.1]; simp⟩⟩
  rcases Fallible.bind_iff.mp hr with ⟨rfl, hx⟩ | ⟨e, rfl, hx⟩ | ⟨bytes, x, hx, hrest⟩
  · obtain ⟨secret, hhandled, hbeside, hreads, -⟩ := hsignature hx
    exact ⟨secret, .sign args data, hreads, hhandled, hunwritten hbeside (fun h => by cases h)⟩
  · obtain ⟨secret, hhandled, hbeside, hreads, -⟩ := hsignature hx
    exact ⟨secret, .sign args data, hreads, hhandled, hunwritten hbeside (fun h => by cases h)⟩
  · obtain ⟨secret, hhandled, hbeside, hreads, hbytes⟩ := hsignature hx
    obtain rfl := hbytes bytes rfl
    obtain ⟨haside, n, hlength, hplaced⟩ := writeOutput_runs view hrest
    refine ⟨some bytes, .sign args data, haside.reads.trans hreads, hhandled.around (.refl w) haside, n, hlength, ?_⟩
    rw [hbeside.1, hbeside.2.1] at hplaced
    exact hplaced

/-- A command reads its inputs; then it has come to nothing, or it handles what they
determine and delivers the result. -/
theorem privateKey_runs (h : Documented crates device view) {command : PrivateKeyCommand}
    (hfresh : w.output.events = []) {o : Option (Except CliError Unit)}
    (hr : Fallible.Runs (environment device) (privateKey crates command) w o u) :
    (∃ reads, Reading reads w u ∧ o ≠ some (.ok ())) ∨
      ∃ reads operationFor secret, RunOf crates device view command w o u reads operationFor secret := by
  have hone : ∀ {place : Place} {f : Bytes → Command Unit},
      Fallible.Runs (environment device) (readInput place >>= f) w o u →
      (∀ {data : Bytes} {v : World σ}, Reading [(place, data)] w v → Fallible.Runs (environment device) (f data) v o u →
        ∃ reads operationFor secret, RunOf crates device view command w o u reads operationFor secret) →
      (∃ reads, Reading reads w u ∧ o ≠ some (.ok ())) ∨
        ∃ reads operationFor secret, RunOf crates device view command w o u reads operationFor secret := by
    intro place f hx hf
    rcases readInput_bind hx with ⟨rfl, ho⟩ | ⟨data, v, hreading, hrest⟩
    · exact .inl ⟨[], .refl u, ho⟩
    · exact .inr (hf hreading hrest)
  cases command with
  | sign args =>
    exact hone hr fun {data v} hreading hrest => ⟨_, _, sign_runOf h hreading hrest⟩
  | decrypt args =>
    exact hone hr fun {data v} hreading hrest =>
      ⟨_, _, secret_runOf h (.decrypt args data) hreading hfresh (fun _ h => by cases h) hrest⟩
  | derive args =>
    exact hone hr fun {data v} hreading hrest =>
      ⟨_, _, secret_runOf h (.derive args data) hreading hfresh (fun _ h => by cases h) hrest⟩
  | decapsulate args =>
    exact hone hr fun {data v} hreading hrest =>
      ⟨_, _, secret_runOf h (.decapsulate args data) hreading hfresh (fun _ h => by cases h) hrest⟩
  | agreeSm2 args =>
    rcases readInput_bind hr with ⟨rfl, ho⟩ | ⟨peerStatic, v₁, hreading₁, hr₁⟩
    · exact .inl ⟨[], .refl u, ho⟩
    rcases readInput_bind hr₁ with ⟨rfl, ho⟩ | ⟨peerEphemeral, v₂, hreading₂, hr₂⟩
    · exact .inl ⟨_, hreading₁, ho⟩
    have hreading : Reading [(args.peerStatic, peerStatic), (args.peerEphemeral, peerEphemeral)] w v₂ := by
      rw [Reading] at hreading₁ hreading₂
      rw [Reading, hreading₂, hreading₁]
      simp
    rcases Fallible.orThrow_bind_iff.mp hr₂ with ⟨e, -, rfl, rfl⟩ | ⟨userId, huser, hr₃⟩
    · exact .inl ⟨_, hreading, fun h => by cases h⟩
    rcases Fallible.orThrow_bind_iff.mp hr₃ with ⟨e, -, rfl, rfl⟩ | ⟨peerId, hpeer, hr₄⟩
    · exact .inl ⟨_, hreading, fun h => by cases h⟩
    exact .inr ⟨_, _, secret_runOf h (.agreeSm2 args peerStatic peerEphemeral huser hpeer) hreading hfresh
      (fun _ h => by cases h) hr₄⟩

end Runs

end PivPrivateKeys
