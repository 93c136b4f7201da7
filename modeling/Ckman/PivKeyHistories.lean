import Ckman.PivSecretRuns
import Ckman.ReferenceCard

/-!
# What becomes of secrets and of the PIN

A destination holds what it held or the complete secret that the card has
computed for the inputs. The PIN is presented when the card has refused to act
without it, and over any sequence of commands it is blocked only by wrong PINs.
-/
namespace PivPrivateKeys

open Host Interaction PivKeys
open CommandLine (Path)
open OutputFile (Files Stage Opened Discarded Stranded Replaced)
open Piv (Access Algorithm Device DriveError Operation Slot)

namespace Fixture

open Reference (selectCommand verifyCommand metadataCommand success denied wrong notFound blocked unsupported
  failure finish step validSecret padded unpadded unpadded_padded blockOf metadataOf)

structure Chip where
  card : KeyCard
  verified : Bool

/-- A public key of X25519, and what the key of the card makes of it. -/
def peer : Bytes := [0xde, 0x9e, 0xdb, 0x7d, 0x7b, 0x7d, 0xc1, 0xb4, 0xd3, 0x5b, 0x61, 0xc2, 0xec, 0xe4, 0x35, 0x37,
  0x3f, 0x83, 0x43, 0xc8, 0x5b, 0x78, 0x67, 0x4d, 0xad, 0xfc, 0x7e, 0x14, 0x6f, 0x88, 0x2b, 0x4f]

def shared : Bytes := [0x4a, 0x5d, 0x9d, 0x5b, 0xa4, 0xce, 0x2d, 0xe1, 0x72, 0x8e, 0x3b, 0xf4, 0x80, 0x35, 0x0f, 0x25,
  0xe0, 0x7e, 0x21, 0xc9, 0x47, 0xd1, 0x9e, 0x33, 0x76, 0xf0, 0x9b, 0x3c, 0x1e, 0x16, 0x17, 0x42]

def derivation : Use := ⟨.keyManagement, .derive .x25519 peer, shared⟩

def deriveCommand : Bytes := [0x00, 0x87, 0xe1, 0x9d, 0x26, 0x7c, 0x24, 0x82, 0x00, 0x85, 0x20] ++ peer

def respond (chip : Chip) (command : Bytes) : Bytes × Chip :=
  match Piv.instruction command with
  | 0xa4 => (success, { chip with verified := false })
  | 0x20 =>
    let pin := unpadded (command.drop 5)
    (if chip.card.Accepts pin then success else if chip.card.retries = 0 then blocked else wrong,
      ⟨chip.card.verify pin, decide (chip.card.Accepts pin)⟩)
  | 0xf7 =>
    ((chip.card.algorithms .keyManagement).elim notFound fun id => [0x01, 0x01, id] ++ success, chip)
  | 0x87 =>
    if chip.verified = false then (denied, chip)
    else if command = deriveCommand then
      ([0x7c, 0x22, 0x82, 0x20] ++ shared ++ success, { chip with card := chip.card.used derivation })
    else (unsupported, chip)
  | _ => (unsupported, chip)

def keyDevice : Device IoError Chip := fun chip command response after =>
  response = .ok (respond chip command).1 ∧ after = (respond chip command).2

def sharedOf (response : Bytes) : Except Piv.Error Bytes :=
  if response = denied then .error (failure .securityStatusNotSatisfied)
  else if response.head? = some 0x7c then .ok (blockOf response)
  else .error (failure .unsupportedFeature)

def deriveKey (access : Access) : Except Piv.Error (Operation Bytes) :=
  match access with
  | .none => .ok (step selectCommand (finish deriveCommand sharedOf))
  | .pin pin =>
    if validSecret pin.bytes then
      .ok (step selectCommand (step (verifyCommand pin.bytes) (finish deriveCommand sharedOf)))
    else .error (failure .invalidArgument)
  | _ => .error (failure .invalidArgument)

def keyCrates : PrivateKeyCrates where
  codec := PivKeys.Fixture.codec
  digest hash _ := List.replicate hash.outputLength 0
  perform slot operation access :=
    match operation with
    | .derive .x25519 point =>
      if slot = .keyManagement ∧ point = peer then deriveKey access else .error (failure .unsupportedFeature)
    | _ => .error (failure .unsupportedFeature)
  piv := Reference.crates Reference.knownAnswers
  keyMetadata slot :=
    if slot = .keyManagement then .ok (step selectCommand (finish (metadataCommand 0x9d) metadataOf))
    else .error (failure .unsupportedFeature)
  algorithmFromWireId id := if id = 0xe1 then some .x25519 else none

section Documented

variable {T : Type} {w u : Piv.World Chip}

theorem respond_runs {command : Bytes} {next : Bytes → Operation T} {o : Option (Except (DriveError IoError) T)}
    (hr : Fallible.Runs (Piv.environment keyDevice) (Piv.execute (.exchange command next)) w o u) :
    (o = none ∧ u = w) ∨ ∃ v, v.card = (respond w.card command).2 ∧
      Fallible.Runs (Piv.environment keyDevice) (Piv.execute (next (respond w.card command).1)) v o u := by
  rw [Piv.execute] at hr
  rcases Run.ask_iff.mp hr with ⟨rfl, rfl⟩ | ⟨r, v, ⟨⟨rfl, hcard⟩, -⟩, hrest⟩
  · exact .inl ⟨rfl, rfl⟩
  · exact .inr ⟨v, hcard, hrest⟩

/-- After the applet is selected, no PIN is verified. -/
theorem select_runs {next : Operation T} {o : Option (Except (DriveError IoError) T)}
    (hr : Fallible.Runs (Piv.environment keyDevice) (Piv.execute (step selectCommand next)) w o u) :
    (o = none ∧ u = w) ∨ ∃ v, v.card = ⟨w.card.card, false⟩ ∧
      Fallible.Runs (Piv.environment keyDevice) (Piv.execute next) v o u :=
  respond_runs hr

theorem finish_runs {command : Bytes} {result : Bytes → Except Piv.Error T} {o : Option (Except (DriveError IoError) T)}
    (hr : Fallible.Runs (Piv.environment keyDevice) (Piv.execute (finish command result)) w o u) :
    (o = none ∧ u = w) ∨
      o = some ((result (respond w.card command).1).mapError .protocol) ∧ u.card = (respond w.card command).2 := by
  rcases respond_runs hr with hstopped | ⟨v, hcard, hrest⟩
  · exact .inl hstopped
  · obtain ⟨rfl, rfl⟩ := Fallible.orThrow_iff.mp hrest
    exact .inr ⟨rfl, hcard⟩

theorem metadata_respond (chip : Chip) : respond chip (metadataCommand 0x9d) =
    ((chip.card.algorithms .keyManagement).elim notFound fun id => [0x01, 0x01, id] ++ success, chip) := by
  have hinstruction : Piv.instruction (metadataCommand 0x9d) = 0xf7 := rfl
  simp only [respond, hinstruction]

theorem derive_respond (chip : Chip) : respond chip deriveCommand =
    if chip.verified = false then (denied, chip)
    else ([0x7c, 0x22, 0x82, 0x20] ++ shared ++ success, { chip with card := chip.card.used derivation }) := by
  have hinstruction : Piv.instruction deriveCommand = 0x87 := rfl
  simp only [respond, hinstruction, if_true]

/-- Only the right PIN leads on. -/
theorem verify_runs {pin : Bytes} (hvalid : validSecret pin = true) {next : Operation T}
    {o : Option (Except (DriveError IoError) T)}
    (hr : Fallible.Runs (Piv.environment keyDevice) (Piv.execute (step (verifyCommand pin) next)) w o u) :
    ((u.card.card = w.card.card ∨ u.card.card = w.card.card.verify pin) ∧ ∀ output, o ≠ some (.ok output)) ∨
      w.card.card.Accepts pin ∧ ∃ v, v.card = ⟨w.card.card.verify pin, true⟩ ∧
        Fallible.Runs (Piv.environment keyDevice) (Piv.execute next) v o u := by
  have hrespond : respond w.card (verifyCommand pin) =
      (if w.card.card.Accepts pin then success else if w.card.card.retries = 0 then blocked else wrong,
        ⟨w.card.card.verify pin, decide (w.card.card.Accepts pin)⟩) := by
    have hinstruction : Piv.instruction (verifyCommand pin) = 0x20 := rfl
    have hdrop : (verifyCommand pin).drop 5 = padded pin := rfl
    simp only [respond, hinstruction, hdrop, unpadded_padded hvalid]
  rcases respond_runs hr with ⟨rfl, rfl⟩ | ⟨v, hv, hrest⟩
  · exact .inl ⟨.inl rfl, fun _ h => by cases h⟩
  rw [hrespond] at hv hrest
  by_cases haccepts : w.card.card.Accepts pin
  · simp only [haccepts, if_true, decide_true] at hv hrest
    exact .inr ⟨haccepts, v, hv, hrest⟩
  · have hrefused : (if w.card.card.Accepts pin then success else if w.card.card.retries = 0 then blocked else wrong)
        ≠ success := by
      rw [if_neg haccepts]
      split <;> decide
    rw [if_neg hrefused] at hrest
    obtain ⟨rfl, rfl⟩ := Fallible.orThrow_iff.mp hrest
    exact .inl ⟨.inr (by rw [hv]), fun _ h => by cases h⟩

theorem derive_performs (access : Access) :
    Behaves keyDevice Chip.card (deriveKey access) (Performs .keyManagement (.derive .x25519 peer) access) := by
  intro op hop w o u hr
  cases access with
  | none =>
    cases hop
    refine .inl ?_
    rcases select_runs hr with ⟨rfl, rfl⟩ | ⟨v, hv, hrest⟩
    · exact ⟨rfl, fun _ ho => by cases ho⟩
    rcases finish_runs hrest with ⟨rfl, rfl⟩ | ⟨rfl, hu⟩
    · exact ⟨by rw [hv], fun _ ho => by cases ho⟩
    · rw [hv, derive_respond] at hu ⊢
      exact ⟨by rw [hu]; rfl, fun _ ho => by cases ho⟩
  | pin pin =>
    rw [deriveKey] at hop
    split at hop
    · next hvalid =>
      cases hop
      rcases select_runs hr with ⟨rfl, rfl⟩ | ⟨v, hv, hrest⟩
      · exact .inl ⟨.inl rfl, fun _ ho => by cases ho⟩
      have hkept : v.card.card = w.card.card := by rw [hv]
      rcases verify_runs hvalid hrest with hrefused | ⟨haccepts, x, hx, hlast⟩
      · rw [hkept] at hrefused
        exact .inl hrefused
      rw [hkept] at haccepts hx
      refine .inr ⟨haccepts, ?_⟩
      rcases finish_runs hlast with ⟨rfl, rfl⟩ | ⟨rfl, hu⟩
      · exact .inl ⟨by rw [hx], fun _ ho => by cases ho⟩
      · rw [hx, derive_respond] at hu ⊢
        refine .inr ⟨shared, by rw [hu]; rfl, fun output ho => ?_, fun _ h => by cases h⟩
        exact (Except.ok.inj (Option.some.inj ho)).symm
    · cases hop
  | management authentication => trivial
  | pinAndManagement pin authentication => trivial

theorem documented : Documented keyCrates keyDevice Chip.card where
  keyMetadata slot op hop w o u hr := by
    dsimp only [keyCrates] at hop
    split at hop
    · next hslot =>
      subst hslot
      cases hop
      rcases select_runs hr with ⟨rfl, rfl⟩ | ⟨v, hv, hrest⟩
      · exact ⟨rfl, fun _ ho => by cases ho⟩
      rcases finish_runs hrest with ⟨rfl, rfl⟩ | ⟨rfl, hu⟩
      · exact ⟨by rw [hv], fun _ ho => by cases ho⟩
      · rw [hv, metadata_respond] at hu ⊢
        refine ⟨by rw [hu], fun fields ho => ?_⟩
        have hmetadata : metadataOf ((w.card.card.algorithms .keyManagement).elim notFound fun id =>
            [0x01, 0x01, id] ++ success) = .ok fields := Except.mapError_eq_ok_iff.mp (Option.some.inj ho)
        cases hid : w.card.card.algorithms .keyManagement with
        | none =>
          rw [hid] at hmetadata
          cases hmetadata
        | some id =>
          rw [hid] at hmetadata
          cases hmetadata
          rfl
    · cases hop
  perform slot operation access op hop := by
    dsimp only [keyCrates] at hop
    split at hop
    · next point =>
      split at hop
      · next heq =>
        obtain ⟨rfl, rfl⟩ := heq
        exact derive_performs access op hop
      · cases hop
    · cases hop

end Documented

/-- A host whose user enters the default PIN, and whose only input is the public key. -/
def answer : Bool → (q : Request) → World Chip → Option (Answer q × World Chip)
  | _, .command (.card (.exchange command)), w =>
    some (.ok (respond w.command.piv.card command).1, { w with
      command := { w.command with
        piv := ⟨(respond w.command.piv.card command).2, w.command.piv.log ++ [command]⟩ } })
  | _, .command (.prompt _), w => some (.ok "123456", { w with typed := w.typed ++ ["123456"] })
  | works, .output q, w => (OutputFile.Fixture.answer works q w.output).map fun (r, output) =>
    (r, { w with output := output })
  | _, .connect, w => some (.ok (), { w with reached := true })
  | _, .read place, w => some (.ok peer, { w with reads := w.reads ++ [(place, peer)] })
  | _, _, _ => none

theorem answer_environment (works : Bool) (q : Request) (w : World Chip) (r : Answer q) (v : World Chip)
    (h : answer works q w = some (r, v)) : environment keyDevice q w r v := by
  cases q with
  | command request =>
    cases request with
    | card request =>
      cases request with
      | exchange command =>
        cases h
        refine ⟨{ w.command with piv := ⟨(respond w.command.piv.card command).2, w.command.piv.log ++ [command]⟩ },
          ⟨⟨⟨rfl, rfl⟩, rfl⟩, rfl, rfl⟩, ?_⟩
        simp [typedAt]
      | fill n => cases h
      | panicked => exact nomatch r
    | prompt text =>
      cases h
      exact ⟨_, ⟨rfl, rfl, (List.append_nil _).symm⟩, rfl⟩
    | _ => cases h
  | output q =>
    obtain ⟨⟨r', output⟩, houtput, hreply⟩ := Option.map_eq_some_iff.mp h
    cases hreply
    exact ⟨output, OutputFile.Fixture.answer_environment works q _ _ _ houtput, rfl⟩
  | connect | read place =>
    cases h
    rfl
  | _ => cases h

/-- The PIN is 123456; three wrong ones block it. -/
def card : KeyCard where
  pin := asBytes "123456"
  retries := 3
  retryLimit := 3
  algorithms slot := if slot = .keyManagement then some 0xe1 else none
  presented := []
  uses := []

def start : World Chip where
  command := ⟨⟨⟨card, false⟩, []⟩, fun _ => none, []⟩
  output := ⟨fun _ => none, []⟩
  reached := false
  typed := []
  reads := []
  stdout := []
  announced := []

def deriveTo (output : Place) (pin : Option String) : PrivateKeyCommand :=
  .derive ⟨.keyManagement, .path [.normal "peer.bin"], output, pin⟩

def played (command : PrivateKeyCommand) (w : World Chip) : Option (Except CliError Unit) × World Chip :=
  follow answer (List.replicate 70 true) (privateKey keyCrates command) w

theorem played_runs (command : PrivateKeyCommand) (w : World Chip) :
    Fallible.Runs (environment keyDevice) (privateKey keyCrates command) w (played command w).1 (played command w).2 :=
  run_follow answer_environment (List.replicate 70 true) (privateKey keyCrates command) w

def prompted : PrivateKeyCommand := deriveTo (.path [.rootDir, .normal "shared.bin"]) none

def mistaken : PrivateKeyCommand := deriveTo .stream (some "654321")

end Fixture

section Runs

variable {σ : Type} {crates : PrivateKeyCrates} {device : Device IoError σ} {view : σ → KeyCard} {w u : World σ}

section Published

variable {files : Files} {secret : Option Bytes} {x : OutputFile.World} {o : Option (Except CliError Unit)}

theorem FileDelivery.stage (h : FileDelivery secret files o x) : Stage secret files x := by
  cases h with
  | stopped h => exact h
  | refused => exact .untouched rfl
  | discarded h => exact .discarded _ h
  | stranded hsecret h => exact .stranded _ _ _ hsecret h
  | replaced hsecret h => exact .replaced _ _ _ hsecret h

/-- A command that has ended leaves no incomplete file behind, unless removing it failed. -/
theorem FileDelivery.cleaned (h : FileDelivery secret files o x) (ho : o ≠ none) {path : Path}
    (hcreated : .created path ∈ x.events) :
    x.files path = none ∨ x.RemovalFailed path ∨ ∃ bytes, secret = some bytes ∧ x.Holds path bytes := by
  cases h with
  | stopped => exact absurd rfl ho
  | refused => cases hcreated
  | discarded hdiscarded =>
    obtain rfl := hdiscarded.created_iff.mp hcreated
    exact hdiscarded.gone.imp_right .inl
  | stranded hsecret hstranded =>
    obtain rfl := hstranded.created_iff.mp hcreated
    exact .inr (.inr ⟨_, hsecret, hstranded.opened.2.1⟩)
  | @replaced temporary destination bytes _ hsecret hreplaced =>
    obtain rfl := hreplaced.created_iff.mp hcreated
    by_cases hsame : path = destination
    · exact .inr (.inr ⟨bytes, hsecret, hsame ▸ hreplaced.holds⟩)
    · exact .inl (hreplaced.gone hsame)

/-- A secret was computed by the one use of the key. -/
theorem Handled.secret_used {slot : Slot} {pin : Option String}
    {operationFor : Algorithm → Except CliError KeyOperation}
    (h : Handled crates device view pin slot operationFor w u secret) {bytes : Bytes} (hbytes : secret = some bytes) :
    ∃ use, (u.card view).uses = (w.card view).uses ++ [use] ∧ use.slot = slot ∧
      Determined crates (w.card view) slot operationFor use.operation ∧ secretOf use.operation use.output = bytes := by
  rcases h with ⟨-, -, rfl⟩ | ⟨operation, output, hdetermined, hconduct, rfl⟩
  · cases hbytes
  obtain ⟨value, rfl, rfl⟩ := Option.map_eq_some_iff.mp hbytes
  generalize hd : u.card view = d at hconduct
  generalize u.typed = typed at hconduct
  cases hconduct with
  | used => exact ⟨⟨slot, operation, value⟩, rfl, rfl, hdetermined, rfl⟩
  | usedWithPin => exact ⟨⟨slot, operation, value⟩, rfl, rfl, hdetermined, rfl⟩

/-- A command with a secret destination publishes nothing but the complete secret,
which the card has computed by one use of the key for what the inputs determine:
every path but that of the temporary file holds what it held or this secret. The
device is not looked for before the temporary file is there, and when the command
ends, that file is gone, complete, or could not be removed. -/
theorem secret_published (h : Documented crates device view) {command : PrivateKeyCommand} {path : Path}
    (hsecret : ∀ args, command ≠ .sign args) (hplace : command.output = .path path) (hfresh : w.output.events = [])
    (hreached : w.reached = false)
    (hr : Fallible.Runs (environment device) (privateKey crates command) w o u) :
    u.stdout = w.stdout ∧ (u.reached = true → HasTemporary w.output.files u.output) ∧ ∃ secret : Option Bytes,
      (∀ bytes, secret = some bytes → ∃ reads operationFor use, u.reads = w.reads ++ reads ∧
        Inputs crates command reads operationFor ∧ (u.card view).uses = (w.card view).uses ++ [use] ∧
        use.slot = command.slot ∧ Determined crates (w.card view) command.slot operationFor use.operation ∧
        secretOf use.operation use.output = bytes) ∧
      (∀ p, .created p ∉ u.output.events → OutputFile.OldOrNew secret w.output.files u.output p) ∧
      (o = some (.ok ()) → ∃ destination bytes, secret = some bytes ∧ u.output.Holds destination bytes) ∧
      (o ≠ none → ∀ p, .created p ∈ u.output.events →
        u.output.files p = none ∨ u.output.RemovalFailed p ∨
          ∃ bytes, secret = some bytes ∧ u.output.Holds p bytes) := by
  rcases privateKey_runs h hfresh hr with ⟨reads, hreading, ho⟩ | ⟨reads, operationFor, secret, hrun⟩
  · rw [Reading] at hreading
    have houtput : u.output = w.output := by rw [hreading]
    refine ⟨by rw [hreading], fun hu => ?_, none, by simp, fun p _ => .inl (by rw [houtput]),
      fun hok => absurd hok ho, fun _ p hp => ?_⟩
    · rw [hreading] at hu
      exact absurd (hu.symm.trans hreached) (by decide)
    · rw [houtput, hfresh] at hp
      cases hp
  · have hdelivery : Delivery view secret w o u (.path path) := by
      have hdelivers := hrun.delivers
      cases command with
      | sign args => exact absurd rfl (hsecret args)
      | _ => exact hplace ▸ hdelivers
    obtain ⟨hstdout, hfile, hprepared⟩ := hdelivery
    refine ⟨hstdout, fun hu => ?_, secret, fun bytes hbytes => ?_, fun p hp => ?_, fun hok => ?_, fun ho p hp => ?_⟩
    · refine hprepared.resolve_left fun hunreached => ?_
      exact absurd (hu.symm.trans (hunreached.1.trans hreached)) (by decide)
    · obtain ⟨use, huses, hslot, hdetermined, houtput⟩ := hrun.handled.secret_used hbytes
      exact ⟨reads, operationFor, use, hrun.reads, hrun.inputs, huses, hslot, hdetermined, houtput⟩
    · rcases hfile.stage.cases with hsame | ⟨temporary, -, hcreated, hothers⟩
      · rw [hsame]
        exact .inl rfl
      · exact hothers p fun hpath => hp ((hcreated p).mpr hpath)
    · subst hok
      generalize hx : u.output = x at hfile
      cases hfile with
      | replaced hbytes hreplaced => exact ⟨_, _, hbytes, hreplaced.holds⟩
    · exact hfile.cleaned ho hp

theorem secret_published_prompted :
    let run := Fixture.played Fixture.prompted Fixture.start
    HasTemporary Fixture.start.output.files run.2.output ∧ ∃ destination bytes use,
      run.2.output.Holds destination bytes ∧ (run.2.card Fixture.Chip.card).uses = [use] ∧
        secretOf use.operation use.output = bytes := by
  intro run
  have hdone : run.1 = some (.ok ()) := by decide +kernel
  have hreached : run.2.reached = true := by decide +kernel
  have hsecret : ∀ args, Fixture.prompted ≠ .sign args := fun _ heq => by cases heq
  obtain ⟨-, htemporary, secret, hused, -, hholds, -⟩ := secret_published Fixture.documented hsecret rfl rfl rfl
    (Fixture.played_runs Fixture.prompted Fixture.start)
  obtain ⟨destination, bytes, hbytes, hheld⟩ := hholds hdone
  obtain ⟨-, -, use, -, -, huses, -, -, hsecret⟩ := hused bytes hbytes
  exact ⟨htemporary hreached, destination, bytes, use, hheld, huses, hsecret⟩

end Published

/-- A command presents no PIN and asks for none, unless the card has refused, without
one, the operation that the inputs determine. Then it presents one PIN at most, the
one that it was given or else the one that the user enters, and after a PIN that is
not accepted the key is not used. -/
theorem pin_last_resort (h : Documented crates device view) {command : PrivateKeyCommand}
    {o : Option (Except CliError Unit)} (hfresh : w.output.events = [])
    (hr : Fallible.Runs (environment device) (privateKey crates command) w o u) :
    (u.typed = w.typed ∧ (u.card view).presented = (w.card view).presented ∧
        (u.card view).retries = (w.card view).retries) ∨
      ∃ reads operationFor operation text, u.reads = w.reads ++ reads ∧ Inputs crates command reads operationFor ∧
        Determined crates (w.card view) command.slot operationFor operation ∧
        RefusesWithoutPin crates device view (w.card view) command.slot operation ∧
        Supplies command.pin w.typed text u.typed ∧
        (command.pin = none ∧ u.card view = w.card view ∨ u.card view = (w.card view).verify (asBytes text) ∨
          (w.card view).Accepts (asBytes text) ∧ ∃ output,
            u.card view = ((w.card view).verify (asBytes text)).used ⟨command.slot, operation, output⟩) := by
  rcases privateKey_runs h hfresh hr with ⟨reads, hreading, -⟩ | ⟨reads, operationFor, secret, hrun⟩
  · rw [Reading] at hreading
    rw [hreading]
    exact .inl ⟨rfl, rfl, rfl⟩
  rcases hrun.handled with ⟨hcard, htyped, -⟩ | ⟨operation, output, hdetermined, hconduct, -⟩
  · rw [hcard]
    exact .inl ⟨htyped, rfl, rfl⟩
  generalize hd : u.card view = d at hconduct ⊢
  generalize htyped : u.typed = typed at hconduct ⊢
  cases hconduct with
  | unused => exact .inl ⟨rfl, rfl, rfl⟩
  | used value => exact .inl ⟨rfl, rfl, rfl⟩
  | entered text hrefused hnone =>
    exact .inr ⟨reads, operationFor, operation, text, hrun.reads, hrun.inputs, hdetermined, hrefused,
      .inr ⟨hnone, rfl⟩, .inl ⟨hnone, rfl⟩⟩
  | presented hrefused hsupplies =>
    exact .inr ⟨reads, operationFor, operation, _, hrun.reads, hrun.inputs, hdetermined, hrefused, hsupplies,
      .inr (.inl rfl)⟩
  | usedWithPin value hrefused hsupplies haccepts =>
    exact .inr ⟨reads, operationFor, operation, _, hrun.reads, hrun.inputs, hdetermined, hrefused, hsupplies,
      .inr (.inr ⟨haccepts, value, rfl⟩)⟩

theorem pin_last_resort_mistaken :
    let run := Fixture.played Fixture.mistaken Fixture.start
    (run.2.card Fixture.Chip.card).presented = [asBytes "654321"] ∧ ∃ operation,
      RefusesWithoutPin Fixture.keyCrates Fixture.keyDevice Fixture.Chip.card Fixture.card .keyManagement
        operation := by
  intro run
  have hpresented : (run.2.card Fixture.Chip.card).presented = [asBytes "654321"] := by decide +kernel
  refine ⟨hpresented, ?_⟩
  rcases pin_last_resort Fixture.documented rfl (Fixture.played_runs Fixture.mistaken Fixture.start) with
    ⟨-, hunpresented, -⟩ | ⟨-, -, operation, -, -, -, -, hrefused, -⟩
  · exact absurd (hpresented.symm.trans hunpresented) (by decide)
  · exact ⟨operation, hrefused⟩

/-- A new process, which finds the card and the files as they are. -/
def World.fresh (w : World σ) : World σ := { w with output := ⟨w.output.files, []⟩, reached := false }

/-- One command after the other, however each of them ends. -/
inductive History (crates : PrivateKeyCrates) (device : Device IoError σ) :
    List PrivateKeyCommand → World σ → World σ → Prop where
  | done (w : World σ) : History crates device [] w w
  | next {command : PrivateKeyCommand} {commands : List PrivateKeyCommand} {w v u : World σ}
      {o : Option (Except CliError Unit)} :
      Fallible.Runs (environment device) (privateKey crates command) w.fresh o v →
        History crates device commands v u → History crates device (command :: commands) w u

/-- The card has used a key for a command, on inputs that the command has read. -/
def UsedFor (crates : PrivateKeyCrates) (c : KeyCard) (reads : List (Place × Bytes)) (command : PrivateKeyCommand)
    (use : Use) : Prop :=
  use.slot = command.slot ∧ ∃ operationFor, Inputs crates command reads operationFor ∧
    Determined crates c command.slot operationFor use.operation

/-- What one command has read, the PIN that it has presented, and the use of a key
that it has made. -/
structure Turn where
  reads : List (Place × Bytes)
  tried : Option Bytes
  use : Option Use

/-- What a sequence of commands does to a card, each in a turn of its own. -/
structure Course (crates : PrivateKeyCrates) (commands : List PrivateKeyCommand) (turns : List Turn)
    (c d : KeyCard) : Prop where
  pin : d.pin = c.pin
  retryLimit : d.retryLimit = c.retryLimit
  algorithms : d.algorithms = c.algorithms
  presented : d.presented = c.presented ++ turns.filterMap Turn.tried
  limited : d.retries ≤ d.retryLimit
  retries : c.retries ≤ d.retries + ((turns.filterMap Turn.tried).filter (· ≠ c.pin)).length
  used : d.uses = c.uses ++ turns.filterMap Turn.use
  each : List.Forall₂ (fun command turn => ∀ use ∈ turn.use, UsedFor crates c turn.reads command use) commands turns

theorem verify_retries {c : KeyCard} (hlimit : c.retries ≤ c.retryLimit) (pin : Bytes) :
    (c.verify pin).retries ≤ c.retryLimit ∧
      c.retries ≤ (c.verify pin).retries + ([pin].filter (· ≠ c.pin)).length := by
  rw [KeyCard.verify]
  by_cases haccepts : c.Accepts pin
  · simp only [haccepts, if_true, le_refl, true_and]
    omega
  · simp only [haccepts, if_false]
    refine ⟨by omega, ?_⟩
    by_cases hpin : pin = c.pin
    · have hblocked : c.retries = 0 := by
        by_contra hretries
        exact haccepts ⟨hretries, hpin⟩
      omega
    · simp only [ne_eq, hpin, not_false_eq_true, decide_true, List.filter_cons_of_pos, List.filter_nil,
        List.length_singleton]
      omega

/-- A command that has come to nothing. -/
theorem Course.idle {c : KeyCard} (command : PrivateKeyCommand) (reads : List (Place × Bytes))
    (hlimit : c.retries ≤ c.retryLimit) : Course crates [command] [⟨reads, none, none⟩] c c :=
  ⟨rfl, rfl, rfl, (List.append_nil _).symm, hlimit, le_refl _, (List.append_nil _).symm,
    .cons (fun _ h => by cases h) .nil⟩

/-- One command. -/
theorem RunOf.course {command : PrivateKeyCommand} {o : Option (Except CliError Unit)} {reads : List (Place × Bytes)}
    {operationFor : Algorithm → Except CliError KeyOperation} {secret : Option Bytes}
    (h : RunOf crates device view command w o u reads operationFor secret)
    (hlimit : (w.card view).retries ≤ (w.card view).retryLimit) :
    ∃ tried use, Course crates [command] [⟨reads, tried, use⟩] (w.card view) (u.card view) := by
  rcases h.handled with ⟨hcard, -, -⟩ | ⟨operation, output, hdetermined, hconduct, -⟩
  · rw [hcard]
    exact ⟨none, none, .idle command reads hlimit⟩
  have huse : ∀ value : operation.Output, ∀ use ∈ some (⟨command.slot, operation, value⟩ : Use),
      UsedFor crates (w.card view) reads command use := by
    intro value use hmem
    cases hmem
    exact ⟨rfl, operationFor, h.inputs, hdetermined⟩
  generalize hd : u.card view = d at hconduct
  generalize u.typed = typed at hconduct
  cases hconduct with
  | unused | entered => exact ⟨none, none, .idle command reads hlimit⟩
  | used value =>
    exact ⟨none, some ⟨command.slot, operation, value⟩, rfl, rfl, rfl, (List.append_nil _).symm, hlimit, le_refl _,
      rfl, .cons (huse value) .nil⟩
  | @presented text =>
    obtain ⟨hafter, hretries⟩ := verify_retries hlimit (asBytes text)
    exact ⟨some (asBytes text), none, rfl, rfl, rfl, rfl, hafter, hretries, (List.append_nil _).symm,
      .cons (fun _ h => by cases h) .nil⟩
  | @usedWithPin text _ value =>
    obtain ⟨hafter, hretries⟩ := verify_retries hlimit (asBytes text)
    exact ⟨some (asBytes text), some ⟨command.slot, operation, value⟩, rfl, rfl, rfl, rfl, hafter, hretries, rfl,
      .cons (huse value) .nil⟩

theorem UsedFor.transfer {c d : KeyCard} {reads : List (Place × Bytes)} (halgorithms : d.algorithms = c.algorithms)
    {command : PrivateKeyCommand} {use : Use} (h : UsedFor crates d reads command use) :
    UsedFor crates c reads command use := by
  obtain ⟨hslot, operationFor, hinputs, id, algorithm, hid, hrest⟩ := h
  exact ⟨hslot, operationFor, hinputs, id, algorithm, halgorithms ▸ hid, hrest⟩

theorem Course.cons {command : PrivateKeyCommand} {commands : List PrivateKeyCommand} {turn : Turn}
    {turns : List Turn} {c d e : KeyCard} (h₁ : Course crates [command] [turn] c d)
    (h₂ : Course crates commands turns d e) : Course crates (command :: commands) (turn :: turns) c e where
  pin := h₂.pin.trans h₁.pin
  retryLimit := h₂.retryLimit.trans h₁.retryLimit
  algorithms := h₂.algorithms.trans h₁.algorithms
  presented := by
    rw [← List.singleton_append, List.filterMap_append, h₂.presented, h₁.presented, List.append_assoc]
  limited := h₂.limited
  retries := by
    have hfirst := h₁.retries
    have hrest := h₂.retries
    rw [h₁.pin] at hrest
    rw [← List.singleton_append, List.filterMap_append, List.filter_append, List.length_append]
    omega
  used := by rw [← List.singleton_append, List.filterMap_append, h₂.used, h₁.used, List.append_assoc]
  each := by
    obtain ⟨hfirst, -⟩ := List.forall₂_cons.mp h₁.each
    exact .cons hfirst (h₂.each.imp fun _ _ huses use hmem => (huses use hmem).transfer h₁.algorithms)

/-- Over every sequence of private key commands, however each of them ends: the PIN
and the keys stay what they are; each command presents at most one PIN, and the
retry counter falls only by wrong ones; and the card uses its keys at most once for
each command, in their order, for what the command's own inputs determine. -/
theorem history_conduct (h : Documented crates device view) {commands : List PrivateKeyCommand}
    (hhistory : History crates device commands w u) (hlimit : (w.card view).retries ≤ (w.card view).retryLimit) :
    ∃ turns, u.reads = w.reads ++ turns.flatMap Turn.reads ∧
      Course crates commands turns (w.card view) (u.card view) := by
  induction hhistory with
  | done w =>
    exact ⟨[], (List.append_nil _).symm, rfl, rfl, rfl, (List.append_nil _).symm, hlimit, le_refl _,
      (List.append_nil _).symm, .nil⟩
  | @next command commands w v u o hr _ ih =>
    have hfirst : ∃ turn : Turn, v.reads = w.reads ++ turn.reads ∧
        Course crates [command] [turn] (w.card view) (v.card view) := by
      rcases privateKey_runs (w := w.fresh) h rfl hr with ⟨reads, hreading, -⟩ | ⟨reads, operationFor, secret, hrun⟩
      · rw [Reading] at hreading
        have hcard : v.card view = w.card view := by
          rw [hreading]
          rfl
        refine ⟨⟨reads, none, none⟩, by rw [hreading]; rfl, ?_⟩
        rw [hcard]
        exact .idle command reads hlimit
      · obtain ⟨tried, use, hcourse⟩ := hrun.course hlimit
        exact ⟨⟨reads, tried, use⟩, hrun.reads, hcourse⟩
    obtain ⟨turn, hreads, hcourse⟩ := hfirst
    obtain ⟨turns, hrest, hcourses⟩ := ih hcourse.limited
    refine ⟨turn :: turns, ?_, hcourse.cons hcourses⟩
    rw [hrest, hreads, List.append_assoc, List.flatMap_cons]

/-- A wrong PIN, and then the right one. -/
theorem history_conduct_mistaken :
    let w := (Fixture.played Fixture.mistaken Fixture.start.fresh).2
    let u := (Fixture.played Fixture.prompted w.fresh).2
    (u.card Fixture.Chip.card).presented = [asBytes "654321", asBytes "123456"] ∧ ∃ turns,
      Course Fixture.keyCrates [Fixture.mistaken, Fixture.prompted] turns Fixture.card (u.card Fixture.Chip.card) := by
  intro w u
  have hhistory : History Fixture.keyCrates Fixture.keyDevice [Fixture.mistaken, Fixture.prompted] Fixture.start u :=
    .next (Fixture.played_runs Fixture.mistaken _) (.next (Fixture.played_runs Fixture.prompted _) (.done u))
  obtain ⟨turns, -, hcourse⟩ := history_conduct Fixture.documented hhistory (le_refl _)
  exact ⟨by decide +kernel, turns, hcourse⟩

end Runs

end PivPrivateKeys
