import Ckman.PivPrivateKeys

/-!
# Presenting the PIN and using a key

Whatever happens to a private key command, it presents at most one PIN, only
after the card has refused to act without one, and it has the card use the key
at most once, for what its input and the algorithm of the slot determine.
-/
namespace PivPrivateKeys

open Host Interaction PivKeys
open CommandLine (Path)
open Piv (Access Algorithm Device DriveError Operation PivError Slot)
open RsaSignature (HashAlgorithm)

structure Use where
  slot : Slot
  operation : KeyOperation
  output : operation.Output

/-- The card, as far as private keys and the PIN go, and what it has been through. -/
structure KeyCard where
  pin : Bytes
  retries : Nat
  retryLimit : Nat
  /-- The wire identifier of the key in a slot. -/
  algorithms : Slot → Option UInt8
  /-- The PINs that were presented, oldest first. -/
  presented : List Bytes
  uses : List Use

namespace KeyCard

def Accepts (c : KeyCard) (pin : Bytes) : Prop := c.retries ≠ 0 ∧ pin = c.pin

instance (c : KeyCard) (pin : Bytes) : Decidable (c.Accepts pin) := inferInstanceAs (Decidable (_ ∧ _))

/-- The card after a PIN was presented. -/
def verify (c : KeyCard) (pin : Bytes) : KeyCard :=
  { c with
    presented := c.presented ++ [pin]
    retries := if c.Accepts pin then c.retryLimit else c.retries - 1 }

def used (c : KeyCard) (use : Use) : KeyCard := { c with uses := c.uses ++ [use] }

end KeyCard

section Behaviour

variable {σ T : Type}

/-- What an operation may do to a card, and with which result. -/
def Behaves (device : Device IoError σ) (view : σ → KeyCard) (operation : Except Piv.Error (Operation T))
    (behaviour : KeyCard → Option (Except (DriveError IoError) T) → KeyCard → Prop) : Prop :=
  ∀ op, operation = .ok op → ∀ w o u, Fallible.Runs (Piv.environment device) (Piv.execute op) w o u →
    behaviour (view w.card) o (view u.card)

/-- The key is used once or not at all; a missing authorisation is noticed before. -/
def UsesKey (slot : Slot) (operation : KeyOperation) (c : KeyCard)
    (o : Option (Except (DriveError IoError) operation.Output)) (d : KeyCard) : Prop :=
  (d = c ∧ ∀ output, o ≠ some (.ok output)) ∨
  ∃ output, d = c.used ⟨slot, operation, output⟩ ∧ (∀ output', o = some (.ok output') → output' = output) ∧
    ∀ e, o = some (.error (.protocol e)) → e.kind ≠ .securityStatusNotSatisfied

/-- With a PIN, the PIN is presented first, and only a right one leads on. -/
def Performs (slot : Slot) (operation : KeyOperation) (access : Access) (c : KeyCard)
    (o : Option (Except (DriveError IoError) operation.Output)) (d : KeyCard) : Prop :=
  match access with
  | .none => UsesKey slot operation c o d
  | .pin pin =>
    ((d = c ∨ d = c.verify pin.bytes) ∧ ∀ output, o ≠ some (.ok output)) ∨
      c.Accepts pin.bytes ∧ UsesKey slot operation (c.verify pin.bytes) o d
  | _ => True

structure Documented (crates : PrivateKeyCrates) (device : Device IoError σ) (view : σ → KeyCard) : Prop where
  keyMetadata : ∀ slot, Behaves device view (crates.keyMetadata slot) fun c o d =>
    d = c ∧ ∀ fields, o = some (.ok fields) → fields.algorithmId = c.algorithms slot
  perform : ∀ slot operation access,
    Behaves device view (crates.perform slot operation access) (Performs slot operation access)

theorem Behaves.run {device : Device IoError σ} {view : σ → KeyCard} {operation : Except Piv.Error (Operation T)}
    {behaviour : KeyCard → Option (Except (DriveError IoError) T) → KeyCard → Prop}
    (h : Behaves device view operation behaviour) {w u : Piv.World σ} {o : Option (Except (PivError IoError) T)}
    (hr : Fallible.Runs (Piv.environment device) (Piv.run operation) w o u) :
    (u = w ∧ ∃ e, o = some (.error e)) ∨
      ∃ o', o = o'.map (Except.mapError .drive) ∧ behaviour (view w.card) o' (view u.card) := by
  rcases Piv.Runs.run_iff.mp hr with ⟨e, he, ho, hu⟩ | ⟨op, o', hop, ho, hx⟩
  · exact .inl ⟨hu, _, ho⟩
  · exact .inr ⟨o', ho, h op hop w o' u hx⟩

end Behaviour

structure World (σ : Type) where
  command : CommandLine.World σ
  output : OutputFile.World
  /-- The device has been looked for. -/
  reached : Bool
  /-- What the user has entered at prompts, oldest first. -/
  typed : List String
  /-- What has been read from files and the standard input, oldest first. -/
  reads : List (Place × Bytes)
  stdout : Bytes
  announced : List Bytes

def typedAt : (q : CommandLine.Request) → CommandLine.Answer q → List String
  | .prompt _, .ok text => [text]
  | _, _ => []

def readAt (place : Place) : Except IoError Bytes → List (Place × Bytes)
  | .ok data => [(place, data)]
  | .error _ => []

section Runs

variable {σ : Type}

/-- A failed write may have written a part. `std::fs::write` follows links, so the
file that it changes may have another name. -/
def environment (device : Device IoError σ) : Env Answer (World σ)
  | .command q, w, r, v => ∃ command, CommandLine.environment device q w.command r command ∧
    v = { w with command := command, typed := w.typed ++ typedAt q r }
  | .output q, w, r, v => ∃ output, OutputFile.environment q w.output r output ∧ v = { w with output := output }
  | .connect, w, _, v => v = { w with reached := true }
  | .read place, w, r, v => v = { w with reads := w.reads ++ readAt place r }
  | .writeStdout data, w, r, v => ∃ n, (r = .ok () → data.length ≤ n) ∧ v = { w with stdout := w.stdout ++ data.take n }
  | .overwrite _ data, w, r, v => (v = w ∧ r ≠ .ok ()) ∨
    ∃ target n mode, (r = .ok () → data.length ≤ n) ∧ v = { w with
      output := ⟨Function.update w.output.files target (some ⟨data.take n, mode⟩), w.output.events⟩ }
  | .announce point, w, _, v => v = { w with announced := w.announced ++ [point] }

variable {crates : PrivateKeyCrates} {device : Device IoError σ} {view : σ → KeyCard} {w u : World σ} {α : Type}

def World.card (view : σ → KeyCard) (w : World σ) : KeyCard := view w.command.piv.card

/-- Nothing but the connection, the prompts and the inputs may differ. -/
def Beside (w u : World σ) : Prop := u.output = w.output ∧ u.stdout = w.stdout ∧ u.announced = w.announced

theorem Beside.trans {v : World σ} (h : Beside w v) (h' : Beside v u) : Beside w u :=
  ⟨h'.1.trans h.1, h'.2.1.trans h.2.1, h'.2.2.trans h.2.2⟩

/-- Neither the card nor the user have been asked for anything that counts. -/
structure Quiet (view : σ → KeyCard) (w u : World σ) : Prop where
  beside : Beside w u
  card : u.card view = w.card view
  typed : u.typed = w.typed
  reads : u.reads = w.reads

theorem Quiet.refl (w : World σ) : Quiet view w w := ⟨⟨rfl, rfl, rfl⟩, rfl, rfl, rfl⟩

theorem Quiet.trans {v : World σ} (h : Quiet view w v) (h' : Quiet view v u) : Quiet view w u :=
  ⟨h.beside.trans h'.beside, h'.card.trans h.card, h'.typed.trans h.typed, h'.reads.trans h.reads⟩

/-- A card operation inside a command. -/
theorem card_runs {ε : Type} {operation : Fallible (Piv.Answer IoError) ε α} {o : Option (Except ε α)}
    (hr : Fallible.Runs (environment device) (onCard operation) w o u) :
    Fallible.Runs (Piv.environment device) operation w.command.piv o u.command.piv ∧
      Beside w u ∧ u.typed = w.typed ∧ u.reads = w.reads := by
  have hcommand : Fallible.Runs (CommandLine.environment device) (CommandLine.onCard operation) w.command o
      u.command := by
    refine Run.of_lift (fun q w r v he => ?_) hr
    obtain ⟨command, hcommand, rfl⟩ := he
    exact hcommand
  refine ⟨(CommandLine.onCard_runs hcommand).1, ?_⟩
  have honly : Prog.Only (fun q => ∃ r, q = Request.command (.card r)) (onCard operation) := by
    clear hr hcommand
    induction operation with
    | pure a => trivial
    | ask q next ih => exact ⟨⟨q, rfl⟩, fun r => ih _⟩
  refine Run.preserves (I := fun v => Beside w v ∧ v.typed = w.typed ∧ v.reads = w.reads) ?_ honly hr
    ⟨⟨rfl, rfl, rfl⟩, rfl, rfl⟩
  rintro q x r v ⟨request, rfl⟩ ⟨hbeside, htyped, hreads⟩ ⟨command, -, rfl⟩
  exact ⟨hbeside, (List.append_nil _).trans htyped, hreads⟩

/-- The card refuses the operation as long as no PIN is presented. -/
def RefusesWithoutPin (crates : PrivateKeyCrates) (device : Device IoError σ) (view : σ → KeyCard) (c : KeyCard)
    (slot : Slot) (operation : KeyOperation) : Prop :=
  ∃ w e u, view w.card = c ∧ needsPin e = true ∧
    Fallible.Runs (Piv.environment device) (usingKey crates slot operation .none) w (some (.error e)) u

/-- The PIN of a command is the one that it was given; without one, the user is asked. -/
def Supplies (pin : Option String) (typed : List String) (text : String) (typed' : List String) : Prop :=
  (pin = some text ∧ typed' = typed) ∨ (pin = none ∧ typed' = typed ++ [text])

/-- What a command has done to the card and to the user, and what came of it. -/
inductive Conduct (pin : Option String) (refused : Prop) (slot : Slot) (operation : KeyOperation) (c : KeyCard)
    (typed : List String) : KeyCard → List String → Option operation.Output → Prop where
  | unused : Conduct pin refused slot operation c typed c typed none
  | used (output : operation.Output) :
      Conduct pin refused slot operation c typed (c.used ⟨slot, operation, output⟩) typed (some output)
  | entered (text : String) : refused → pin = none →
      Conduct pin refused slot operation c typed c (typed ++ [text]) none
  | presented {text : String} {typed' : List String} : refused → Supplies pin typed text typed' →
      Conduct pin refused slot operation c typed (c.verify (asBytes text)) typed' none
  | usedWithPin {text : String} {typed' : List String} (output : operation.Output) : refused →
      Supplies pin typed text typed' → c.Accepts (asBytes text) →
      Conduct pin refused slot operation c typed ((c.verify (asBytes text)).used ⟨slot, operation, output⟩) typed'
        (some output)

section Operation

variable {slot : Slot} {operation : KeyOperation}

theorem usingKey_runs (h : Documented crates device view) {access : Access} {w u : Piv.World σ}
    {o : Option (Except (SignError IoError) operation.Output)}
    (hr : Fallible.Runs (Piv.environment device) (usingKey crates slot operation access) w o u) :
    (u = w ∧ ∃ e, o = some (.error e)) ∨
      ∃ o', o = o'.map (Except.mapError fun e => .piv (.drive e)) ∧
        Performs slot operation access (view w.card) o' (view u.card) := by
  obtain ⟨o₁, rfl, hx⟩ := Fallible.mapError_iff.mp hr
  rcases (h.perform slot operation access).run hx with ⟨rfl, e, rfl⟩ | ⟨o₂, rfl, hperforms⟩
  · exact .inl ⟨rfl, _, rfl⟩
  · refine .inr ⟨o₂, ?_, hperforms⟩
    rcases o₂ with _ | e | output <;> rfl

/-- The first try either leaves the card alone and does not succeed, or it uses the
key, and then no PIN is asked for. -/
theorem firstTry (h : Documented crates device view) {w u : Piv.World σ}
    {o : Option (Except (SignError IoError) operation.Output)}
    (hr : Fallible.Runs (Piv.environment device) (usingKey crates slot operation .none) w o u) :
    (view u.card = view w.card ∧ ∀ output, o ≠ some (.ok output)) ∨
    ∃ output, view u.card = (view w.card).used ⟨slot, operation, output⟩ ∧
      (∀ output', o = some (.ok output') → output' = output) ∧ ∀ e, o = some (.error e) → needsPin e = false := by
  rcases usingKey_runs h hr with ⟨rfl, e, rfl⟩ | ⟨o', rfl, ⟨hsame, hfailed⟩ | ⟨output, hused, houtput, hauthorised⟩⟩
  · exact .inl ⟨rfl, nofun⟩
  · refine .inl ⟨hsame, fun output ho => ?_⟩
    rcases o' with _ | e | output' <;> cases ho
    exact hfailed _ rfl
  · refine .inr ⟨output, hused, fun output' ho => ?_, fun e ho => ?_⟩
    · rcases o' with _ | e | result <;> cases ho
      exact houtput _ rfl
    · rcases o' with _ | (e | e) | result <;> cases ho
      · rfl
      · exact decide_eq_false (hauthorised e rfl)

/-- The second try presents the PIN, at most. -/
theorem secondTry (h : Documented crates device view) {pin : Piv.Pin} {w u : Piv.World σ}
    {o : Option (Except (SignError IoError) operation.Output)}
    (hr : Fallible.Runs (Piv.environment device) (usingKey crates slot operation (.pin pin)) w o u) :
    ((view u.card = view w.card ∨ view u.card = (view w.card).verify pin.bytes) ∧ ∀ output, o ≠ some (.ok output)) ∨
    ∃ output, (view w.card).Accepts pin.bytes ∧
      view u.card = ((view w.card).verify pin.bytes).used ⟨slot, operation, output⟩ ∧
      ∀ output', o = some (.ok output') → output' = output := by
  rcases usingKey_runs h hr with
    ⟨rfl, e, rfl⟩ | ⟨o', rfl, ⟨hcard, hfailed⟩ | ⟨haccepts, ⟨hsame, hfailed⟩ | ⟨output, hused, houtput, -⟩⟩⟩
  · exact .inl ⟨.inl rfl, nofun⟩
  · refine .inl ⟨hcard, fun output ho => ?_⟩
    rcases o' with _ | e | output' <;> cases ho
    exact hfailed _ rfl
  · refine .inl ⟨.inr hsame, fun output ho => ?_⟩
    rcases o' with _ | e | output' <;> cases ho
    exact hfailed _ rfl
  · refine .inr ⟨output, haccepts, hused, fun output' ho => ?_⟩
    rcases o' with _ | e | result <;> cases ho
    exact houtput _ rfl

variable (view) in
/-- What the PIN of a command is, and what asking for it leaves. -/
theorem resolvePin_runs {pin : Option String} {o : Option (Except CliError Piv.Pin)}
    (hr : Fallible.Runs (environment device) (onCommand (PivSession.resolvePin crates.piv pin "Enter PIN")) w o u) :
    Beside w u ∧ u.card view = w.card view ∧ u.reads = w.reads ∧
      (u.typed = w.typed ∨ pin = none ∧ ∃ text, u.typed = w.typed ++ [text]) ∧
      ∀ p, o = some (.ok p) → ∃ text, p.bytes = asBytes text ∧ Supplies pin w.typed text u.typed := by
  obtain ⟨o', rfl, hx⟩ := Fallible.mapError_iff.mp hr
  have hparsed : ∀ {text : String} {p : Piv.Pin}, ((crates.piv.pin (asBytes text)).mapError fun _ =>
      CommandLine.CliError.text "PIN must be 6-8 characters") = .ok p → p.bytes = asBytes text :=
    fun hp => Piv.Crates.pin_bytes (Except.mapError_eq_ok_iff.mp hp)
  have hresult : ∀ {r : Except CommandLine.CliError Piv.Pin} {p : Piv.Pin},
      Option.map (Except.mapError CliError.cli) (some r) = some (.ok p) → r = .ok p := by
    rintro (e | p') p h <;> cases h
    rfl
  cases pin with
  | some text =>
    obtain ⟨rfl, rfl⟩ := Run.pure_iff.mp hx
    exact ⟨⟨rfl, rfl, rfl⟩, rfl, rfl, .inl rfl, fun p hp => ⟨text, hparsed (hresult hp), .inl ⟨rfl, rfl⟩⟩⟩
  | none =>
    rcases Run.ask_iff.mp hx with ⟨rfl, rfl⟩ | ⟨r, v, ⟨command, henv, rfl⟩, hpure⟩
    · exact ⟨⟨rfl, rfl, rfl⟩, rfl, rfl, .inl rfl, nofun⟩
    have hsame : view command.piv.card = w.card view := congrArg (fun p : Piv.World σ => view p.card) henv.1
    rcases r with e | text
    · obtain ⟨rfl, rfl⟩ := Run.pure_iff.mp hpure
      exact ⟨⟨rfl, rfl, rfl⟩, hsame, rfl, .inl (List.append_nil _), nofun⟩
    · obtain ⟨rfl, rfl⟩ := Run.pure_iff.mp hpure
      exact ⟨⟨rfl, rfl, rfl⟩, hsame, rfl, .inr ⟨rfl, text, rfl⟩,
        fun p hp => ⟨text, hparsed (hresult hp), .inr ⟨rfl, rfl⟩⟩⟩

/-- What is known after an operation that may have asked for a PIN. -/
structure Conducted (crates : PrivateKeyCrates) (device : Device IoError σ) (view : σ → KeyCard) (pin : Option String)
    (slot : Slot) (operation : KeyOperation) (w u : World σ) (output : Option operation.Output) : Prop where
  conduct : Conduct pin (RefusesWithoutPin crates device view (w.card view) slot operation) slot operation
    (w.card view) w.typed (u.card view) u.typed output
  beside : Beside w u
  reads : u.reads = w.reads

/-- A try without a PIN. -/
theorem conducted_openly (h : Documented crates device view) (pin : Option String)
    {o : Option (Except (SignError IoError) operation.Output)}
    (hr : Fallible.Runs (environment device) (onCard (usingKey crates slot operation .none)) w o u) :
    ∃ output, Conducted crates device view pin slot operation w u output ∧
      ∀ result, o = some (.ok result) → output = some result := by
  obtain ⟨hpiv, hbeside, htyped, hreads⟩ := card_runs hr
  rcases firstTry h hpiv with ⟨hsame, hfailed⟩ | ⟨output, hused, houtput, -⟩
  · refine ⟨none, ⟨?_, hbeside, hreads⟩, fun result ho => absurd ho (hfailed result)⟩
    have hcard : u.card view = w.card view := hsame
    rw [htyped, hcard]
    exact .unused
  · refine ⟨some output, ⟨?_, hbeside, hreads⟩, fun result ho => congrArg some (houtput result ho).symm⟩
    have hcard : u.card view = (w.card view).used ⟨slot, operation, output⟩ := hused
    rw [htyped, hcard]
    exact .used output

/-- A try that asks for a PIN has changed nothing. -/
theorem refused_quiet (h : Documented crates device view) {e : SignError IoError} (hneeds : needsPin e = true)
    (hr : Fallible.Runs (environment device) (onCard (usingKey crates slot operation .none)) w (some (.error e)) u) :
    Quiet view w u ∧ RefusesWithoutPin crates device view (w.card view) slot operation := by
  obtain ⟨hpiv, hbeside, htyped, hreads⟩ := card_runs hr
  refine ⟨⟨hbeside, ?_, htyped, hreads⟩, _, e, _, rfl, hneeds, hpiv⟩
  rcases firstTry h hpiv with ⟨hsame, -⟩ | ⟨output, -, -, hauthorised⟩
  · exact hsame
  · rw [hauthorised e rfl] at hneeds
    cases hneeds

/-- The user has been asked for a PIN, and the card has not seen it. -/
theorem conducted_unpresented {v : World σ} {pin : Option String} {o : Option (Except CliError Piv.Pin)}
    (hquiet : Quiet view w v) (hrefused : RefusesWithoutPin crates device view (w.card view) slot operation)
    (hr : Fallible.Runs (environment device) (onCommand (PivSession.resolvePin crates.piv pin "Enter PIN")) v o u) :
    Conducted crates device view pin slot operation w u none := by
  obtain ⟨hbeside, hcard, hreads, htyped, -⟩ := resolvePin_runs view hr
  refine ⟨?_, hquiet.beside.trans hbeside, hreads.trans hquiet.reads⟩
  rw [hcard, hquiet.card]
  rcases htyped with htyped | ⟨hnone, text, htyped⟩
  · rw [htyped, hquiet.typed]
    exact .unused
  · rw [htyped, hquiet.typed]
    exact .entered text hrefused hnone

/-- A try with the PIN that was resolved. -/
theorem conducted_again (h : Documented crates device view) {v x : World σ} {pin : Option String} {p : Piv.Pin}
    {o : Option (Except (SignError IoError) operation.Output)} (hquiet : Quiet view w v)
    (hrefused : RefusesWithoutPin crates device view (w.card view) slot operation)
    (hpin : Fallible.Runs (environment device) (onCommand (PivSession.resolvePin crates.piv pin "Enter PIN")) v
      (some (.ok p)) x)
    (hr : Fallible.Runs (environment device) (onCard (usingKey crates slot operation (.pin p))) x o u) :
    ∃ output, Conducted crates device view pin slot operation w u output ∧
      ∀ result, o = some (.ok result) → output = some result := by
  have hunpresented : Conducted crates device view pin slot operation w x none :=
    conducted_unpresented hquiet hrefused hpin
  obtain ⟨hbeside, hcard, hreads, -, hsupplied⟩ := resolvePin_runs view hpin
  obtain ⟨text, htext, hsupplies⟩ := hsupplied p rfl
  rw [hquiet.typed] at hsupplies
  obtain ⟨hpiv, hbeside', htyped, hreads'⟩ := card_runs hr
  have hwhole : Beside w u ∧ u.reads = w.reads :=
    ⟨(hquiet.beside.trans hbeside).trans hbeside', hreads'.trans (hreads.trans hquiet.reads)⟩
  have hbefore : view x.command.piv.card = w.card view := hcard.trans hquiet.card
  rcases secondTry h hpiv with ⟨hsame | hverified, hfailed⟩ | ⟨output, haccepts, hused, houtput⟩
  · refine ⟨none, ⟨?_, hwhole.1, hwhole.2⟩, fun result ho => absurd ho (hfailed result)⟩
    have hafter : u.card view = x.card view := hsame
    rw [htyped, hafter]
    exact hunpresented.conduct
  · refine ⟨none, ⟨?_, hwhole.1, hwhole.2⟩, fun result ho => absurd ho (hfailed result)⟩
    have hafter : u.card view = (w.card view).verify (asBytes text) := by
      rw [World.card, hverified, hbefore, htext]
    rw [htyped, hafter]
    exact .presented hrefused hsupplies
  · refine ⟨some output, ⟨?_, hwhole.1, hwhole.2⟩, fun result ho => congrArg some (houtput result ho).symm⟩
    have hafter : u.card view = ((w.card view).verify (asBytes text)).used ⟨slot, operation, output⟩ := by
      rw [World.card, hused, hbefore, htext]
    rw [hbefore, htext] at haccepts
    rw [htyped, hafter]
    exact .usedWithPin output hrefused hsupplies haccepts

theorem runWithPin_runs (h : Documented crates device view) {pin : Option String}
    {o : Option (Except CliError operation.Output)}
    (hr : Fallible.Runs (environment device) (runWithPin crates pin (usingKey crates slot operation)) w o u) :
    ∃ output, Conducted crates device view pin slot operation w u output ∧
      ∀ result, o = some (.ok result) → output = some result := by
  have hdescribed : ∀ {o' : Option (Except (SignError IoError) operation.Output)},
      (∃ output, Conducted crates device view pin slot operation w u output ∧
        ∀ result, o' = some (.ok result) → output = some result) →
      ∃ output, Conducted crates device view pin slot operation w u output ∧
        ∀ result, o'.map (Except.mapError fun e => CliError.cli (PivCertificates.describeSign e)) = some (.ok result) →
          output = some result := by
    rintro o' ⟨output, hconducted, hvalue⟩
    refine ⟨output, hconducted, fun result ho => hvalue result ?_⟩
    rcases o' with _ | e | result' <;> cases ho
    rfl
  rcases retryWith_iff.mp hr with ⟨o', hfirst, rfl, -⟩ | ⟨e, v, hfirst, hneeds, hrest⟩
  · exact hdescribed (conducted_openly h pin hfirst)
  obtain ⟨hquiet, hrefused⟩ := refused_quiet h hneeds hfirst
  rcases hrest with ⟨rfl, hpin⟩ | ⟨d, rfl, hpin⟩ | ⟨p, x, o', hpin, hsecond, rfl⟩
  · exact ⟨none, conducted_unpresented hquiet hrefused hpin, fun _ ho => by cases ho⟩
  · exact ⟨none, conducted_unpresented hquiet hrefused hpin, fun _ ho => by cases ho⟩
  · exact hdescribed (conducted_again h hquiet hrefused hpin hsecond)

end Operation

def Determined (crates : PrivateKeyCrates) (c : KeyCard) (slot : Slot)
    (operationFor : Algorithm → Except CliError KeyOperation) (operation : KeyOperation) : Prop :=
  ∃ id algorithm, c.algorithms slot = some id ∧ crates.algorithmFromWireId id = some algorithm ∧
    operationFor algorithm = .ok operation

/-- A command came to no operation, or it conducted the one that is determined. -/
def Handled (crates : PrivateKeyCrates) (device : Device IoError σ) (view : σ → KeyCard) (pin : Option String)
    (slot : Slot) (operationFor : Algorithm → Except CliError KeyOperation) (w u : World σ) (secret : Option Bytes) :
    Prop :=
  (u.card view = w.card view ∧ u.typed = w.typed ∧ secret = none) ∨
  ∃ operation output, Determined crates (w.card view) slot operationFor operation ∧
    Conduct pin (RefusesWithoutPin crates device view (w.card view) slot operation) slot operation (w.card view)
      w.typed (u.card view) u.typed output ∧
    secret = output.map (secretOf operation)

section Key

variable {slot : Slot} {pin : Option String} {operationFor : Algorithm → Except CliError KeyOperation}
  {secret : Option Bytes}

theorem Handled.nothing (hquiet : Quiet view w u) : Handled crates device view pin slot operationFor w u none :=
  .inl ⟨hquiet.card, hquiet.typed, rfl⟩

theorem connect_runs {o : Option (Except CliError Unit)} (hr : Fallible.Runs (environment device) connect w o u) :
    Quiet view w u := by
  obtain ⟨o', -, hx⟩ := Fallible.mapError_iff.mp hr
  rcases Run.ask_iff.mp hx with ⟨-, rfl⟩ | ⟨r, v, rfl, hpure⟩
  · exact .refl u
  · obtain ⟨-, rfl⟩ := Run.pure_iff.mp hpure
    exact ⟨⟨rfl, rfl, rfl⟩, rfl, rfl, rfl⟩

theorem slotAlgorithm_runs (h : Documented crates device view) {o : Option (Except CliError Algorithm)}
    (hr : Fallible.Runs (environment device) (slotAlgorithm crates slot) w o u) :
    Quiet view w u ∧ ∀ algorithm, o = some (.ok algorithm) →
      ∃ id, (w.card view).algorithms slot = some id ∧ crates.algorithmFromWireId id = some algorithm := by
  have hmetadata : ∀ {o' : Option (Except CliError Piv.MetadataFields)} {v : World σ},
      Fallible.Runs (environment device) (sessionRun (Piv.run (crates.keyMetadata slot))) w o' v →
        Quiet view w v ∧ ∀ fields, o' = some (.ok fields) → fields.algorithmId = (w.card view).algorithms slot := by
    intro o' v hx
    obtain ⟨o₁, rfl, hy⟩ := Fallible.mapError_iff.mp hx
    obtain ⟨hpiv, hbeside, htyped, hreads⟩ := card_runs hy
    rcases (h.keyMetadata slot).run hpiv with ⟨hsame, e, rfl⟩ | ⟨o₃, rfl, hcard, hfields⟩
    · have hcard : v.card view = w.card view := by rw [World.card, hsame, World.card]
      exact ⟨⟨hbeside, hcard, htyped, hreads⟩, fun fields ho => by cases ho⟩
    · refine ⟨⟨hbeside, hcard, htyped, hreads⟩, fun fields ho => ?_⟩
      rcases o₃ with _ | e | fields' <;> cases ho
      exact hfields fields rfl
  rcases Fallible.bind_iff.mp hr with ⟨rfl, hx⟩ | ⟨e, rfl, hx⟩ | ⟨fields, v, hx, hrest⟩
  · exact ⟨(hmetadata hx).1, nofun⟩
  · exact ⟨(hmetadata hx).1, nofun⟩
  · obtain ⟨hquiet, hfields⟩ := hmetadata hx
    rcases Fallible.orThrow_bind_iff.mp hrest with ⟨e, -, rfl, rfl⟩ | ⟨id, hid, hdone⟩
    · exact ⟨hquiet, nofun⟩
    · obtain ⟨rfl, rfl⟩ := Fallible.orThrow_iff.mp hdone
      refine ⟨hquiet, fun algorithm ho => ⟨id, ?_, okOr_eq_ok_iff.mp (Option.some.inj ho)⟩⟩
      rw [← hfields fields rfl]
      exact okOr_eq_ok_iff.mp hid

/-- The program does nothing, or it conducts this operation; a value that it returns
is the secret of the operation. -/
def Conducts {β : Type} (crates : PrivateKeyCrates) (device : Device IoError σ) (view : σ → KeyCard)
    (pin : Option String) (slot : Slot) (bytesOf : β → Bytes) (determined : Except CliError KeyOperation)
    (p : Command β) : Prop :=
  ∀ v o u, Fallible.Runs (environment device) p v o u →
    (Quiet view v u ∧ ∀ b, o ≠ some (.ok b)) ∨
    ∃ operation output, determined = .ok operation ∧ Conducted crates device view pin slot operation v u output ∧
      ∀ b, o = some (.ok b) → output.map (secretOf operation) = some (bytesOf b)

theorem Conducts.throw {β : Type} {bytesOf : β → Bytes} {determined : Except CliError KeyOperation} (e : CliError) :
    Conducts crates device view pin slot bytesOf determined (throw e) := by
  intro v o u hr
  obtain ⟨rfl, rfl⟩ := Fallible.throw_iff.mp hr
  exact .inl ⟨.refl u, nofun⟩

theorem conducts_runWithPin (h : Documented crates device view) (operation : KeyOperation) :
    Conducts crates device view pin slot (secretOf operation) (.ok operation)
      (runWithPin crates pin (usingKey crates slot operation)) := by
  intro v o u hr
  obtain ⟨output, hconducted, hvalue⟩ := runWithPin_runs h hr
  refine .inr ⟨operation, output, rfl, hconducted, fun b hb => ?_⟩
  rw [hvalue b hb]
  rfl

theorem conducts_operate (h : Documented crates device view) (determined : Except CliError KeyOperation) :
    Conducts crates device view pin slot (fun result : Result => secretOf result.1 result.2) determined
      (do
        let operation ← orThrow determined
        let output ← runWithPin crates pin (usingKey crates slot operation)
        pure ⟨operation, output⟩) := by
  intro v o u hr
  rcases Fallible.orThrow_bind_iff.mp hr with ⟨e, -, rfl, rfl⟩ | ⟨operation, rfl, hrest⟩
  · exact .inl ⟨.refl u, nofun⟩
  · rcases Fallible.bind_iff.mp hrest with ⟨rfl, hx⟩ | ⟨e, rfl, hx⟩ | ⟨value, x, hx, hdone⟩
    · obtain ⟨output, hconducted, -⟩ := runWithPin_runs h hx
      exact .inr ⟨operation, output, rfl, hconducted, nofun⟩
    · obtain ⟨output, hconducted, -⟩ := runWithPin_runs h hx
      exact .inr ⟨operation, output, rfl, hconducted, nofun⟩
    · obtain ⟨rfl, rfl⟩ := Fallible.pure_iff.mp hdone
      obtain ⟨output, hconducted, hvalue⟩ := runWithPin_runs h hx
      refine .inr ⟨operation, output, rfl, hconducted, fun result ho => ?_⟩
      cases ho
      rw [hvalue value rfl]
      rfl

/-- What is done with the algorithm of a slot is done with the key in it. -/
theorem keyed_runs {β : Type} (h : Documented crates device view) {bytesOf : β → Bytes} {p : Algorithm → Command β}
    (hp : ∀ algorithm, Conducts crates device view pin slot bytesOf (operationFor algorithm) (p algorithm))
    {o : Option (Except CliError β)}
    (hr : Fallible.Runs (environment device) (connect >>= fun _ => slotAlgorithm crates slot >>= p) w o u) :
    ∃ secret, Handled crates device view pin slot operationFor w u secret ∧ Beside w u ∧ u.reads = w.reads ∧
      ∀ b, o = some (.ok b) → secret = some (bytesOf b) := by
  have hnothing : ∀ {x : World σ}, Quiet view w x → (∀ b, o ≠ some (.ok b)) →
      ∃ secret, Handled crates device view pin slot operationFor w x secret ∧ Beside w x ∧ x.reads = w.reads ∧
        ∀ b, o = some (.ok b) → secret = some (bytesOf b) :=
    fun hquiet ho => ⟨none, .nothing hquiet, hquiet.beside, hquiet.reads, fun b hb => absurd hb (ho b)⟩
  rcases Fallible.bind_iff.mp hr with ⟨rfl, hx⟩ | ⟨e, rfl, hx⟩ | ⟨⟨⟩, v₁, hx, hr₁⟩
  · exact hnothing (connect_runs hx) nofun
  · exact hnothing (connect_runs hx) nofun
  have hconnected : Quiet view w v₁ := connect_runs hx
  rcases Fallible.bind_iff.mp hr₁ with ⟨rfl, hy⟩ | ⟨e, rfl, hy⟩ | ⟨algorithm, v, hy, hr₂⟩
  · exact hnothing (hconnected.trans (slotAlgorithm_runs h hy).1) nofun
  · exact hnothing (hconnected.trans (slotAlgorithm_runs h hy).1) nofun
  obtain ⟨hlooked, halgorithm⟩ := slotAlgorithm_runs h hy
  have hquiet : Quiet view w v := hconnected.trans hlooked
  rcases hp algorithm v o u hr₂ with ⟨hrest, ho⟩ | ⟨operation, output, hoperation, hconducted, hsecret⟩
  · exact hnothing (hquiet.trans hrest) ho
  obtain ⟨id, hid, hwire⟩ := halgorithm algorithm rfl
  rw [hconnected.card] at hid
  refine ⟨output.map (secretOf operation), .inr ⟨operation, output, ⟨id, algorithm, hid, hwire, hoperation⟩, ?_, rfl⟩,
    hquiet.beside.trans hconducted.beside, hconducted.reads.trans hquiet.reads, hsecret⟩
  have hconduct := hconducted.conduct
  rw [hquiet.card, hquiet.typed] at hconduct
  exact hconduct

def signOperation (crates : PrivateKeyCrates) (args : SignArgs) (data : Bytes) (algorithm : Algorithm) :
    Except CliError KeyOperation :=
  if args.raw then do
    let input ← rawInput data algorithm
    pure (.sign (.sign algorithm input))
  else do
    let hash ← messageHash args.hash algorithm
    let operation ← (messageOperation crates.digest algorithm hash data).mapError fun e => fail e.message
    pure (.sign operation)

/-- Signing a message is signing what is prepared for it, or refusing to prepare. -/
theorem conducts_message (h : Documented crates device view) (algorithm : Algorithm) (hash : Option HashAlgorithm)
    (data : Bytes) :
    Conducts crates device view pin slot id
      (do
        let operation ← (messageOperation crates.digest algorithm hash data).mapError fun e => fail e.message
        pure (.sign operation))
      (runWithPin crates pin (signMessage crates.toKeyCrates slot algorithm hash data)) := by
  cases hoperation : messageOperation crates.digest algorithm hash data with
  | error e =>
    have hrefuses : runWithPin crates pin (signMessage crates.toKeyCrates slot algorithm hash data) =
        throw (fail e.message) := by
      simp only [runWithPin, retryWith, signMessage, hoperation]
      rfl
    rw [hrefuses]
    exact .throw _
  | ok operation =>
    have hsame : signMessage crates.toKeyCrates slot algorithm hash data = usingKey crates slot (.sign operation) := by
      funext access
      simp only [signMessage, hoperation]
      rfl
    rw [hsame]
    exact conducts_runWithPin h (.sign operation)

theorem conducts_signature (h : Documented crates device view) (args : SignArgs) (data : Bytes) (algorithm : Algorithm) :
    Conducts crates device view args.pin args.slot id (signOperation crates args data algorithm)
      (if args.raw then do
        let input ← orThrow (rawInput data algorithm)
        runWithPin crates args.pin (usingKey crates args.slot (.sign (.sign algorithm input)))
      else do
        let hash ← orThrow (messageHash args.hash algorithm)
        runWithPin crates args.pin (signMessage crates.toKeyCrates args.slot algorithm hash data)) := by
  by_cases hraw : args.raw = true
  · simp only [signOperation, hraw, if_true]
    cases rawInput data algorithm with
    | error e => exact .throw e
    | ok input => exact conducts_runWithPin h (.sign (.sign algorithm input))
  · simp only [signOperation, hraw]
    cases messageHash args.hash algorithm with
    | error e => exact .throw e
    | ok hash => exact conducts_message h algorithm hash data

end Key

end Runs

end PivPrivateKeys
