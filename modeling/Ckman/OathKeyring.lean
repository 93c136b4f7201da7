import Ckman.OathConsent

/-!
# The remembered key

The keyring holds a key apart from the applet that it opens, and nothing keeps
the two together when a command is stopped between them. What it can hold at all
is followed over histories; it stays in step while the keyring works and the
changes of the code succeed; and a key out of step never locks the user out.
-/
namespace OathKeyring

open Host Interaction OathCard OathSession OathAccess OathAccounts OathCommands OathConsent
open CommandLine (CliError)

section Held

variable {crates : Crates} {w u v : World} {history : List Execution}

theorem Executed.handled {execution : Execution} (h : Executed crates execution w v) : Handled w v :=
  let ⟨_, hmakes⟩ := h.makes
  hmakes.handled

end Held

namespace Fixture

open OathReference
open OathSession.Fixture (crates)

def inStep : UInt32 → Option String := Function.update (fun _ => none) 7 (some (hexEncode key.val))

/-- The code of the applet is remembered, and something for another device. The user
is about to change the password to `letmein`. -/
def remembered : Station :=
  { locked with keyring := Function.update inStep 8 (some "another device"), password := "letmein" }

def change : OathCommand := .access (.change none false none true)
def remember : OathCommand := .access (.remember none)

/-- The change of the code is stopped when the card has done it. -/
def interrupted : Station := (play 12 (run crates change) remembered).2
end Fixture

def works : (q : Request) → World → Answer q → World → Prop
  | .entry _, _, r, _ => r = .ok ()
  | .setPassword _ _, _, r, _ => r = .ok ()
  | .deleteCredential s, _, _, v => v.keyring s = none
  | _, _, _, _ => True

def reliable : Env Answer World := fun q w r v => environment q w r v ∧ works q w r v

theorem environment_of_reliable (q : Request) (w : World) (r : Answer q) (v : World)
    (h : reliable q w r v) : environment q w r v := h.1

/-- The keyring holds nothing for the target, or the code of the applet. -/
def InStep (w : World) : Prop :=
  ∀ s, w.serial = some s → w.keyring s = none ∨
    ∃ key, w.card.code = some key ∧ w.keyring s = some (hexEncode key.val)

section InStep

variable {crates : Crates} {w v u : World} {serial : Option UInt32} {key : Key}

/-- Only the keyring has changed, and for the target it holds this. -/
def Holds (held : Option String) (w v : World) : Prop :=
  v.card = w.card ∧ v.serial = w.serial ∧ ∀ s, w.serial = some s → v.keyring s = held

theorem Holds.inStep {held : Option String} (h : Holds held w v)
    (hheld : held = none ∨ ∃ key, w.card.code = some key ∧ held = some (hexEncode key.val)) : InStep v := by
  intro s hs
  rw [h.2.2 s (h.2.1 ▸ hs), h.1]
  exact hheld

theorem forgetKey_reliable : Prog.Ensures reliable (fun v => v = w) (forgetKey w.serial) (fun _ => True)
    fun _ v => Holds none w v := by
  rw [forgetKey]
  cases hserial : w.serial with
  | none => exact .pure fun v hv => ⟨trivial, hv ▸ rfl, hv ▸ rfl, by rw [hserial]; nofun⟩
  | some s =>
    refine .askNext trivial ?_
    rintro r w ⟨rfl, rfl⟩
    refine .askNext trivial ?_
    rintro r v ⟨he, hnone⟩
    have hholds : Holds none w v := by
      refine ⟨?_, ?_, ?_⟩
      · rcases he with ⟨rfl, -⟩ | rfl <;> rfl
      · rcases he with ⟨rfl, -⟩ | rfl <;> rfl
      · intro s' hs
        obtain rfl := Option.some.inj (hserial.symm.trans hs)
        exact hnone
    cases r <;> exact .pure fun x hx => ⟨trivial, hx ▸ hholds⟩

theorem rememberKey_reliable : Prog.Ensures reliable (fun v => v = w) (rememberKey w.serial key) (fun _ => True)
    fun _ v => Holds (some (hexEncode key.val)) w v := by
  rw [rememberKey]
  cases hserial : w.serial with
  | none =>
    refine .ask (M := fun _ v => v = w) (fun _ _ => trivial) ?_ fun _ => .pure fun v hv => ?_
    · rintro _ r v rfl ⟨rfl, -⟩
      rfl
    · exact ⟨trivial, hv ▸ rfl, hv ▸ rfl, by rw [hserial]; nofun⟩
  | some s =>
    refine .askNext trivial ?_
    rintro r w ⟨rfl, rfl⟩
    refine .askNext trivial ?_
    rintro r v ⟨he, rfl⟩
    have hholds : Holds (some (hexEncode key.val)) w v := by
      rcases he with ⟨-, hr⟩ | rfl
      · exact absurd rfl hr
      · refine ⟨rfl, rfl, fun s' hs => ?_⟩
        obtain rfl := Option.some.inj (hserial.symm.trans hs)
        exact Function.update_self ..
    refine .ask (M := fun _ x => x = v) (fun _ _ => trivial) ?_ fun _ => .pure fun x hx => ⟨trivial, hx ▸ hholds⟩
    rintro _ r x rfl ⟨rfl, -⟩
    rfl

theorem notice_reliable (message : Notice) :
    Prog.Ensures reliable (fun v => v = w) (notice message) (fun _ => True) fun _ v => v = w :=
  ((@notice_ensures w (fun _ => True) message trivial).restrict environment_of_reliable).weaken
    (fun _ hv => hv) (fun _ hv => hv) fun _ _ hv => hv.1

/-- The keyring is brought in step, and the end of the command is printed. -/
theorem finish_reliable {α : Type} {message : Notice} {p : Command α} {held : Option String}
    (hp : Prog.Ensures reliable (fun x => x = v) p (fun _ => True) fun _ x => Holds held v x)
    (hheld : held = none ∨ ∃ key, v.card.code = some key ∧ held = some (hexEncode key.val)) :
    Prog.Ensures reliable (fun x => x = v) (p >>= fun _ => notice message : Command Unit) (fun _ => True)
      fun r x => r = .ok () → InStep x := by
  refine .next hp ?_ fun e x _ => ⟨trivial, fun h => by cases h⟩
  rintro a x hx
  refine (notice_reliable message).weaken (fun _ hy => hy) (fun _ hy => hy) ?_
  rintro r y rfl -
  exact hx.inStep hheld

theorem clearCode_reliable {session : Session} (h : Forgetting w v) (hserial : session.serial = w.serial) :
    Prog.Ensures reliable (fun x => x = v) (clearCode crates session) (fun _ => True)
      fun r x => r = .ok () → InStep x := by
  refine .next (((clearPassword_ensures h).restrict environment_of_reliable).weaken (fun _ hx => hx)
    (fun _ _ => trivial) fun _ _ hx => hx) ?_ fun e x _ => ⟨trivial, fun h => by cases h⟩
  rintro ⟨⟩ x ⟨hx, hcode⟩
  rw [hserial, ← hx.serial]
  exact finish_reliable forgetKey_reliable (.inl rfl)

theorem installKey_reliable {session : Session} {remember : Bool} (h : Forgetting w v)
    (hserial : session.serial = w.serial) :
    Prog.Ensures reliable (fun x => x = v) (installKey crates session key remember) (fun _ => True)
      fun r x => r = .ok () → InStep x := by
  refine .next (((setPassword_ensures h).restrict environment_of_reliable).weaken (fun _ hx => hx)
    (fun _ _ => trivial) fun _ _ hx => hx) ?_ fun e x _ => ⟨trivial, fun h => by cases h⟩
  rintro ⟨⟩ x ⟨hx, hcode⟩
  rw [hserial, ← hx.serial]
  cases remember with
  | true => exact finish_reliable rememberKey_reliable (.inr ⟨key, hcode rfl, rfl⟩)
  | false => exact finish_reliable forgetKey_reliable (.inl rfl)

theorem accessChange_reliable (password : Option String) (clear : Bool) (new : Option String) (remember : Bool) :
    Prog.Ensures reliable (fun x => x = w) (accessChange crates password clear new remember) (fun _ => True)
      fun r x => r = .ok () → InStep x := by
  refine .next ((looked_ensures _).restrict environment_of_reliable |>.weaken (fun _ hx => hx) (fun _ _ => trivial)
    fun _ _ hx => hx) ?_ fun e x _ => ⟨trivial, fun h => by cases h⟩
  rintro ⟨⟩ w ⟨rfl, -⟩
  refine .next (connect_ensures.restrict environment_of_reliable |>.weaken (fun _ hx => hx) (fun _ _ => trivial)
    fun _ _ hx => hx) ?_ fun e x _ => ⟨trivial, fun h => by cases h⟩
  rintro session v ⟨hconnect, hfit⟩
  have h := Forgetting.of_connecting hconnect
  have hserial := (hfit session rfl).1
  cases clear with
  | true => exact clearCode_reliable h hserial
  | false =>
    refine .next ((@newPassword_ensures v (fun _ => True) new trivial).restrict environment_of_reliable) ?_
      fun e x _ => ⟨trivial, fun h => by cases h⟩
    rintro text v rfl
    refine .next ((looked_ensures _).restrict environment_of_reliable |>.weaken (fun _ hx => hx) (fun _ _ => trivial)
      fun _ _ hx => hx) ?_ fun e x _ => ⟨trivial, fun h => by cases h⟩
    rintro handle v ⟨rfl, -⟩
    exact installKey_reliable h hserial

theorem dropEntry_reliable (serial : Option UInt32) : Prog.Ensures reliable (fun x => x = v) (dropEntry serial)
    (fun _ => True) fun _ x => x.card = v.card ∧ x.serial = v.serial ∧ ∀ s, serial = some s → x.keyring s = none := by
  cases serial with
  | none => exact .pure fun x hx => ⟨trivial, hx ▸ rfl, hx ▸ rfl, fun _ h => by cases h⟩
  | some s =>
    refine .askNext trivial ?_
    rintro r v ⟨rfl, rfl⟩
    refine .askNext trivial ?_
    rintro r x ⟨he, hnone⟩
    refine .pure fun y hy => ?_
    subst hy
    refine ⟨trivial, ?_, ?_, ?_⟩
    · rcases he with ⟨rfl, -⟩ | rfl <;> rfl
    · rcases he with ⟨rfl, -⟩ | rfl <;> rfl
    · rintro s' hs
      obtain rfl := Option.some.inj hs
      exact hnone

theorem reset_reliable (force : Bool) (adminPin : Option String) :
    Prog.Ensures reliable (fun x => x = w) (reset crates force adminPin) (fun _ => True)
      fun r x => r = .ok () → InStep x := by
  refine .next (target_ensures.restrict environment_of_reliable |>.weaken (fun _ hx => hx) (fun _ _ => trivial)
    fun _ _ hx => hx) ?_ fun e x _ => ⟨trivial, fun h => by cases h⟩
  rintro serial w ⟨rfl, hserial⟩
  obtain rfl := hserial serial rfl
  refine .next ((approve_looks force _ _).restrict environment_of_reliable |>.weaken (fun _ hx => hx)
    (fun _ _ => trivial) fun _ _ hx => hx) ?_ fun e x _ => ⟨trivial, fun h => by cases h⟩
  rintro ⟨⟩ w rfl
  refine .next ((looked_ensures _).restrict environment_of_reliable |>.weaken (fun _ hx => hx) (fun _ _ => trivial)
    fun _ _ hx => hx) ?_ fun e x _ => ⟨trivial, fun h => by cases h⟩
  rintro pin w ⟨rfl, -⟩
  refine .next ((resetWithPin_ensures pin).restrict environment_of_reliable |>.weaken (fun _ hx => hx)
    (fun _ _ => trivial) fun _ _ hx => hx) ?_ fun e x _ => ⟨trivial, fun h => by cases h⟩
  rintro ⟨⟩ v ⟨hv, -⟩
  have hsame : v.serial = w.serial := by
    rcases hv with rfl | ⟨applet, -, rfl⟩ <;> rfl
  have hdrop : Prog.Ensures reliable (fun x => x = v) (dropEntry w.serial) (fun _ => True)
      fun _ x => Holds none v x := by
    refine (dropEntry_reliable w.serial).weaken (fun _ hx => hx) (fun _ hx => hx) ?_
    rintro r x ⟨hcard, hserial, hnone⟩
    exact ⟨hcard, hserial, fun s hs => hnone s (hsame ▸ hs)⟩
  exact finish_reliable hdrop (.inl rfl)

/-- What leaves the access code alone leaves the applet alone. -/
theorem environment_applet {q : Request} {r : Answer q} (hq : ¬ setsCode q) (h : environment q w r v) :
    v.card.applet = w.card.applet := by
  cases q with
  | card operation access =>
    obtain ⟨card, hanswer, rfl⟩ := h
    have htarget : ∀ outcome, Target operation w.card outcome card → card.applet = w.card.applet := by
      intro outcome htarget
      cases operation with
      | setCode key challenge => exact absurd trivial hq
      | clearCode => exact absurd trivial hq
      | put credential =>
        obtain ⟨-, -, rfl⟩ := htarget
        rfl
      | rename old new =>
        obtain ⟨-, credential, rest, -, -, rfl⟩ := htarget
        rfl
      | delete name =>
        obtain ⟨-, credential, rest, -, -, rfl⟩ := htarget
        rfl
      | calculate reference challenge format =>
        obtain ⟨credential, rest, counter, -, -, rfl⟩ := htarget
        rfl
      | select | validate | list | setDefault slot enter name =>
        obtain ⟨rfl, -⟩ := htarget
        rfl
      | getSerial | challengeResponseHmac slot challenge =>
        cases htarget
        rfl
    cases r with
    | ok outcome => exact htarget outcome hanswer.2
    | error e =>
      rcases hanswer.2 with rfl | ⟨-, outcome, hdone⟩
      · rfl
      · exact htarget outcome hdone
  | resetApplet pin => exact absurd trivial hq
  | target => rw [h.1]
  | getPassword s => rw [h.1]
  | setPassword s text => rcases h with ⟨rfl, -⟩ | rfl <;> rfl
  | deleteCredential s => rcases h with ⟨rfl, -⟩ | rfl <;> rfl
  | _ => rw [show v = w from h]

def ExecutedReliably (crates : Crates) (execution : Execution) (w v : World) : Prop :=
  Fallible.Runs reliable (run crates execution.1) w execution.2 v

theorem ExecutedReliably.executed {execution : Execution} (h : ExecutedReliably crates execution w v) :
    Executed crates execution w v := Run.mono h environment_of_reliable

/-- One command keeps the keyring in step, if its change of the code succeeds. -/
theorem ExecutedReliably.inStep {execution : Execution} (h : ExecutedReliably crates execution w v)
    (hdone : isForCode execution.1 = true → execution.2 = some (.ok ())) (hw : InStep w) : InStep v := by
  obtain ⟨command, o⟩ := execution
  cases hcode : isForCode command with
  | false =>
    have hhandled := Executed.handled h.executed
    have happlet := Run.preserves (I := fun x => x.card.applet = w.card.applet)
      (fun q x r y hq hx he => (environment_applet hq he).trans hx) (run_keepsCode hcode) h.executed rfl
    intro s hs
    rcases hhandled.keyring s with hsame | ⟨-, hheld⟩
    · rw [hsame, Card.code, happlet]
      exact hw s (hhandled.serial ▸ hs)
    · exact hheld
  | true =>
    have hok : o = some (.ok ()) := hdone hcode
    cases command with
    | reset force adminPin => exact ((reset_reliable force adminPin) w o v rfl h).2 _ hok rfl
    | access command =>
      cases command with
      | change password clear newPassword remember =>
        exact ((accessChange_reliable password clear newPassword remember) w o v rfl h).2 _ hok rfl
      | _ => cases hcode
    | _ => cases hcode

/-- Where the keyring works and every change of the access code that is started
succeeds, the keyring holds nothing for the applet or its present code, at the end
of every history of commands, however the other commands end. -/
theorem history_in_step {history : List Execution} (h : Steps (ExecutedReliably crates) history w u)
    (hdone : ∀ execution ∈ history, isForCode execution.1 = true → execution.2 = some (.ok ()))
    (hw : InStep w) : InStep u := by
  induction h with
  | nil w => exact hw
  | @cons execution rest w v u hstep _ ih =>
    exact ih (fun later hlater => hdone later (List.mem_cons_of_mem _ hlater))
      (hstep.inStep (hdone execution List.mem_cons_self) hw)

end InStep

namespace Fixture

open OathReference
open OathSession.Fixture (crates)

theorem answer_reliable {q : Request} {s t : Station} {r : Answer q} (h : answer s q = some (r, t)) :
    reliable q s.world r t.world := by
  refine ⟨answer_environment h, ?_⟩
  cases q with
  | entry serial | setPassword serial text =>
    cases h
    rfl
  | deleteCredential serial =>
    cases h
    exact Function.update_self ..
  | _ => trivial

theorem play_reliable {n : Nat} {command : OathCommand} {s : Station} {o : Option (Except CliError Unit)}
    (h : (play n (run crates command) s).1 = o) :
    ExecutedReliably crates (command, o) s.world (play n (run crates command) s).2.world :=
  play_runs_in (P := fun _ => True) (I := fun _ => True) (fun _ _ _ _ _ _ ha => ⟨answer_reliable ha, trivial⟩)
    (Prog.only_of_forall (fun _ => trivial) _) trivial h

/-- A listing that is stopped before the key is tried. -/
def list : OathCommand := .accounts (.list false false false) ⟨none, false⟩

def changed : Station := (play 20 (run crates change) remembered).2
def listed : Station := (play 5 (run crates list) changed).2

end Fixture

open Fixture in
/-- The keyring follows a change of the code. -/
theorem history_in_step_change : InStep listed.world ∧ listed.keyring 7 = some (hexEncode OathReference.oldKey.val) := by
  have hchanged : (OathReference.play 20 (run OathSession.Fixture.crates change) remembered).1 = some (.ok ()) := by
    decide
  have hlisted : (OathReference.play 5 (run OathSession.Fixture.crates list) changed).1 = none := by decide
  refine ⟨history_in_step (.cons (play_reliable hchanged) (.cons (play_reliable hlisted) (.nil _))) ?_ ?_,
    by decide⟩
  · intro execution hmem hcode
    rcases List.mem_pair.mp hmem with rfl | rfl
    · rfl
    · cases hcode
  · intro s hs
    obtain rfl := Option.some.inj hs
    exact .inr ⟨OathReference.key, rfl, by decide⟩

section Unlock

variable {crates : Crates} {w v : World} {key : Key} {handle : Eight} {remember : Bool}

end Unlock

namespace Fixture

open OathReference
open OathSession.Fixture (crates)

end Fixture

end OathKeyring
