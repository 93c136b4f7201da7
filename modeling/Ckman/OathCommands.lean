import Ckman.OathAccounts

/-!
# The OATH commands

Every command of `ckman oath`, and histories of them. A command may fail at any
request and be stopped at any request, and the next one starts in the world that
it leaves. The accounts of the applet refine a registry all along.
-/
namespace OathCommands

open Host
open Text Interaction OathCard OathSession OathAccess OathAccounts
open Registry (Change trail)
open Oath (Credential Name)
open CommandLine (CliError)

def yesNo (condition : Bool) (yes no : String) : String := if condition then yes else no

/-- Whether the keyring has something for the target; no warning is printed. -/
def isRemembered (serial : Option UInt32) : Command Bool :=
  match serial with
  | none => pure false
  | some serial => do
    match ← ask (.entry serial) with
    | .error _ => pure false
    | .ok () =>
      match ← ask (.getPassword serial) with
      | .ok _ => pure true
      | .error _ => pure false

/-- `info`. -/
def info (crates : Crates) : Command Unit := do
  let serial ← target
  match ← described crates select with
  | .modern selection => do
    let (major, minor, patch) := selection.version
    notice (.line ("OATH version:         " ++ toString major.toNat ++ "." ++ toString minor.toNat ++ "." ++
      toString patch.toNat))
    notice (.line ("Password protection:  " ++ yesNo selection.challenge.isSome "enabled" "disabled"))
    if selection.challenge.isSome then
      let remembered ← isRemembered serial
      if remembered then notice (.line "The password for this CanoKey is remembered by ckman.")
  | .legacy _ => do
    notice (.line "OATH version:         unknown (legacy firmware)")
    notice (.line "Password protection:  disabled (not supported by this firmware)")

/-- `serial`. -/
def serial (crates : Crates) : Command Unit := do
  let _ ← target
  let serial ← described crates getSerial
  notice (.line (toString serial.toNat))

def challengeBytes (challenge : String) (text : Bool) : Except String Bytes :=
  if text then .ok (Host.asBytes challenge)
  else okOr (hexDecode challenge) "the challenge must be hex-encoded (or use --text)"

/-- `challenge_response`. -/
def challengeResponse (crates : Crates) (slot : Touch) (challenge : String) (text : Bool) : Command Unit := do
  let challenge ← orFail (challengeBytes challenge text)
  orThrow (refuse (64 < challenge.length) (.text "the challenge must be at most 64 bytes"))
  let _ ← target
  let response ← described crates (challengeResponseHmac slot challenge)
  notice (.line (hexEncode response))

inductive AccessCommand where
  | change (password : Option String) (clear : Bool) (newPassword : Option String) (remember : Bool)
  | remember (password : Option String)
  | forget

/-- The account commands, with the lines of the standard input for those that
read it. -/
inductive AccountsCommand where
  | add (input : AddInput) (lines : List (Except IoError (List Char))) (touch force : Bool)
  | uri (uri : Option (List Char)) (lines : List (Except IoError (List Char))) (touch force : Bool)
  | list (showHidden oathType period : Bool)
  | code (query : List Char) (single showHidden : Bool)
  | rename (query name : List Char) (force : Bool)
  | setDefault (query : List Char) (slot : Touch) (enter : Bool)
  | delete (query : List Char) (force : Bool)

inductive OathCommand where
  | info | serial
  | reset (force : Bool) (adminPin : Option String)
  | challengeResponse (slot : Touch) (challenge : String) (text : Bool)
  | access (command : AccessCommand)
  | accounts (command : AccountsCommand) (access : AccessArgs)

/-- `run` of the OATH commands. -/
def run (crates : Crates) : OathCommand → Command Unit
  | .info => info crates
  | .serial => serial crates
  | .reset force adminPin => reset crates force adminPin
  | .challengeResponse slot challenge text => challengeResponse crates slot challenge text
  | .access (.change password clear newPassword remember) =>
    accessChange crates password clear newPassword remember
  | .access (.remember password) => accessRemember crates password
  | .access .forget => accessForget
  | .accounts (.add input lines touch force) access => accountsAdd crates access input lines touch force
  | .accounts (.uri uri lines touch force) access => accountsUri crates access uri lines touch force
  | .accounts (.list showHidden oathType period) access => accountsList crates access showHidden oathType period
  | .accounts (.code query single showHidden) access => accountsCode crates access query single showHidden
  | .accounts (.rename query name force) access => accountsRename crates access query name force
  | .accounts (.setDefault query slot enter) access => accountsSetDefault crates access query slot enter
  | .accounts (.delete query force) access => accountsDelete crates access query force

def Added : OathCommand → Credential → Prop
  | .accounts (.add input lines touch _) _, credential =>
    ∃ secret, SecretSource input lines secret ∧ input.parameters.credential secret touch = .ok credential
  | .accounts (.uri uri lines touch _) _, credential => ∃ text, UriSource uri lines text ∧
      Oath.accountsUri text touch true (.ok []) = .ok credential
  | _, _ => False

def Intends (crates : Crates) (command : OathCommand) (card : Card) (change : Change Name Material) : Prop :=
  match command with
  | .accounts (.add ..) _ | .accounts (.uri ..) _ =>
    ∃ credential, Added command credential ∧ change = .insert credential.name (materialOf credential)
  | .accounts (.rename query name _) _ => Renames crates query name card change
  | .accounts (.delete query _) _ =>
    ∃ entries entry, Matches crates query card entries entry ∧ change = .erase entry.name
  | .reset .. => change = .clear
  | _ => change = .stay

section Run

variable {crates : Crates} {w : World}

/-- A command that asks nothing of the card but to look at it. -/
theorem serves_quiet {p : Command Unit} (hp : Prog.Ensures environment (fun x => x = w) p (fun x => x = w)
    fun _ x => x = w) : Serves (fun change => change = .stay) w w p := by
  have hdone : Done (fun change => change = .stay) w w :=
    ⟨⟨rfl, fun _ => .inl rfl⟩, .stay, rfl, .stay _⟩
  refine hp.weaken (fun _ hx => hx) (fun x hx => hx ▸ hdone.reached) ?_
  rintro r x rfl
  exact ⟨hdone.reached, fun _ => hdone⟩

theorem serves_kept {p : Command Unit} (hp : Prog.Ensures environment (fun x => x = w) p (Kept w)
    fun _ => Kept w) : Serves (fun change => change = .stay) w w p :=
  hp.weaken (fun _ hx => hx) (fun _ hx => .of_kept hx)
    fun _ _ hx => ⟨.of_kept hx, fun _ => ⟨hx.1, .stay, rfl, hx.2 ▸ .stay _⟩⟩

/-- An operation that leaves the card as it is. -/
theorem quiet_ensures {α : Type} (operation : Operation) {convert : Outcome → Except OathError α}
    (hquiet : ∀ c r d, Target operation c r d → d = c) :
    Prog.Ensures environment (fun x => x = w)
      (described crates (do orThrow (convert (← OathCard.run operation none))) : Command α)
      (fun x => x = w) fun _ x => x = w := by
  have hsame : ∀ x, Effect operation w x → x = w := by
    rintro x (rfl | ⟨outcome, card, htarget, rfl⟩)
    · rfl
    · rw [hquiet _ _ _ htarget]
  exact .mapError ((wrapped_ensures convert none).weaken (fun _ hx => hx) hsame fun _ x hx => hsame x hx.1)

theorem isRemembered_only {serial : Option UInt32} :
    Prog.Only (fun q => ∀ v r x, environment q v r x → x = v) (isRemembered serial) := by
  cases serial with
  | none => trivial
  | some s =>
    refine ⟨fun _ _ _ he => he, fun r => ?_⟩
    cases r with
    | error e => trivial
    | ok u =>
      refine ⟨fun _ _ _ he => he.1, fun r => ?_⟩
      cases r <;> trivial

theorem info_ensures : Prog.Ensures environment (fun x => x = w) (info crates) (fun x => x = w)
    fun _ x => x = w := by
  refine .next target_ensures ?_ fun e v hv => ⟨hv.1, hv.1⟩
  rintro serial w ⟨rfl, -⟩
  refine .next (P := fun _ x => x = w)
    (.mapError (select_ensures.weaken (fun _ hx => hx) (fun _ hx => hx) fun _ _ hx => hx.1)) ?_ fun e v hv => ⟨hv, hv⟩
  rintro found w rfl
  cases found with
  | legacy serial => exact .of_only ⟨fun _ _ _ he => he, fun _ => ⟨fun _ _ _ he => he, fun _ => trivial⟩⟩
  | modern selection =>
    refine .of_only ⟨fun _ _ _ he => he, fun _ => ⟨fun _ _ _ he => he, fun _ => ?_⟩⟩
    cases selection.challenge.isSome with
    | false => trivial
    | true =>
      refine Fallible.only_bind isRemembered_only fun remembered => ?_
      cases remembered with
      | false => trivial
      | true => exact ⟨fun _ _ _ he => he, fun _ => trivial⟩

theorem run_serves (command : OathCommand) :
    Serves (Intends crates command w.card) w w (run crates command) := by
  cases command with
  | info => exact serves_quiet info_ensures
  | serial =>
    refine serves_quiet (.next target_ensures ?_ fun e v hv => ⟨hv.1, hv.1⟩)
    rintro _ w ⟨rfl, -⟩
    refine .next (quiet_ensures .getSerial fun _ _ _ h => h) ?_ fun e v hv => ⟨hv, hv⟩
    rintro number w rfl
    exact .of_only ⟨fun _ _ _ he => he, fun _ => trivial⟩
  | challengeResponse slot challenge text =>
    refine serves_quiet (.next (orFail_ensures _) ?_ fun e v hv => ⟨hv.1, hv.1⟩)
    rintro bytes w ⟨rfl, -⟩
    refine .next (looked_ensures _) ?_ fun e v hv => ⟨hv.1, hv.1⟩
    rintro ⟨⟩ w ⟨rfl, -⟩
    refine .next target_ensures ?_ fun e v hv => ⟨hv.1, hv.1⟩
    rintro _ w ⟨rfl, -⟩
    refine .next (quiet_ensures (.challengeResponseHmac slot bytes) fun _ _ _ h => h) ?_
      fun e v hv => ⟨hv, hv⟩
    rintro response w rfl
    exact .of_only ⟨fun _ _ _ he => he, fun _ => trivial⟩
  | reset force adminPin =>
    have hclear : ∀ x, Cleared w x → x.card.accounts = 0 → Done (Intends crates (.reset force adminPin) w.card) w x :=
      fun x hx hempty => ⟨hx.1, .clear, rfl, hempty ▸ .clear _⟩
    have hreached : ∀ x, Cleared w x → Reached (Intends crates (.reset force adminPin) w.card) w x := by
      intro x hx
      rcases hx.2 with hsame | hempty
      · exact .of_kept ⟨hx.1, hsame⟩
      · exact (hclear x hx hempty).reached
    exact (reset_ensures force adminPin).weaken (fun _ hx => hx) hreached
      fun r x hx => ⟨hreached x hx.1, fun hr => hclear x hx.1 (hx.2 hr)⟩
  | access command =>
    cases command with
    | change password clear newPassword remember =>
      exact serves_kept (accessChange_ensures password clear newPassword remember)
    | remember password => exact serves_kept (accessRemember_ensures password)
    | forget => exact serves_kept accessForget_ensures
  | accounts command access =>
    cases command with
    | add input lines touch force =>
      refine (accountsAdd_serves input lines touch force).imp ?_
      rintro change ⟨secret, hsource, credential, hcredential, rfl⟩
      exact ⟨credential, ⟨secret, hsource, hcredential⟩, rfl⟩
    | uri uri lines touch force =>
      refine (accountsUri_serves uri lines touch force).imp ?_
      rintro change ⟨text, credential, hsource, hcredential, rfl⟩
      exact ⟨credential, ⟨text, hsource, hcredential⟩, rfl⟩
    | list showHidden oathType period => exact accountsList_serves showHidden oathType period
    | code query single showHidden => exact accountsCode_serves query single showHidden
    | rename query name force => exact accountsRename_serves query name force
    | setDefault query slot enter => exact accountsSetDefault_serves query slot enter
    | delete query force => exact accountsDelete_serves query force

end Run

abbrev Execution := OathCommand × Option (Except CliError Unit)

def Executed (crates : Crates) (execution : Execution) (w v : World) : Prop :=
  Fallible.Runs environment (run crates execution.1) w execution.2 v

/-- An execution with the change that it made: the intended one, or none when
the command did not succeed. -/
structure Makes (crates : Crates) (step : Execution × Change Name Material) (w v : World) : Prop where
  executed : Executed crates step.1 w v
  handled : Handled w v
  intended : step.2 = .stay ∧ step.1.2 ≠ some (.ok ()) ∨ Intends crates step.1.1 w.card step.2
  changes : Changes step.2 w.card.accounts v.card.accounts

/-- The command removes the account of a card: it resets the applet, or it
deletes the one account that its query matches. -/
def Removes (crates : Crates) (card : Card) (name : Name) : OathCommand → Prop
  | .reset .. => True
  | .accounts (.delete query _) _ =>
    ∃ entries entry, Matches crates query card entries entry ∧ name = entry.name
  | _ => False

section History

variable {crates : Crates} {w u v : World} {history : List Execution}
  {log : List (Execution × Change Name Material)} {store : Store}

theorem Executed.makes {execution : Execution} (h : Executed crates execution w v) :
    ∃ change, Makes crates (execution, change) w v := by
  obtain ⟨⟨hhandled, change, hreached, hchange⟩, hresult⟩ := run_serves execution.1 w execution.2 v rfl h
  by_cases hok : execution.2 = some (.ok ())
  · obtain ⟨-, change, hintended, hchange⟩ := (hresult _ hok).2 rfl
    exact ⟨change, h, hhandled, .inr hintended, hchange⟩
  · exact ⟨change, h, hhandled, hreached.imp (fun hstay => ⟨hstay, hok⟩) id, hchange⟩

theorem exists_log (h : Steps (Executed crates) history w u) :
    ∃ log, log.map Prod.fst = history ∧ Steps (Makes crates) log w u := by
  induction h with
  | nil w => exact ⟨[], rfl, .nil w⟩
  | @cons execution rest w v u hstep _ ih =>
    obtain ⟨change, hmakes⟩ := hstep.makes
    obtain ⟨log, rfl, hlog⟩ := ih
    exact ⟨(execution, change) :: log, rfl, .cons hmakes hlog⟩

/-- The changes of a history are a history of the registry. -/
theorem log_refines (h : Steps (Makes crates) log w u) (hstore : Represents w.card.accounts store) :
    ∃ store', Steps Registry.Step (log.map Prod.snd) store store' ∧ Represents u.card.accounts store' := by
  induction h generalizing store with
  | nil w => exact ⟨store, .nil store, hstore⟩
  | cons hstep _ ih =>
    obtain ⟨middle, hchange, hmiddle⟩ := hstep.changes store hstore
    obtain ⟨store', hrest, hstore'⟩ := ih hmiddle
    exact ⟨store', .cons hchange hrest, hstore'⟩

theorem log_executed (h : Steps (Makes crates) log w u) :
    Steps (Executed crates) (log.map Prod.fst) w u := by
  induction h with
  | nil w => exact .nil w
  | cons hstep _ ih => exact .cons hstep.executed ih

theorem Makes.removes {step : Execution × Change Name Material} {name : Name} (h : Makes crates step w v)
    (hchange : step.2 = .clear ∨ step.2 = .erase name) : Removes crates w.card name step.1.1 := by
  obtain ⟨⟨command, o⟩, change⟩ := step
  rcases h.intended with ⟨hstay, -⟩ | hintended
  · rw [hstay] at hchange
    rcases hchange with hc | hc <;> cases hc
  · rcases command with _ | _ | _ | _ | _ | ⟨_ | _ | _ | _ | _ | _ | _, _⟩ <;>
      rcases hchange with rfl | rfl <;> simp_all [Intends, Removes, Renames]

theorem Makes.added {step : Execution × Change Name Material} {name : Name} {material : Material}
    (h : Makes crates step w v) (hchange : step.2 = .insert name material) :
    ∃ credential, Added step.1.1 credential ∧ name = credential.name ∧ material = materialOf credential := by
  obtain ⟨⟨command, o⟩, change⟩ := step
  rcases h.intended with ⟨hstay, -⟩ | hintended
  · rw [hstay] at hchange
    cases hchange
  · subst hchange
    rcases command with _ | _ | _ | _ | _ | ⟨_ | _ | _ | _ | _ | _ | _, _⟩ <;>
      simp_all [Intends, Renames]

/-- The accounts over a history of commands, whichever of them failed or were
stopped. No two accounts ever get one name. Each account can be followed to the
name that the changes of the history give to it, under which it still has its
secret and parameters, and two accounts never come together. An account that is
gone was removed, under the name that it had then, by a reset or by a deletion
whose query matched it alone, and an account that was not there before is one
that a command of the history adds. -/
theorem history_accounts (h : Steps (Executed crates) history w u)
    (hnodup : (w.card.accounts.map Credential.name).Nodup) :
    (u.card.accounts.map Credential.name).Nodup ∧
    ∃ log, log.map Prod.fst = history ∧ Steps (Makes crates) log w u ∧
      (∀ credential ∈ w.card.accounts, ∀ name, trail (log.map Prod.snd) credential.name = some name →
        ∃ found ∈ u.card.accounts, found.name = name ∧ materialOf found = materialOf credential) ∧
      (∀ credential ∈ w.card.accounts, ∀ other ∈ w.card.accounts, trail (log.map Prod.snd) credential.name ≠ none →
        trail (log.map Prod.snd) credential.name = trail (log.map Prod.snd) other.name → credential.name = other.name) ∧
      (∀ credential ∈ w.card.accounts, trail (log.map Prod.snd) credential.name = none →
        ∃ before execution after v, history = before ++ execution :: after ∧
          Steps (Executed crates) before w v ∧ ∃ found ∈ v.card.accounts,
            materialOf found = materialOf credential ∧ Removes crates v.card found.name execution.1) ∧
      ∀ found ∈ u.card.accounts,
        (∃ credential ∈ w.card.accounts, trail (log.map Prod.snd) credential.name = some found.name ∧
          materialOf found = materialOf credential) ∨
        ∃ execution ∈ history, ∃ credential, Added execution.1 credential ∧
          materialOf found = materialOf credential := by
  obtain ⟨store, hstore⟩ := exists_represents hnodup
  obtain ⟨log, rfl, hlog⟩ := exists_log h
  obtain ⟨store', hsteps, hstore'⟩ := log_refines hlog hstore
  have hheld : ∀ credential ∈ w.card.accounts, store credential.name = some (materialOf credential) :=
    fun credential hmem => (hstore.lookup _ _).mpr ⟨credential, hmem, rfl, rfl⟩
  refine ⟨hstore'.nodup, log, rfl, hlog, ?_, ?_, ?_, ?_⟩
  · intro credential hmem name hname
    exact (hstore'.lookup _ _).mp (Registry.Steps.value hsteps (hheld credential hmem) hname)
  · intro credential hmem other hother hfollowed hsame
    obtain ⟨name, hname⟩ := Option.ne_none_iff_exists'.mp hfollowed
    refine Registry.Steps.injective hsteps ?_ ?_ hname (hsame ▸ hname)
    · rw [hheld credential hmem]
      exact Option.some_ne_none _
    · rw [hheld other hother]
      exact Option.some_ne_none _
  · intro credential hmem hgone
    obtain ⟨before, change, after, middle, hsplit, htrail, hchange⟩ := Registry.gone hgone
    obtain ⟨first, rest, rfl, rfl, hrest⟩ := List.map_eq_append_iff.mp hsplit
    obtain ⟨step, last, rfl, rfl, rfl⟩ := List.map_eq_cons_iff.mp hrest
    obtain ⟨v, hfirst, hlast⟩ := Steps.append_iff.mp hlog
    obtain ⟨x, hstep, -⟩ := Steps.cons_iff.mp hlast
    obtain ⟨middleStore, hmiddle, hrepresents⟩ := log_refines hfirst hstore
    obtain ⟨found, hfound, hname, hsame⟩ :=
      (hrepresents.lookup _ _).mp (Registry.Steps.value hmiddle (hheld credential hmem) htrail)
    refine ⟨first.map Prod.fst, step.1, last.map Prod.fst, v, by simp, log_executed hfirst, found, hfound, hsame, ?_⟩
    exact hstep.removes (hname ▸ hchange)
  · intro found hmem
    have hfound : store' found.name = some (materialOf found) :=
      (hstore'.lookup _ _).mpr ⟨found, hmem, rfl, rfl⟩
    rcases Registry.Steps.origin hsteps hfound with ⟨name, hname, htrail⟩ | ⟨before, name, after, hchanges, -⟩
    · obtain ⟨credential, hcredential, rfl, hsame⟩ := (hstore.lookup _ _).mp hname
      exact .inl ⟨credential, hcredential, htrail, hsame.symm⟩
    · obtain ⟨first, rest, rfl, -, hrest⟩ := List.map_eq_append_iff.mp hchanges
      obtain ⟨step, last, rfl, hinserts, -⟩ := List.map_eq_cons_iff.mp hrest
      obtain ⟨v, -, hlast⟩ := Steps.append_iff.mp hlog
      obtain ⟨x, hstep, -⟩ := Steps.cons_iff.mp hlast
      obtain ⟨credential, hadded, -, hsame⟩ := hstep.added hinserts
      exact .inr ⟨step.1, by simp, credential, hadded, hsame⟩

end History

namespace Fixture

open OathReference (Station play play_runs handle locked)
open OathSession.Fixture (crates)

def named (letter : UInt8) : Name := ⟨[letter], rfl.le, by simp⟩

def account (letter : UInt8) (secret : Bytes) : Credential :=
  ⟨named letter, .totp, .sha1, 6, secret, false, false, 0⟩

def alice : Credential := account 0x61 [1, 2, 3]
def bob : Credential := account 0x62 [4, 5, 6]

/-- An applet without an access code, with two accounts. -/
def start : Station := { locked with applet := .modern handle none, accounts := [alice, bob] }

def renameAlice : OathCommand := .accounts (.rename ['a'] ['c'] true) ⟨none, false⟩
def deleteBob : OathCommand := .accounts (.delete ['b'] true) ⟨none, false⟩

def renamed : Station := (play 20 (run crates renameAlice) start).2
def deleted : Station := (play 20 (run crates deleteBob) renamed).2

/-- One account is renamed, and the other one is deleted. -/
def changes : List Execution := [(renameAlice, some (.ok ())), (deleteBob, some (.ok ()))]

theorem changes_steps : Steps (Executed crates) changes start.world deleted.world := by
  have hrenamed : (play 20 (run crates renameAlice) start).1 = some (.ok ()) := by decide
  have hdeleted : (play 20 (run crates deleteBob) renamed).1 = some (.ok ()) := by decide
  exact .cons (play_runs hrenamed) (.cons (play_runs hdeleted) (.nil _))

theorem deleted_accounts : deleted.accounts = [account 0x63 [1, 2, 3]] := by decide

end Fixture

open Fixture in
/-- The renamed account is followed to its new name, and the deleted one to none. -/
theorem history_accounts_renamed : ∃ log : List (Execution × Change Name Material), log.map Prod.fst = changes ∧
    Steps (Makes OathSession.Fixture.crates) log start.world deleted.world ∧
    trail (log.map Prod.snd) (named 0x61) = some (named 0x63) ∧ trail (log.map Prod.snd) (named 0x62) = none := by
  have hmem : ∀ found, found ∈ deleted.world.card.accounts ↔ found = account 0x63 [1, 2, 3] := by
    intro found
    rw [OathReference.Station.world, deleted_accounts]
    exact List.mem_singleton
  have hstart : ∀ credential, credential ∈ start.world.card.accounts ↔ credential = alice ∨ credential = bob :=
    fun credential => List.mem_pair
  obtain ⟨-, log, hlog, hsteps, hfollow, -, -, horigin⟩ := history_accounts changes_steps (by decide)
  refine ⟨log, hlog, hsteps, ?_, Option.eq_none_iff_forall_ne_some.mpr fun name hname => ?_⟩
  · rcases horigin _ ((hmem _).mpr rfl) with ⟨credential, hcredential, htrail, hsame⟩ | ⟨execution, hexecution, added, hadded, -⟩
    · rcases (hstart _).mp hcredential with rfl | rfl
      · exact htrail
      · cases hsame
    · rcases List.mem_pair.mp hexecution with rfl | rfl <;> cases hadded
  · obtain ⟨found, hfound, -, hsame⟩ := hfollow bob ((hstart _).mpr (.inr rfl)) name hname
    obtain rfl := (hmem _).mp hfound
    cases hsame

end OathCommands
