import Ckman.OathCommands

/-!
# Consent

Deleting or renaming an account and resetting the applet wait for the user's
approval, unless the command was forced. What a command asks for besides is
collected on the way: it also shows which commands can touch the access code.
-/
namespace OathConsent

open Host
open Text Interaction OathCard OathSession OathAccess OathAccounts OathCommands
open Oath (Entry)
open CommandLine (CliError)

/-- The question to which the user answers before a request loses something. -/
def questionOf : Request → Option String
  | .card (.delete name) _ => some ("Delete account: " ++ String.ofList (fromUtf8Lossy name.bytes) ++ "?")
  | .card (.rename old _) _ => some ("Rename account: " ++ String.ofList (fromUtf8Lossy old.bytes) ++ "?")
  | .resetApplet _ => some "This will delete all stored OATH accounts and the OATH password. Proceed?"
  | _ => none

def approves (question : String) : (q : Request) → Answer q → Prop
  | .confirm asked, r => asked = question ∧ r = .ok true
  | _, _ => False

def setsCode : Request → Prop
  | .card (.setCode _ _) _ | .card .clearCode _ | .resetApplet _ => True
  | _ => False

section Parts

variable {α β : Type} {crates : Crates} {session : Session} {P : Request → Prop}

inductive Plain : Request → Prop where
  | target : Plain .target
  | select : Plain (.card .select none)
  | validate (access : Option Access) : Plain (.card .validate access)
  | list (access : Option Access) : Plain (.card .list access)
  | calculate (credential : AccountCodes.CredentialRef) (challenge : Option Bytes) (format : AccountCodes.Format)
      (access : Option Access) : Plain (.card (.calculate credential challenge format) access)
  | setDefault (slot : Touch) (enter : Bool) (name : Oath.Name) (access : Option Access) :
      Plain (.card (.setDefault slot enter name) access)
  | put (credential : Oath.Credential) (access : Option Access) : Plain (.card (.put credential) access)
  | getSerial : Plain (.card .getSerial none)
  | challengeResponse (slot : Touch) (challenge : Bytes) : Plain (.card (.challengeResponseHmac slot challenge) none)
  | fill (n : Nat) : Plain (.fill n)
  | prompt (text : String) : Plain (.prompt text)
  | confirm (text : String) : Plain (.confirm text)
  | entry (serial : UInt32) : Plain (.entry serial)
  | getPassword (serial : UInt32) : Plain (.getPassword serial)
  | setPassword (serial : UInt32) (text : String) : Plain (.setPassword serial text)
  | deleteCredential (serial : UInt32) : Plain (.deleteCredential serial)
  | notice (message : Notice) : Plain (.notice message)
  | now : Plain .now
  | write (line : List Char) : Plain (.write line)
  | flush : Plain .flush
  | panicked : Plain .panicked

theorem Plain.question {q : Request} (h : Plain q) : questionOf q = none := by cases h <;> rfl

theorem Plain.not_setsCode {q : Request} (h : Plain q) : ¬ setsCode q := by cases h <;> exact id

theorem wrapped_only {operation : Operation} {access : Option Access} {convert : Outcome → Except OathError α}
    (h : P (.card operation access)) :
    Prog.Only P (do orThrow (convert (← OathCard.run operation access)) : Wrapped α) :=
  Fallible.only_bind (Fallible.only_mapError ⟨h, fun _ => trivial⟩) fun _ => trivial

theorem accessFromKey_only {key : Key} : Prog.Only Plain (accessFromKey key) :=
  Fallible.only_bind (Fallible.only_mapError ⟨.fill 8, fun _ => trivial⟩) fun _ => trivial

theorem runTyped_only {f : Option Access → Wrapped α} (hP : ∀ q, Plain q → P q)
    (h : ∀ access, Prog.Only P (f access)) : Prog.Only P (session.runTyped f) := by
  rw [Session.runTyped]
  cases session.key with
  | none => exact h none
  | some key => exact Fallible.only_bind (accessFromKey_only.imp hP) fun access => h (some access)

theorem validateKey_only {key : Key} : Prog.Only Plain (validateKey key) :=
  Fallible.only_bind accessFromKey_only fun _ => wrapped_only (.validate _)

theorem bookkeeping_plain {q : Request} (h : isBookkeeping q = true) : Plain q := by
  cases q <;> first | constructor | cases h

theorem recall_plain {q : Request} (h : isBookkeeping q = true ∨ isRecall q = true) : Plain q := by
  rcases h with h | h
  · exact bookkeeping_plain h
  · cases q <;> first | constructor | cases h

theorem unlockWith_only {serial : Option UInt32} {handle : Eight} {remember : Bool} {password : String} :
    Prog.Only Plain (unlockWith crates serial handle remember password) := by
  refine Fallible.only_bind (Fallible.only_mapError validateKey_only) fun _ => ?_
  cases remember with
  | false => trivial
  | true => exact Fallible.only_bind (rememberKey_only.imp fun _ => bookkeeping_plain) fun _ => trivial

theorem promptPassword_only {text : String} : Prog.Only Plain (promptPassword text) :=
  Fallible.only_mapError ⟨.prompt text, fun _ => trivial⟩

theorem forgetKey_plain {serial : Option UInt32} : Prog.Only Plain (forgetKey serial) :=
  forgetKey_only.imp fun _ => bookkeeping_plain

theorem unlock_only {serial : Option UInt32} {handle : Eight} {password : Option String} {remember : Bool} :
    Prog.Only Plain (unlock crates serial handle password remember) := by
  cases password with
  | some text => exact unlockWith_only
  | none =>
    have hprompted : Prog.Only Plain (promptPassword "Enter the OATH password: " >>=
        unlockWith crates serial handle remember : Command Session) :=
      Fallible.only_bind promptPassword_only fun _ => unlockWith_only
    refine Fallible.only_bind (recallKey_only.imp fun _ => recall_plain) fun recalled => ?_
    cases recalled with
    | none => exact hprompted
    | some key =>
      refine Fallible.only_bind (Prog.only_bind validateKey_only fun _ => trivial) fun checked => ?_
      cases checked with
      | ok u => trivial
      | error e =>
        cases hwrong : isWrongPassword e with
        | false =>
          simp only [hwrong, Bool.false_eq_true, if_false]
          trivial
        | true =>
          simp only [hwrong, if_true]
          exact Fallible.only_bind forgetKey_plain fun _ => hprompted

theorem select_only : Prog.Only Plain (described crates select) := Fallible.only_mapError (wrapped_only .select)

theorem connect_only {password : Option String} {remember : Bool} :
    Prog.Only Plain (connect crates password remember) := by
  refine Fallible.only_bind ⟨.target, fun _ => trivial⟩ fun serial => ?_
  refine Fallible.only_bind select_only fun found => ?_
  split
  split
  · split <;> trivial
  · split
    · exact ⟨.panicked, fun r => nomatch r⟩
    · exact unlock_only

theorem listEntries_only : Prog.Only Plain (listEntries crates session) :=
  Fallible.only_mapError (runTyped_only (fun _ => id) fun _ => wrapped_only (.list _))

/-- One operation of a session and the messages after it. -/
theorem session_only (operation : Operation) {f : Unit → Command Unit} (hP : ∀ q, Plain q → P q)
    (h : ∀ access, P (.card operation access)) (hf : Prog.Only P (f ())) :
    Prog.Only P (session.run crates (fun access => perform operation access) >>= f : Command Unit) :=
  Fallible.only_bind (Fallible.only_mapError (runTyped_only hP fun access => wrapped_only (h access))) fun _ => hf

theorem notice_only {message : Notice} : Prog.Only Plain (notice message) := ⟨.notice message, fun _ => trivial⟩

theorem orThrow_only (r : Except CliError α) : Prog.Only P (orThrow r : Command α) := trivial

theorem promptLoop_only {accept : List Char → Except String α} {ended : String}
    (lines : List (Except IoError (List Char))) : Prog.Only Plain (promptLoop accept ended lines) := by
  induction lines with
  | nil => trivial
  | cons line lines ih =>
    cases line with
    | error e => trivial
    | ok line =>
      rw [promptLoop]
      cases accept (trim line) with
      | ok a => trivial
      | error message => exact Fallible.only_bind notice_only fun _ => ih

/-- What comes after the approval is approved. -/
theorem approve_guards {question aborted : String} {f : Unit → Command Unit}
    (hf : Prog.Only (fun q => ∀ text, questionOf q = some text → text = question) (f ())) (text : String) :
    Prog.Guards (fun q => questionOf q = some text) (approves text)
      (approve false question aborted >>= f : Command Unit) := by
  by_cases htext : question = text
  · refine ⟨nofun, fun r => ?_⟩
    rcases r with e | approved
    · exact .inr trivial
    · cases approved with
      | false => exact .inr trivial
      | true => exact .inl ⟨htext, rfl⟩
  · refine .andThen (.of_only ⟨nofun, fun r => ?_⟩) fun u => .of_only (hf.imp fun q hq h => htext (hq text h).symm)
    rcases r with e | approved
    · trivial
    · exact orThrow_only _

end Parts

section Commands

variable {crates : Crates}

def isForced : OathCommand → Bool
  | .reset force _ => force
  | .accounts (.rename _ _ force) _ => force
  | .accounts (.delete _ force) _ => force
  | _ => false

def isForCode : OathCommand → Bool
  | .reset .. | .access (.change ..) => true
  | _ => false

theorem addCredential_only {access : AccessArgs} {parameters : Parameters} {secret : Bytes}
    {generated touch force : Bool} :
    Prog.Only Plain (addCredential crates access parameters secret generated touch force) := by
  refine Fallible.only_bind (orThrow_only _) fun credential => Fallible.only_bind connect_only fun session => ?_
  have hput : Prog.Only Plain (session.run crates (fun access => OathCard.add access credential) >>= fun _ => do
      notice (.line "Account added.")
      if generated then
        notice (.line ("Generated credential secret (base32): " ++
          String.ofList (Oath.base32Encode secret))) : Command Unit) := by
    refine session_only (.put credential) (fun _ => id) (.put credential) ⟨.notice _, fun _ => ?_⟩
    cases generated with
    | true => exact notice_only
    | false => trivial
  cases force with
  | true => exact hput
  | false => exact Fallible.only_bind listEntries_only fun entries => Fallible.only_bind (orThrow_only _) fun _ => hput

theorem secretFor_only {input : AddInput} {lines : List (Except IoError (List Char))} :
    Prog.Only Plain (secretFor input lines) := by
  rw [secretFor]
  split
  · exact Fallible.only_bind (orThrow_only _) fun _ => trivial
  · exact Fallible.only_bind (Fallible.only_mapError ⟨.fill 20, fun _ => trivial⟩) fun _ => trivial
  · exact Fallible.only_bind (promptLoop_only lines) fun _ => trivial
  · exact ⟨.panicked, fun r => r.elim⟩

theorem uriFor_only {uri : Option (List Char)} {lines : List (Except IoError (List Char))} :
    Prog.Only Plain (uriFor uri lines) := by
  cases uri with
  | some text => exact orThrow_only _
  | none => exact promptLoop_only lines

theorem codeHandler_only (session : Session) (q : AccountCodes.Request) :
    Prog.Only Plain (codeHandler session q) := by
  cases q with
  | now => exact ⟨.now, fun _ => trivial⟩
  | notice text => exact ⟨.notice _, fun _ => trivial⟩
  | write line => exact ⟨.write line, fun _ => trivial⟩
  | flush => exact ⟨.flush, fun _ => trivial⟩
  | list => exact runTyped_only (fun _ => id) fun access => wrapped_only (.list access)
  | calculate credential challenge format =>
    exact runTyped_only (f := fun access => calculate access credential challenge format) (fun _ => id)
      fun access => wrapped_only (.calculate credential challenge format access)

theorem printRows_plain (rows : List (List Char)) : Prog.Only Plain (printRows rows) :=
  (printRows_only rows).imp fun _ ⟨message, h⟩ => h ▸ .notice message

/-- The part of a command before it has found the account that it is about. -/
theorem matched_only {P : Request → Prop} {access : AccessArgs} {query : List Char}
    {f : List Entry → Entry → Session → Command Unit} (hP : ∀ q, Plain q → P q)
    (hf : ∀ entries entry session, Prog.Only P (f entries entry session)) :
    Prog.Only P (do
      let session ← connect crates access.password access.remember
      let entries ← listEntries crates session
      let entry ← orThrow (onlyMatch crates query entries)
      f entries entry session : Command Unit) :=
  Fallible.only_bind (connect_only.imp hP) fun session => Fallible.only_bind (listEntries_only.imp hP)
    fun entries => Fallible.only_bind (orThrow_only _) fun entry => hf entries entry session

theorem matched_guards {text : String} {access : AccessArgs} {query : List Char}
    {f : List Entry → Entry → Session → Command Unit}
    (hf : ∀ entries entry session, Prog.Guards (fun q => questionOf q = some text) (approves text)
      (f entries entry session)) :
    Prog.Guards (fun q => questionOf q = some text) (approves text) (do
      let session ← connect crates access.password access.remember
      let entries ← listEntries crates session
      let entry ← orThrow (onlyMatch crates query entries)
      f entries entry session : Command Unit) := by
  have hplain : ∀ q, Plain q → ¬ questionOf q = some text := fun q hq h => nomatch hq.question.symm.trans h
  exact .andThen (.of_only (connect_only.imp hplain)) fun session =>
    .andThen (.of_only (listEntries_only.imp hplain)) fun entries =>
      .andThen (.of_only (orThrow_only _)) fun entry => hf entries entry session

theorem approve_only {force : Bool} {question aborted : String} : Prog.Only Plain (approve force question aborted) := by
  cases force with
  | true => trivial
  | false => exact Fallible.only_bind (Fallible.only_mapError ⟨.confirm question, fun _ => trivial⟩) fun _ => orThrow_only _

theorem dropEntry_only {serial : Option UInt32} : Prog.Only Plain (dropEntry serial) := by
  cases serial with
  | none => trivial
  | some s =>
    refine ⟨.entry s, fun r => ?_⟩
    cases r with
    | error e => trivial
    | ok u => exact ⟨.deleteCredential s, fun _ => trivial⟩

theorem isRemembered_plain {serial : Option UInt32} : Prog.Only Plain (isRemembered serial) := by
  cases serial with
  | none => trivial
  | some s =>
    refine ⟨.entry s, fun r => ?_⟩
    cases r with
    | error e => trivial
    | ok u =>
      refine ⟨.getPassword s, fun r => ?_⟩
      cases r <;> trivial

theorem info_only : Prog.Only Plain (info crates) := by
  refine Fallible.only_bind ⟨.target, fun _ => trivial⟩ fun serial => Fallible.only_bind select_only fun found => ?_
  cases found with
  | legacy serial => exact ⟨.notice _, fun _ => notice_only⟩
  | modern selection =>
    refine ⟨.notice _, fun _ => ⟨.notice _, fun _ => ?_⟩⟩
    cases selection.challenge.isSome with
    | false => trivial
    | true =>
      refine Fallible.only_bind isRemembered_plain fun remembered => ?_
      cases remembered with
      | false => trivial
      | true => exact notice_only

theorem serial_only : Prog.Only Plain (serial crates) :=
  Fallible.only_bind ⟨.target, fun _ => trivial⟩ fun _ =>
    Fallible.only_bind (Fallible.only_mapError (wrapped_only .getSerial)) fun _ => notice_only

theorem challengeResponse_only {slot : Touch} {challenge : String} {text : Bool} :
    Prog.Only Plain (challengeResponse crates slot challenge text) :=
  Fallible.only_bind (orThrow_only _) fun _ => Fallible.only_bind (orThrow_only _) fun _ =>
    Fallible.only_bind ⟨.target, fun _ => trivial⟩ fun _ =>
      Fallible.only_bind (Fallible.only_mapError (wrapped_only (.challengeResponse slot _))) fun _ => notice_only

theorem passwordOr_only {given : Option String} {prompt : String} : Prog.Only Plain (passwordOr given prompt) := by
  cases given with
  | some password => trivial
  | none => exact promptPassword_only

theorem accessRemember_only {password : Option String} : Prog.Only Plain (accessRemember crates password) := by
  refine Fallible.only_bind ⟨.target, fun _ => trivial⟩ fun serial => Fallible.only_bind select_only fun found => ?_
  cases found with
  | legacy serial => exact notice_only
  | modern selection =>
    cases hopen : selection.challenge.isNone with
    | true =>
      simp only [hopen, if_true]
      exact notice_only
    | false =>
      simp only [hopen, Bool.false_eq_true, if_false]
      refine Fallible.only_bind passwordOr_only fun text => ?_
      refine Fallible.only_bind (Fallible.only_mapError ⟨.fill 8, fun _ => trivial⟩) fun challenge => ?_
      exact Fallible.only_bind (Fallible.only_mapError (wrapped_only (.validate _))) fun _ =>
        rememberKey_only.imp fun _ => bookkeeping_plain

theorem accessForget_only : Prog.Only Plain accessForget :=
  Fallible.only_bind ⟨.target, fun _ => trivial⟩ fun _ => Fallible.only_bind forgetKey_plain fun _ => notice_only

theorem accountsCode_only {access : AccessArgs} {query : List Char} {single showHidden : Bool} :
    Prog.Only Plain (accountsCode crates access query single showHidden) := by
  refine Fallible.only_bind connect_only fun session => Fallible.only_bind (p := (Prog.bind _ _ : Command _)) ?_ fun result => ?_
  · exact Prog.only_bind (Prog.only_interpret (codeHandler_only session) _) fun _ => trivial
  · rcases result with (message | - | error) | u
    · trivial
    · exact ⟨.panicked, fun r => nomatch r⟩
    · trivial
    · trivial

/-- The commands that change neither an account's name nor the access code. -/
theorem run_plain (command : OathCommand) (hcode : isForCode command = false)
    (hrename : ∀ query name force access, command ≠ .accounts (.rename query name force) access)
    (hdelete : ∀ query force access, command ≠ .accounts (.delete query force) access) :
    Prog.Only Plain (run crates command) := by
  cases command with
  | info => exact info_only
  | serial => exact serial_only
  | reset force adminPin => cases hcode
  | challengeResponse slot challenge text => exact challengeResponse_only
  | access command =>
    cases command with
    | change password clear newPassword remember => cases hcode
    | remember password => exact accessRemember_only
    | forget => exact accessForget_only
  | accounts command access =>
    cases command with
    | add input lines touch force =>
      exact Fallible.only_bind (orThrow_only _) fun _ => Fallible.only_bind (orThrow_only _) fun _ =>
        Fallible.only_bind secretFor_only fun _ => addCredential_only
    | uri uri lines touch force =>
      exact Fallible.only_bind uriFor_only fun _ => Fallible.only_bind (orThrow_only _) fun _ => addCredential_only
    | list showHidden oathType period =>
      exact Fallible.only_bind connect_only fun _ => Fallible.only_bind listEntries_only fun _ => printRows_plain _
    | code query single showHidden => exact accountsCode_only
    | rename query name force => exact absurd rfl (hrename query name force access)
    | setDefault query slot enter =>
      refine matched_only (fun _ => id) fun entries entry session => Fallible.only_bind (orThrow_only _) fun _ => ?_
      exact session_only (.setDefault slot enter entry.name) (fun _ => id) (.setDefault _ _ _) notice_only
    | delete query force => exact absurd rfl (hdelete query force access)

/-- What the end of `accounts_rename` and `accounts_delete` asks for. -/
theorem loss_only {session : Session} (operation : Operation) {question : String} {message : Notice}
    (hquestion : ∀ access, questionOf (.card operation access) = some question) :
    Prog.Only (fun q => ∀ text, questionOf q = some text → text = question)
      (session.run crates (fun access => perform operation access) >>= fun _ => notice message : Command Unit) := by
  have hplain : ∀ q, Plain q → ∀ text, questionOf q = some text → text = question :=
    fun q hq text h => nomatch hq.question.symm.trans h
  exact session_only operation hplain (fun access text h => Option.some.inj (h.symm.trans (hquestion access)))
    (notice_only.imp hplain)

theorem accountsRename_guards {access : AccessArgs} {query name : List Char} (text : String) :
    Prog.Guards (fun q => questionOf q = some text) (approves text)
      (accountsRename crates access query name false) := by
  refine matched_guards fun entries entry session => ?_
  refine .andThen (.of_only (orThrow_only _)) fun kind => .andThen (.of_only (orThrow_only _)) fun _ => ?_
  refine approve_guards (Fallible.only_bind (orThrow_only _) fun new => ?_) text
  exact loss_only (.rename entry.name new) fun access => rfl

theorem accountsDelete_guards {access : AccessArgs} {query : List Char} (text : String) :
    Prog.Guards (fun q => questionOf q = some text) (approves text)
      (accountsDelete crates access query false) := by
  refine matched_guards fun entries entry session => ?_
  exact approve_guards (loss_only (.delete entry.name) fun access => rfl) text

theorem accessChange_only {password : Option String} {clear : Bool} {new : Option String} {remember : Bool} :
    Prog.Only (fun q => questionOf q = none) (accessChange crates password clear new remember) := by
  have hplain : ∀ q, Plain q → questionOf q = none := fun _ h => h.question
  refine Fallible.only_bind (orThrow_only _) fun _ => Fallible.only_bind (connect_only.imp hplain) fun session => ?_
  cases clear with
  | true =>
    refine Fallible.only_bind (Fallible.only_mapError (runTyped_only hplain fun access =>
      wrapped_only rfl)) fun _ => ?_
    exact Fallible.only_bind (forgetKey_plain.imp hplain) fun _ => notice_only.imp hplain
  | false =>
    have hnew : Prog.Only Plain (newPassword new) := by
      cases new with
      | some password => trivial
      | none =>
        exact Fallible.only_bind promptPassword_only fun _ => Fallible.only_bind promptPassword_only fun _ =>
          Fallible.only_bind (orThrow_only _) fun _ => trivial
    refine Fallible.only_bind (hnew.imp hplain) fun text => Fallible.only_bind (orThrow_only _) fun handle => ?_
    refine Fallible.only_bind (Fallible.only_mapError (runTyped_only hplain fun access => ?_)) fun _ => ?_
    · exact Fallible.only_bind (Fallible.only_mapError ⟨rfl, fun _ => trivial⟩) fun challenge =>
        wrapped_only rfl
    · cases remember with
      | true =>
        exact Fallible.only_bind (rememberKey_only.imp fun _ h => (bookkeeping_plain h).question)
          fun _ => notice_only.imp hplain
      | false => exact Fallible.only_bind (forgetKey_plain.imp hplain) fun _ => notice_only.imp hplain

theorem promptAdminPin_only : Prog.Only Plain (promptAdminPin crates) :=
  Fallible.only_bind promptPassword_only fun _ => orThrow_only _

theorem reset_guards {adminPin : Option String} (text : String) :
    Prog.Guards (fun q => questionOf q = some text) (approves text) (reset crates false adminPin) := by
  refine .andThen (.of_only ⟨nofun, fun _ => trivial⟩) fun serial => ?_
  refine approve_guards (Fallible.only_bind (orThrow_only _) fun pin => ?_) text
  have hplain : ∀ q, Plain q → ∀ text, questionOf q = some text →
      text = "This will delete all stored OATH accounts and the OATH password. Proceed?" :=
    fun q hq text h => nomatch hq.question.symm.trans h
  have hreset : ∀ pin, Prog.Only (fun q => ∀ text, questionOf q = some text →
      text = "This will delete all stored OATH accounts and the OATH password. Proceed?")
      (attempt (Prog.request (Request.resetApplet pin)) : Fallible Answer Drive.DriveError Unit) :=
    fun pin => ⟨fun text h => (Option.some.inj h).symm, fun _ => trivial⟩
  refine Fallible.only_bind ?_ fun _ => Fallible.only_bind (dropEntry_only.imp hplain) fun _ => notice_only.imp hplain
  cases pin with
  | some pin => exact Fallible.only_mapError (hreset (some pin))
  | none =>
    refine Prog.only_bind (hreset none) fun r => ?_
    cases r with
    | ok u => trivial
    | error e =>
      change Prog.Only _ (if Drive.needsAdminPin e then _ else _)
      split
      · exact Fallible.only_bind (promptAdminPin_only.imp hplain) fun pin => Fallible.only_mapError (hreset (some pin))
      · trivial

theorem run_guards {command : OathCommand} (hforce : isForced command = false) (text : String) :
    Prog.Guards (fun q => questionOf q = some text) (approves text) (run crates command) := by
  have hnone : ∀ {p : Command Unit}, Prog.Only (fun q => questionOf q = none) p →
      Prog.Guards (fun q => questionOf q = some text) (approves text) p :=
    fun hp => .of_only (hp.imp fun q hq h => nomatch hq.symm.trans h)
  by_cases hplain : isForCode command = false ∧
      (∀ query name force access, command ≠ .accounts (.rename query name force) access) ∧
      ∀ query force access, command ≠ .accounts (.delete query force) access
  · exact hnone ((run_plain command hplain.1 hplain.2.1 hplain.2.2).imp fun _ h => h.question)
  · rcases command with _ | _ | ⟨force, adminPin⟩ | _ | ⟨_ | _ | _⟩ |
      ⟨_ | _ | _ | _ | ⟨query, name, force⟩ | _ | ⟨query, force⟩, access⟩
    case reset =>
      obtain rfl : force = false := hforce
      exact reset_guards text
    case access.change => exact hnone accessChange_only
    case accounts.rename =>
      obtain rfl : force = false := hforce
      exact accountsRename_guards text
    case accounts.delete =>
      obtain rfl : force = false := hforce
      exact accountsDelete_guards text
    all_goals exact absurd ⟨rfl, nofun, nofun⟩ hplain

/-- Only `oath access change` and `oath reset` touch the access code. -/
theorem run_keepsCode {command : OathCommand} (hcode : isForCode command = false) :
    Prog.Only (fun q => ¬ setsCode q) (run crates command) := by
  have hplain : ∀ q, Plain q → ¬ setsCode q := fun q h => h.not_setsCode
  by_cases hother : (∀ query name force access, command ≠ .accounts (.rename query name force) access) ∧
      ∀ query force access, command ≠ .accounts (.delete query force) access
  · exact (run_plain command hcode hother.1 hother.2).imp hplain
  · rcases command with _ | _ | ⟨force, adminPin⟩ | _ | ⟨_ | _ | _⟩ |
      ⟨_ | _ | _ | _ | ⟨query, name, force⟩ | _ | ⟨query, force⟩, access⟩
    case accounts.rename =>
      refine matched_only hplain fun entries entry session => ?_
      refine Fallible.only_bind (orThrow_only _) fun kind => Fallible.only_bind (orThrow_only _) fun _ => ?_
      refine Fallible.only_bind (approve_only.imp hplain) fun _ => Fallible.only_bind (orThrow_only _) fun new => ?_
      exact session_only (.rename entry.name new) hplain (fun _ => id) (notice_only.imp hplain)
    case accounts.delete =>
      refine matched_only hplain fun entries entry session => Fallible.only_bind (approve_only.imp hplain) fun _ => ?_
      exact session_only (.delete entry.name) hplain (fun _ => id) (notice_only.imp hplain)
    all_goals exact absurd ⟨nofun, nofun⟩ hother

/-- Unless the command was forced, whatever deletes or renames an account and
whatever resets the applet comes after the user has approved just that: the
question named this account, or the loss of all accounts. -/
theorem loss_is_approved {command : OathCommand} {tr before after : List (Event Answer)}
    {event : Event Answer} {o : Option (Except CliError Unit)} {question : String}
    (h : Fallible.Traces (run crates command) tr o) (hforce : isForced command = false)
    (htr : tr = before ++ event :: after) (hloss : questionOf event.request = some question) :
    ⟨.confirm question, .ok true⟩ ∈ before := by
  obtain ⟨⟨q, r⟩, hmem, happroves⟩ := (run_guards hforce question).granted h htr hloss
  cases q with
  | confirm asked =>
    obtain ⟨rfl, rfl⟩ := happroves
    exact hmem
  | _ => cases happroves

end Commands

/-- A reset that the user approves. -/
theorem loss_is_approved_reset :
    (⟨.confirm "This will delete all stored OATH accounts and the OATH password. Proceed?", .ok true⟩ : Event Answer) ∈
      [⟨.target, .ok none⟩,
        ⟨.confirm "This will delete all stored OATH accounts and the OATH password. Proceed?", .ok true⟩] := by
  have htrace : Fallible.Traces (run OathSession.Fixture.crates (.reset false none))
      ([⟨.target, .ok none⟩,
        ⟨.confirm "This will delete all stored OATH accounts and the OATH password. Proceed?", .ok true⟩] ++
        ⟨.resetApplet none, .ok ()⟩ :: []) none := .step (.step (.step (.stop _ _)))
  exact loss_is_approved htrace rfl rfl rfl

end OathConsent
