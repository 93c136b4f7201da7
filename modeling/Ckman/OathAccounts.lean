import Ckman.AccountSearch
import Ckman.Base32
import Ckman.OathAccess
import Ckman.OathStore

/-!
# The accounts of the OATH applet

Every account command connects, lists, and sends at most one request that
changes an account. The accounts are seen as a registry of what was stored under
each name, and a run is compared with one change of the registry.
-/
namespace OathAccounts

open Host
open Text Interaction OathCard OathSession
open OathAccess
open Registry (Change)
open Oath (Algorithm Calculation Credential Entry Kind Name displayName kindOf parseName)
open CommandLine (CliError)

structure AccessArgs where
  password : Option String
  remember : Bool

/-- `?` on a message. -/
def orFail {α : Type} (r : Except String α) : Command α := orThrow (r.mapError .text)

/-- The loop around `prompt_line`. A line is asked for until one is accepted;
`lines` are the lines of the input, which ends after them. -/
def promptLoop {α : Type} (accept : List Char → Except String α) (ended : String) :
    List (Except IoError (List Char)) → Command α
  | [] => throw (.text ended)
  | .error error :: _ => throw (.io error)
  | .ok line :: lines =>
    match accept (trim line) with
    | .ok a => pure a
    | .error message => do
      notice (.line message)
      promptLoop accept ended lines

def listEntries (crates : Crates) (session : Session) : Command (List Entry) :=
  session.run crates list

/-- What `accounts add` and `accounts uri` store, without the secret. -/
structure Parameters where
  issuer : Option (List Char)
  name : List Char
  kind : Kind
  algorithm : Algorithm
  digits : UInt8
  period : UInt32
  counter : UInt32

/-- The checks that `add_credential` makes before it connects. -/
def Parameters.credential (parameters : Parameters) (secret : Bytes) (touch : Bool) :
    Except String Credential :=
  Oath.addCredential parameters.issuer parameters.name parameters.kind parameters.algorithm
    parameters.digits parameters.period parameters.counter secret touch true (.ok [])

/-- `add_credential`. -/
def addCredential (crates : Crates) (access : AccessArgs) (parameters : Parameters) (secret : Bytes)
    (generated touch force : Bool) : Command Unit := do
  let credential ← orFail (parameters.credential secret touch)
  let session ← connect crates access.password access.remember
  if force then pure ()
  else do
    let entries ← listEntries crates session
    let id := Oath.formatId parameters.issuer parameters.name parameters.kind parameters.period
    orFail (Oath.checkNewName false (.ok entries) id)
  session.run crates fun access => OathCard.add access credential
  notice (.line "Account added.")
  if generated then
    notice (.line ("Generated credential secret (base32): " ++ String.ofList (Oath.base32Encode secret)))

structure AddInput where
  parameters : Parameters
  secret : Option (List Char)
  generate : Bool

/-- `base32_decode` with the message that the commands print. -/
def decodeSecret (text : List Char) : Except String Bytes :=
  -- `UriError::Secret` has the text that `accounts_add` writes before the error.
  (Oath.base32Decode text).mapError Oath.UriError.message

/-- The secret that is given, generated or entered, and whether it was generated. -/
def secretFor (input : AddInput) (lines : List (Except IoError (List Char))) : Command (Bytes × Bool) :=
  match input.secret, input.generate with
  | some secret, false => do
    let secret ← orFail (decodeSecret secret)
    pure (secret, false)
  | none, true => do
    let secret ← mapError .random (attempt (Prog.request (Request.fill 20)))
    pure (secret.val, true)
  | none, false => do
    let secret ← promptLoop decodeSecret "no secret key entered (end of input)" lines
    pure (secret, false)
  | some _, true => do
    let panic ← ask .panicked
    nomatch panic

/-- `accounts_add`. -/
def accountsAdd (crates : Crates) (access : AccessArgs) (input : AddInput)
    (lines : List (Except IoError (List Char))) (touch force : Bool) : Command Unit := do
  orThrow (refuse (input.parameters.counter ≠ 0 ∧ input.parameters.kind ≠ .hotp)
    (.text "counter is only supported for HOTP accounts"))
  orThrow (refuse (input.generate = true ∧ input.secret.isSome = true)
    (.text "cannot use --generate together with a provided SECRET"))
  let (secret, generated) ← secretFor input lines
  addCredential crates access input.parameters secret generated touch force

def uriParameters (parsed : Oath.OtpAuth) : Except String Parameters := do
  let counter ← Oath.uriInitialCounter parsed.kind parsed.counter
  pure ⟨parsed.issuer, parsed.account, parsed.kind, parsed.algorithm, Oath.steamDigits parsed,
    parsed.period, counter⟩

def parseUri (text : List Char) : Except String Oath.OtpAuth := (Oath.parse text).mapError Oath.UriError.message

def uriFor (uri : Option (List Char)) (lines : List (Except IoError (List Char))) : Command Oath.OtpAuth :=
  match uri with
  | some text => orFail (parseUri text)
  | none => promptLoop parseUri "no URI entered (end of input)" lines

/-- `accounts_uri`. -/
def accountsUri (crates : Crates) (access : AccessArgs) (uri : Option (List Char))
    (lines : List (Except IoError (List Char))) (touch force : Bool) : Command Unit := do
  let parsed ← uriFor uri lines
  let parameters ← orFail (uriParameters parsed)
  addCredential crates access parameters parsed.secret false touch force

/-- One row of `accounts_list`. -/
def row (showType showPeriod : Bool) (entry : Entry) : List Char :=
  displayName entry ++
    (if showType then
      match kindOf entry with
      | some .hotp => ", HOTP".toList
      | some .totp => ", TOTP".toList
      | none => ", unknown".toList
    else []) ++
    if showPeriod = true ∧ kindOf entry = some .totp then
      ", ".toList ++ decimal (parseName entry.name.bytes .totp).period.toNat
    else []

/-- The rows of `accounts_list`, sorted stably by their lower-cased text. -/
def rows (crates : Crates) (showHidden showType showPeriod : Bool) (entries : List Entry) : List (List Char) :=
  ((entries.filter (Oath.isVisible showHidden)).map (row showType showPeriod)).mergeSort
    fun a b => decide (crates.lowercase a ≤ crates.lowercase b)

def printRows : List (List Char) → Command Unit
  | [] => pure ()
  | row :: rows => do
    notice (.line (String.ofList row))
    printRows rows

/-- `accounts_list`. -/
def accountsList (crates : Crates) (access : AccessArgs) (showHidden showType showPeriod : Bool) :
    Command Unit := do
  let session ← connect crates access.password access.remember
  let entries ← listEntries crates session
  printRows (rows crates showHidden showType showPeriod entries)

def onlyMatch (crates : Crates) (query : List Char) (entries : List Entry) : Except CliError Entry :=
  match Oath.search crates.lowercase entries query true with
  | [] => .error (.text "no matches, nothing to be done")
  | [entry] => .ok entry
  | hits => .error (.text (Oath.multipleHits hits))

/-- The name of an account after `accounts_rename`. -/
def renamedId (entry : Entry) (kind : Kind) (name : List Char) : List Char :=
  Oath.formatId (Oath.newIssuerAccount name).1 (Oath.newIssuerAccount name).2 kind
    (parseName entry.name.bytes kind).period

/-- `accounts_rename`. -/
def accountsRename (crates : Crates) (access : AccessArgs) (query name : List Char) (force : Bool) :
    Command Unit := do
  let session ← connect crates access.password access.remember
  let entries ← listEntries crates session
  let entry ← orThrow (onlyMatch crates query entries)
  let kind ← orThrow (okOr (kindOf entry) (.text "unsupported credential type octet"))
  let newId := renamedId entry kind name
  orThrow (refuse (∃ other ∈ entries, other.name.bytes = utf8 newId)
    (.text ("another account with ID " ++ String.ofList newId ++ " already exists on this CanoKey")))
  approve force ("Rename account: " ++ String.ofList (displayName entry) ++ "?") "rename aborted"
  -- `Name::from_bytes` on the bytes of a name gives the name back.
  let new ← orThrow (okOr (Name.fromBytes (utf8 newId)) (.text "name must be between 1 and 64 bytes"))
  session.run crates fun access => rename access entry.name new
  notice (.line ("Renamed " ++ String.ofList (displayName entry) ++ " to " ++ String.ofList newId ++ "."))

/-- `accounts_set_default`. -/
def accountsSetDefault (crates : Crates) (access : AccessArgs) (query : List Char) (slot : Touch)
    (enter : Bool) : Command Unit := do
  let session ← connect crates access.password access.remember
  let entries ← listEntries crates session
  let entry ← orThrow (onlyMatch crates query entries)
  orThrow (refuse (kindOf entry ≠ some .hotp)
    (.text "only HOTP accounts can be the keyboard-emulation default"))
  session.run crates fun access => setDefault slot enter entry.name access
  notice (.line ("Default credential set (" ++ (match slot with | .short => "short" | .long => "long") ++
    " touch slot)."))

/-- `accounts_delete`. -/
def accountsDelete (crates : Crates) (access : AccessArgs) (query : List Char) (force : Bool) :
    Command Unit := do
  let session ← connect crates access.password access.remember
  let entries ← listEntries crates session
  let entry ← orThrow (onlyMatch crates query entries)
  approve force ("Delete account: " ++ String.ofList (displayName entry) ++ "?") "deletion aborted"
  session.run crates fun access => delete access entry.name
  notice (.line ("Deleted " ++ String.ofList (displayName entry) ++ "."))

/-- `describe_calculation`. -/
def describeCalculation (crates : Crates) (error : OathError) (kind : Kind) : String :=
  match error with
  | .drive (.protocol protocol) =>
    if protocol.phase = .command then
      match protocol.kind with
      | .securityStatusNotSatisfied =>
        if kind = .totp then
          "TOTP calculation rejected: touch may have timed out or been cancelled, or the time step is " ++
            "older than the credential's stored value; check the system clock"
        else
          "HOTP calculation rejected by a security condition; touch may have timed out or been cancelled"
      | .conditionsNotSatisfied =>
        if kind = .hotp then
          "HOTP calculation conditions not satisfied: touch may have timed out or the counter may be exhausted"
        else "TOTP calculation conditions not satisfied; touch may have timed out"
      | _ => describeOath crates error
    else describeOath crates error
  | _ => describeOath crates error

def codeCrates (crates : Crates) : AccountCodes.Crates OathError where
  lowercase := crates.lowercase
  describeOath error := (describeOath crates error).toList
  describeCalculation error kind := (describeCalculation crates error kind).toList

def codeHandler (session : Session) :
    (q : AccountCodes.Request) → Prog Answer (AccountCodes.Answer OathError IoError q)
  | .list => session.runTyped list
  | .now => Prog.request Request.now
  | .notice text => Prog.request (Request.notice (.line (String.ofList text)))
  | .calculate credential challenge format =>
    session.runTyped fun access => calculate access credential challenge format
  | .write line => Prog.request (Request.write line)
  | .flush => Prog.request Request.flush

def codeResult : Except (AccountCodes.Failure IoError) Unit → Command Unit
  | .ok () => pure ()
  | .error (.message text) => throw (.text (String.ofList text))
  | .error (.output error) => throw (.io error)
  | .error .panicked => do
    let panic ← ask .panicked
    nomatch panic

/-- `accounts_code`. -/
def accountsCode (crates : Crates) (access : AccessArgs) (query : List Char) (single showHidden : Bool) :
    Command Unit := do
  let session ← connect crates access.password access.remember
  let codes : AccountCodes.Codes OathError IoError (AccountCodes.Failure IoError) Unit :=
    AccountCodes.accountsCode (codeCrates crates) query single showHidden
  let result ← (Prog.bind (Prog.interpret (codeHandler session) codes) fun r => .pure (.ok r) :
    Command (Except (AccountCodes.Failure IoError) Unit))
  codeResult result

section Serves

variable {crates : Crates} {w v : World} {session : Session} {allowed : Change Name Material → Prop}
  {α : Type}

def Done (allowed : Change Name Material → Prop) (w v : World) : Prop :=
  Handled w v ∧ ∃ change, allowed change ∧ Changes change w.card.accounts v.card.accounts

/-- An allowed change was made or none, and the keyring was handled. -/
def Reached (allowed : Change Name Material → Prop) (w v : World) : Prop :=
  Done (fun change => change = .stay ∨ allowed change) w v

/-- From the world `v` on, a command that was started in `w` makes at most one
change, and it is an allowed one; when the command succeeds the change was made. -/
def Serves (allowed : Change Name Material → Prop) (w v : World) (p : Command Unit) : Prop :=
  Prog.Ensures environment (fun x => x = v) p (Reached allowed w) fun r x =>
    Reached allowed w x ∧ (r = .ok () → Done allowed w x)

theorem Done.imp {allowed' : Change Name Material → Prop} (h : Done allowed w v)
    (himp : ∀ change, allowed change → allowed' change) : Done allowed' w v :=
  ⟨h.1, h.2.imp fun change hchange => ⟨himp change hchange.1, hchange.2⟩⟩

theorem Done.reached (h : Done allowed w v) : Reached allowed w v := h.imp fun _ => .inr

theorem Reached.of_kept (h : Kept w v) : Reached allowed w v :=
  ⟨h.1, .stay, .inl rfl, h.2 ▸ .stay _⟩

theorem Reached.refl (allowed : Change Name Material → Prop) (w : World) : Reached allowed w w :=
  .of_kept Forgetting.refl.kept

theorem Reached.of_connecting {remember : Bool} (h : Connecting remember w v) : Reached allowed w v :=
  .of_kept (Connecting.handled h)

theorem Serves.imp {allowed' : Change Name Material → Prop} {p : Command Unit} (h : Serves allowed w v p)
    (himp : ∀ change, allowed change → allowed' change) : Serves allowed' w v p := by
  have hreached : ∀ x, Reached allowed w x → Reached allowed' w x := fun x hx => Done.imp hx fun _ => Or.imp id (himp _)
  refine Prog.Ensures.weaken h (fun _ hx => hx) hreached ?_
  rintro r x ⟨hx, hdone⟩
  exact ⟨hreached x hx, fun hr => (hdone hr).imp himp⟩

/-- A part that only looks, and fails or goes on. -/
theorem Serves.look {p : Command α} {f : α → Command Unit} {P : Except CliError α → Prop}
    (hv : Reached allowed w v)
    (hp : Prog.Ensures environment (fun x => x = v) p (fun x => x = v) fun r x => x = v ∧ P r)
    (hf : ∀ a, P (.ok a) → Serves allowed w v (f a)) : Serves allowed w v (p >>= f : Command Unit) := by
  refine .next (hp.weaken (fun _ hx => hx) (fun x hx => hx ▸ hv) fun _ _ hx => hx) ?_ ?_
  · rintro a v ⟨rfl, ha⟩
    exact hf a ha
  · rintro e v ⟨rfl, -⟩
    exact ⟨hv, hv, nofun⟩

/-- `?` on a value that is already there. -/
theorem Serves.checked {r : Except CliError α} {f : α → Command Unit} (hv : Reached allowed w v)
    (hf : ∀ a, r = .ok a → Serves allowed w v (f a)) :
    Serves allowed w v (Interaction.orThrow r >>= f : Command Unit) :=
  .look (P := fun result => result = r) hv (orThrow_ensures r rfl) fun a ha => hf a ha.symm

theorem orFail_ensures (r : Except String α) :
    Prog.Ensures environment (fun x => x = v) (orFail r) (fun x => x = v) fun result x =>
      x = v ∧ ∀ a, result = .ok a → r = .ok a := by
  refine (looked_ensures _).weaken (fun _ hx => hx) (fun _ hx => hx) ?_
  rintro result x ⟨hx, rfl⟩
  refine ⟨hx, fun a ha => ?_⟩
  cases r <;> cases ha
  rfl

/-- `?` on a message that is already there. -/
theorem Serves.passed {r : Except String α} {f : α → Command Unit} (hv : Reached allowed w v)
    (hf : ∀ a, r = .ok a → Serves allowed w v (f a)) : Serves allowed w v (orFail r >>= f : Command Unit) :=
  .look (P := fun result => ∀ a, result = .ok a → r = .ok a) hv (orFail_ensures r) fun a ha => hf a (ha a rfl)

/-- The last messages of a command. -/
theorem Serves.finish {p : Command Unit} (h : Done allowed w v) (hp : Prog.Only (fun q => ∃ m, q = .notice m) p) :
    Serves allowed w v p := by
  refine (Prog.Ensures.of_only (hp.imp ?_)).weaken (fun _ hx => hx) (fun x hx => hx ▸ h.reached) ?_
  · rintro _ ⟨m, rfl⟩ v r x he
    exact he
  · rintro r x rfl
    exact ⟨h.reached, fun _ => h⟩

/-- A command that connects first. -/
theorem Serves.connected {access : AccessArgs} {f : Session → Command Unit}
    (hf : ∀ session v, Connecting access.remember w v → Serves allowed w v (f session)) :
    Serves allowed w w (connect crates access.password access.remember >>= f : Command Unit) := by
  refine .next (connect_ensures.weaken (fun _ hx => hx) (fun x hx => .of_connecting hx) fun _ _ hx => hx) ?_ ?_
  · rintro session v ⟨hv, -⟩
    exact hf session v hv
  · rintro e v ⟨hv, -⟩
    exact ⟨.of_connecting hv, .of_connecting hv, nofun⟩

/-- The one request that changes an account. -/
theorem Serves.perform {remember : Bool} (operation : Operation) {f : Unit → Command Unit}
    (hv : Connecting remember w v) (happlet : ∀ c r d, Target operation c r d → d.applet = c.applet)
    (hallowed : allowed (changeOf operation))
    (hfree : ∀ old new, operation = .rename old new → ∀ other ∈ w.card.accounts, other.name ≠ new)
    (hf : Prog.Only (fun q => ∃ m, q = .notice m) (f ())) :
    Serves allowed w v
      (session.run crates (fun access => OathCard.perform operation access) >>= f : Command Unit) := by
  have hdone : ∀ outcome x, Performed operation outcome v x → Done allowed w x := by
    rintro outcome x ⟨card, htarget, rfl⟩
    refine ⟨(Connecting.handled hv).1.effect happlet (.inr ⟨outcome, card, htarget, rfl⟩),
      changeOf operation, hallowed, ?_⟩
    rw [hv.card] at htarget
    exact htarget.changes hfree
  have hreached : ∀ x, Effect operation v x → Reached allowed w x := by
    rintro x (rfl | ⟨outcome, hx⟩)
    · exact .of_connecting hv
    · exact (hdone outcome x hx).reached
  refine .next ((session_wrapped_ensures finished).weaken (fun _ hx => hx) hreached fun _ _ hx => hx) ?_ ?_
  · rintro ⟨⟩ x ⟨-, hx⟩
    obtain ⟨outcome, -, hx⟩ := hx () rfl
    exact Serves.finish (hdone outcome x hx) hf
  · rintro e x ⟨hx, -⟩
    exact ⟨hreached x hx, hreached x hx, nofun⟩

end Serves

section Listing

variable {crates : Crates} {v : World} {session : Session} {card : Card} {entries : List Entry}

def Listing (card : Card) (entries : List Entry) : Prop :=
  ∃ stored : List Credential, (stored : Multiset Credential) = card.accounts ∧ entries = stored.map entryOf

theorem Listing.free {id : List Char} {new : Name} (h : Listing card entries)
    (hnone : ¬ ∃ other ∈ entries, other.name.bytes = utf8 id) (hnew : Name.fromBytes (utf8 id) = some new) :
    ∀ other ∈ card.accounts, other.name ≠ new := by
  obtain ⟨stored, haccounts, rfl⟩ := h
  rintro other hmem rfl
  rw [← haccounts, Multiset.mem_coe] at hmem
  exact hnone ⟨entryOf other, List.mem_map_of_mem hmem, Name.bytes_of_fromBytes hnew⟩

theorem listEntries_ensures : Prog.Ensures environment (fun x => x = v) (listEntries crates session)
    (fun x => x = v) fun r x => x = v ∧ ∀ entries, r = .ok entries → Listing v.card entries := by
  have hquiet : ∀ x, Effect .list v x → x = v := by
    rintro x (rfl | ⟨outcome, card, htarget, rfl⟩)
    · rfl
    · obtain rfl := htarget.1
      rfl
  refine (session_wrapped_ensures listed).weaken (fun _ hx => hx) hquiet ?_
  rintro r x ⟨hx, hdone⟩
  refine ⟨hquiet x hx, fun entries hentries => ?_⟩
  obtain ⟨outcome, hlisted, card, ⟨-, stored, haccounts, rfl⟩, -⟩ := hdone entries hentries
  cases hlisted
  exact ⟨stored, haccounts, rfl⟩

end Listing

section Commands

variable {crates : Crates} {access : AccessArgs} {w : World}

/-- A line that was accepted is one of the input. -/
theorem promptLoop_ensures {α : Type} {accept : List Char → Except String α} {ended : String} {v : World}
    (lines : List (Except IoError (List Char))) :
    Prog.Ensures environment (fun x => x = v) (promptLoop accept ended lines) (fun x => x = v) fun r x =>
      x = v ∧ ∀ a, r = .ok a → ∃ line, .ok line ∈ lines ∧ accept (trim line) = .ok a := by
  induction lines with
  | nil => exact .pure fun x hx => ⟨hx, hx, nofun⟩
  | cons line lines ih =>
    cases line with
    | error e => exact .pure fun x hx => ⟨hx, hx, nofun⟩
    | ok line =>
      rw [promptLoop]
      cases haccept : accept (trim line) with
      | ok a =>
        refine .pure fun x hx => ⟨hx, hx, ?_⟩
        intro b hb
        cases hb
        exact ⟨line, List.mem_cons_self, haccept⟩
      | error message =>
        refine .next (notice_ensures _ rfl) ?_ ?_
        · rintro ⟨⟩ x ⟨rfl, -⟩
          refine ih.weaken (fun _ hx => hx) (fun _ hx => hx) ?_
          rintro r x ⟨hx, hline⟩
          refine ⟨hx, fun a ha => ?_⟩
          obtain ⟨line', hmem, hline'⟩ := hline a ha
          exact ⟨line', List.mem_cons_of_mem _ hmem, hline'⟩
        · rintro e v ⟨rfl, -⟩
          exact ⟨rfl, rfl, nofun⟩

def Adds (parameters : Parameters) (secret : Bytes) (touch : Bool) (change : Change Name Material) : Prop :=
  ∃ credential, parameters.credential secret touch = .ok credential ∧
    change = .insert credential.name (materialOf credential)

theorem addCredential_serves (parameters : Parameters) (secret : Bytes) (generated touch force : Bool) :
    Serves (Adds parameters secret touch) w w
      (addCredential crates access parameters secret generated touch force) := by
  refine .passed (.refl _ w) fun credential hcredential => ?_
  have hadds : Adds parameters secret touch (changeOf (.put credential)) := ⟨credential, hcredential, rfl⟩
  refine .connected fun session v hv => ?_
  have hput : Serves (Adds parameters secret touch) w v (session.run crates (fun access =>
      OathCard.add access credential) >>= fun _ => do
        notice (.line "Account added.")
        if generated then
          notice (.line ("Generated credential secret (base32): " ++
            String.ofList (Oath.base32Encode secret))) : Command Unit) := by
    refine .perform (.put credential) hv ?_ hadds nofun ?_
    · rintro c r d ⟨-, -, rfl⟩
      rfl
    · refine ⟨⟨_, rfl⟩, fun _ => ?_⟩
      cases generated with
      | true => exact ⟨⟨_, rfl⟩, fun _ => trivial⟩
      | false => trivial
  cases force with
  | true => exact hput
  | false =>
    refine .look (P := fun r => ∀ entries, r = .ok entries → Listing v.card entries) (.of_connecting hv)
      listEntries_ensures fun entries _ => ?_
    exact .passed (.of_connecting hv) fun _ _ => hput

def SecretSource (input : AddInput) (lines : List (Except IoError (List Char))) (secret : Bytes) : Prop :=
  match input.secret, input.generate with
  | some text, false => decodeSecret text = .ok secret
  | none, true => secret.length = 20
  | none, false => ∃ line, .ok line ∈ lines ∧ decodeSecret (trim line) = .ok secret
  | some _, true => False

theorem secretFor_ensures {v : World} (input : AddInput) (lines : List (Except IoError (List Char))) :
    Prog.Ensures environment (fun x => x = v) (secretFor input lines) (fun x => x = v) fun r x =>
      x = v ∧ ∀ found, r = .ok found → SecretSource input lines found.1 := by
  rw [secretFor]
  unfold SecretSource
  split
  · refine .next (orFail_ensures _) ?_ ?_
    · rintro secret v ⟨rfl, hsecret⟩
      refine .pure fun x hx => ⟨hx, hx, ?_⟩
      intro found hfound
      cases hfound
      exact hsecret secret rfl
    · rintro e v ⟨rfl, -⟩
      exact ⟨rfl, rfl, nofun⟩
  · refine .next (P := fun _ x => x = v) (.mapError (.request (fun _ hx => hx) ?_)) ?_ ?_
    · rintro _ r x rfl rfl
      exact ⟨rfl, rfl⟩
    · rintro secret v rfl
      refine .pure fun x hx => ⟨hx, hx, ?_⟩
      intro found hfound
      cases hfound
      exact secret.2
    · rintro e v rfl
      exact ⟨rfl, rfl, nofun⟩
  · refine .next (promptLoop_ensures lines) ?_ ?_
    · rintro secret v ⟨rfl, hline⟩
      refine .pure fun x hx => ⟨hx, hx, ?_⟩
      intro found hfound
      cases hfound
      exact hline secret rfl
    · rintro e v ⟨rfl, -⟩
      exact ⟨rfl, rfl, nofun⟩
  · exact .askNext rfl fun r => nomatch r

theorem accountsAdd_serves (input : AddInput) (lines : List (Except IoError (List Char))) (touch force : Bool) :
    Serves (fun change => ∃ secret, SecretSource input lines secret ∧ Adds input.parameters secret touch change)
      w w (accountsAdd crates access input lines touch force) := by
  refine .checked (.refl _ w) fun _ _ => .checked (.refl _ w) fun _ _ => ?_
  refine .look (.refl _ w) (P := fun r => ∀ found, r = .ok found → SecretSource input lines found.1)
    (secretFor_ensures input lines) fun found hsource => ?_
  exact (addCredential_serves input.parameters found.1 found.2 touch force).imp
    fun change hadds => ⟨found.1, hsource found rfl, hadds⟩

def UriSource (uri : Option (List Char)) (lines : List (Except IoError (List Char))) (text : List Char) : Prop :=
  uri = some text ∨ uri = none ∧ ∃ line, .ok line ∈ lines ∧ text = trim line

theorem accountsUri_serves (uri : Option (List Char)) (lines : List (Except IoError (List Char)))
    (touch force : Bool) :
    Serves (fun change => ∃ text credential, UriSource uri lines text ∧
        Oath.accountsUri text touch true (.ok []) = .ok credential ∧
        change = .insert credential.name (materialOf credential))
      w w (accountsUri crates access uri lines touch force) := by
  refine .look (.refl _ w) (P := fun r => ∀ parsed, r = .ok parsed → ∃ text, UriSource uri lines text ∧
    parseUri text = .ok parsed) ?_ fun parsed hparsed => ?_
  · cases uri with
    | some text =>
      refine (orFail_ensures _).weaken (fun _ hx => hx) (fun _ hx => hx) ?_
      rintro r x ⟨hx, hparsed⟩
      exact ⟨hx, fun parsed h => ⟨text, .inl rfl, hparsed parsed h⟩⟩
    | none =>
      refine (promptLoop_ensures lines).weaken (fun _ hx => hx) (fun _ hx => hx) ?_
      rintro r x ⟨hx, hline⟩
      refine ⟨hx, fun parsed h => ?_⟩
      obtain ⟨line, hmem, haccept⟩ := hline parsed h
      exact ⟨trim line, .inr ⟨rfl, line, hmem, rfl⟩, haccept⟩
  · obtain ⟨text, hsource, htext⟩ := hparsed parsed rfl
    refine .passed (.refl _ w) fun parameters hparameters => ?_
    refine (addCredential_serves parameters parsed.secret false touch force).imp ?_
    rintro change ⟨credential, hcredential, rfl⟩
    refine ⟨text, credential, hsource, ?_, rfl⟩
    rw [uriParameters, Except.bind_eq_ok_iff] at hparameters
    obtain ⟨counter, hcounter, hrest⟩ := hparameters
    cases hrest
    rw [parseUri] at htext
    rw [Oath.accountsUri, htext, Except.ok_bind, hcounter, Except.ok_bind]
    exact hcredential

theorem printRows_only (rows : List (List Char)) :
    Prog.Only (fun q => ∃ m, q = Request.notice m) (printRows rows) := by
  induction rows with
  | nil => trivial
  | cons row rows ih => exact ⟨⟨_, rfl⟩, fun _ => ih⟩

theorem accountsList_serves (showHidden showType showPeriod : Bool) :
    Serves (fun change => change = .stay) w w
      (accountsList crates access showHidden showType showPeriod) := by
  refine .connected fun session v hv => ?_
  refine .look (P := fun r => ∀ entries, r = .ok entries → Listing v.card entries) (.of_connecting hv)
    listEntries_ensures fun entries _ => ?_
  have hkept := Connecting.handled hv
  exact .finish ⟨hkept.1, .stay, rfl, hkept.2 ▸ .stay _⟩ (printRows_only _)

/-- The query matches one account, whatever is hidden. -/
def Matches (crates : Crates) (query : List Char) (card : Card) (entries : List Entry) (entry : Entry) : Prop :=
  Listing card entries ∧ Oath.search crates.lowercase entries query true = [entry]

theorem onlyMatch_eq_ok {query : List Char} {entries : List Entry} {entry : Entry}
    (h : onlyMatch crates query entries = .ok entry) :
    Oath.search crates.lowercase entries query true = [entry] := by
  rw [onlyMatch] at h
  split at h
  · cases h
  · rename_i hsearch
    cases h
    exact hsearch
  · cases h

/-- A command on the only account that matches a query. -/
theorem Serves.matched {allowed : Change Name Material → Prop} {query : List Char}
    {f : List Entry → Entry → Session → Command Unit}
    (hf : ∀ session v entries entry, Connecting access.remember w v → Matches crates query w.card entries entry →
      Serves allowed w v (f entries entry session)) :
    Serves allowed w w (do
      let session ← connect crates access.password access.remember
      let entries ← listEntries crates session
      let entry ← orThrow (onlyMatch crates query entries)
      f entries entry session) := by
  refine .connected fun session v hv => ?_
  refine .look (P := fun r => ∀ entries, r = .ok entries → Listing v.card entries) (.of_connecting hv)
    listEntries_ensures fun entries hentries => ?_
  refine .checked (.of_connecting hv) fun entry hentry => ?_
  exact hf session v entries entry hv ⟨hv.card ▸ hentries entries rfl, onlyMatch_eq_ok hentry⟩

theorem Serves.approved {allowed : Change Name Material → Prop} {v : World} {force : Bool} {question aborted : String}
    {f : Unit → Command Unit} (hv : Reached allowed w v) (hf : Serves allowed w v (f ())) :
    Serves allowed w v (OathAccess.approve force question aborted >>= f : Command Unit) :=
  .look (P := fun _ => True) hv ((approve_looks force question aborted).weaken (fun _ hx => hx)
    (fun _ hx => hx) fun _ _ hx => ⟨hx, trivial⟩) fun _ _ => hf

theorem accountsDelete_serves (query : List Char) (force : Bool) :
    Serves (fun change => ∃ entries entry, Matches crates query w.card entries entry ∧ change = .erase entry.name)
      w w (accountsDelete crates access query force) := by
  refine .matched fun session v entries entry hv hmatches => ?_
  refine .approved (.of_connecting hv) ?_
  refine .perform (.delete entry.name) hv ?_ ⟨entries, entry, hmatches, rfl⟩ nofun
    ⟨⟨_, rfl⟩, fun _ => trivial⟩
  rintro c r d ⟨-, credential, rest, -, -, rfl⟩
  rfl

theorem accountsSetDefault_serves (query : List Char) (slot : Touch) (enter : Bool) :
    Serves (fun change => change = .stay) w w (accountsSetDefault crates access query slot enter) := by
  refine .matched fun session v entries entry hv hmatches => ?_
  refine .checked (.of_connecting hv) fun _ _ => ?_
  refine .perform (.setDefault slot enter entry.name) hv ?_ rfl nofun ⟨⟨_, rfl⟩, fun _ => trivial⟩
  rintro c r d ⟨rfl, -⟩
  rfl

/-- The change of a renamed account. Its new name keeps the period, and no other
account has it. -/
def Renames (crates : Crates) (query name : List Char) (card : Card) (change : Change Name Material) : Prop :=
  ∃ entries entry kind new, Matches crates query card entries entry ∧ kindOf entry = some kind ∧
    Name.fromBytes (utf8 (renamedId entry kind name)) = some new ∧
    (∀ other ∈ card.accounts, other.name ≠ new) ∧ change = .move entry.name new

theorem accountsRename_serves (query name : List Char) (force : Bool) :
    Serves (Renames crates query name w.card) w w (accountsRename crates access query name force) := by
  refine .matched fun session v entries entry hv hmatches => ?_
  refine .checked (.of_connecting hv) fun kind hkind => .checked (.of_connecting hv) fun _ hnone => ?_
  refine .approved (.of_connecting hv) (.checked (.of_connecting hv) fun new hnew => ?_)
  rw [okOr_eq_ok_iff] at hkind hnew
  have hfree := hmatches.1.free (refuse_eq_ok_iff.mp hnone) hnew
  refine .perform (.rename entry.name new) hv ?_ ⟨entries, entry, kind, new, hmatches, hkind, hnew, hfree, rfl⟩
    ?_ ⟨⟨_, rfl⟩, fun _ => trivial⟩
  · rintro c r d ⟨-, credential, rest, -, -, rfl⟩
    rfl
  · rintro old' new' heq
    cases heq
    exact hfree

/-- A calculation may advance a counter, and leaves the store alone. -/
theorem Done.calculated {v : World} {operation : Operation} {x : World} {allowed : Change Name Material → Prop}
    (h : Done allowed w v) (hstay : changeOf operation = .stay)
    (happlet : ∀ c r d, Target operation c r d → d.applet = c.applet) (hx : Effect operation v x) :
    Done allowed w x := by
  refine ⟨h.1.effect happlet hx, ?_⟩
  obtain ⟨change, hallowed, hchange⟩ := h.2
  rcases hx with rfl | ⟨outcome, card, htarget, rfl⟩
  · exact ⟨change, hallowed, hchange⟩
  · refine ⟨change, hallowed, hchange.stays ?_⟩
    have hstays := htarget.changes (by rintro old new rfl; cases hstay)
    rwa [hstay] at hstays

theorem codeHandler_ensures {allowed : Change Name Material → Prop} (session : Session)
    (q : AccountCodes.Request) :
    Prog.Ensures environment (Done allowed w) (codeHandler session q) (Done allowed w) fun _ => Done allowed w := by
  have hlook : ∀ {q' : Request}, (∀ v r x, environment q' v r x → x = v) →
      Prog.Ensures environment (Done allowed w) (Prog.request q') (Done allowed w) fun _ => Done allowed w :=
    fun hq => .request (fun _ hv => hv) fun v r x hv he => by
      obtain rfl := hq v r x he
      exact ⟨hv, hv⟩
  cases q with
  | now => exact hlook fun _ _ _ he => he
  | notice text => exact hlook fun _ _ _ he => he
  | write line => exact hlook fun _ _ _ he => he
  | flush => exact hlook fun _ _ _ he => he
  | list =>
    refine .each fun v hv => ⟨fun x => x = v, rfl, runTyped_ensures hv (fun _ => hv) fun access => ?_⟩
    have heffect := fun x (hx : Effect .list v x) => hv.calculated rfl
      (by rintro c r d ⟨rfl, -⟩; rfl) hx
    exact (wrapped_ensures listed access).weaken (fun _ hx => hx) heffect fun _ x hx => heffect x hx.1
  | calculate credential challenge format =>
    refine .each fun v hv => ⟨fun x => x = v, rfl, ?_⟩
    change Prog.Ensures environment _ (session.runTyped fun access => calculate access credential challenge format)
      (Done allowed w) fun _ => Done allowed w
    refine runTyped_ensures hv (fun _ => hv) fun access => ?_
    have heffect := fun x (hx : Effect (.calculate credential challenge format) v x) => hv.calculated rfl
      (by rintro c r d ⟨stored, rest, counter, -, -, rfl⟩; rfl) hx
    exact (wrapped_ensures calculated access).weaken (fun _ hx => hx) heffect fun _ x hx => heffect x hx.1

theorem accountsCode_serves (query : List Char) (single showHidden : Bool) :
    Serves (fun change => change = .stay) w w (accountsCode crates access query single showHidden) := by
  refine .connected fun session v hv => ?_
  have hstay : Done (fun change => change = .stay) w v :=
    ⟨(Connecting.handled hv).1, .stay, rfl, (Connecting.handled hv).2 ▸ .stay _⟩
  refine .next (P := fun _ => Done (fun change => change = .stay) w) ?_ ?_ ?_
  · refine .bind (P := fun _ => Done (fun change => change = .stay) w) ?_ fun r => .pure fun x hx => ⟨hx.reached, hx⟩
    exact (Prog.Ensures.interpret (codeHandler_ensures session) _).weaken (fun x hx => hx ▸ hstay)
      (fun _ hx => hx.reached) fun _ _ hx => hx
  · intro result x hx
    rcases result with (message | - | error) | u
    · exact .pure fun y hy => ⟨hy ▸ hx.reached, hy ▸ hx.reached, nofun⟩
    · exact .askNext hx.reached fun r => nomatch r
    · exact .pure fun y hy => ⟨hy ▸ hx.reached, hy ▸ hx.reached, nofun⟩
    · exact .pure fun y hy => ⟨hy ▸ hx.reached, hy ▸ hx.reached, fun _ => hy ▸ hx⟩
  · intro e x hx
    exact ⟨hx.reached, hx.reached, nofun⟩

end Commands

end OathAccounts
