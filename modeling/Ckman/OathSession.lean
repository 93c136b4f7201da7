import Ckman.OathReference

/-!
# The OATH session

`OathSession::connect` resolves the access key of a protected applet: from an
explicit password, from the key that the keyring remembers, or from a prompt.
The result is compared with the code that the card has, over every run and every
failure on the way.
-/
namespace OathSession

open Host Interaction OathCard
open Drive (DriveError describeDriveError)
open CommandLine (CliError)

/-- The functions of other crates that the commands call. -/
structure Crates where
  /-- How libcanokey displays an error. -/
  display : Piv.Error → String
  /-- How `getrandom` displays an error. -/
  displayRandom : RandomError → String
  /-- `derive_key_bytes`: PBKDF2-HMAC-SHA1 over the password, salted with the handle. -/
  deriveKey : Bytes → Eight → Key
  /-- `Pin::from_bytes`, whose result is the bytes of the PIN. -/
  pin : Bytes → Except Piv.Error Bytes
  /-- `str::to_lowercase`. -/
  lowercase : List Char → List Char

/-- `describe_oath`. -/
def describeOath (crates : Crates) : OathError → String
  | .random error => "failed to generate authentication randomness: " ++ crates.displayRandom error
  | .drive (.protocol error) =>
    match error.kind with
    | .authenticationFailed => "authentication to the CanoKey failed; wrong password?"
    | .deviceAuthenticationFailed => "the CanoKey failed mutual authentication; refusing to continue"
    | .notFound => "no such account"
    | .conditionsNotSatisfied =>
      if error.phase = .authentication ∧ error.statusWord = none then
        "an OATH access key was supplied, but the applet has no password set"
      else "the OATH command's execution conditions were not satisfied"
    | _ => describeDriveError crates.display (.protocol error)
  | .drive error => describeDriveError crates.display error

def isWrongPassword : OathError → Bool
  | .drive error => refusesAccess error
  | .random _ => false

/-- `wrong_password`. -/
def wrongPassword (crates : Crates) (error : OathError) : CliError :=
  if isWrongPassword error then .text "authentication to the CanoKey failed; wrong password?"
  else .text (describeOath crates error)

variable {α : Type}

def ask (q : Request) : Command (Answer q) := (Prog.ask q fun r => .pure (.ok r) : Prog Answer _)

def notice (message : Notice) : Command Unit := ask (.notice message)

def promptPassword (prompt : String) : Command String :=
  mapError (.cannotPrompt prompt) (attempt (Prog.request (Request.prompt prompt)))

def confirm (prompt : String) : Command Bool :=
  mapError .io (attempt (Prog.request (Request.confirm prompt)))

/-- `single_target`, as far as a command needs it: the serial of the target. -/
def target : Command (Option UInt32) := attempt (Prog.request Request.target)

def described (crates : Crates) (operation : Wrapped α) : Command α :=
  mapError (fun error => .text (describeOath crates error)) operation

/-- `recall_remembered_key` on the stored text. -/
def rememberedKey (stored : String) : Option Key := do
  let bytes ← hexDecode (String.ofList (Text.trim stored.toList))
  if h : bytes.length = 16 then some ⟨bytes, h⟩ else none

/-- `keyring_entry`. The entry is known by the serial number. -/
def keyringEntry (serial : Option UInt32) : Command (Option UInt32) :=
  match serial with
  | none => pure none
  | some serial => do
    match ← ask (.entry serial) with
    | .ok () => pure (some serial)
    | .error error => do
      notice (.keyringUnavailable error)
      pure none

/-- `remember_key`: store the derived key, never the password. -/
def rememberKey (serial : Option UInt32) (key : Key) : Command Unit := do
  match ← keyringEntry serial with
  | none => notice .noSerial
  | some entry =>
    match ← ask (.setPassword entry (hexEncode key.val)) with
    | .ok () => notice .remembered
    | .error error => notice (.notStored error)

/-- `recall_key`. -/
def recallKey (serial : Option UInt32) : Command (Option Key) := do
  match ← keyringEntry serial with
  | none => pure none
  | some entry =>
    match ← ask (.getPassword entry) with
    | .ok stored => pure (rememberedKey stored)
    | .error _ => pure none

/-- `forget_key`; returns whether one was stored. -/
def forgetKey (serial : Option UInt32) : Command Bool := do
  match ← keyringEntry serial with
  | none => pure false
  | some entry =>
    match ← ask (.deleteCredential entry) with
    | .ok () => pure true
    | .error _ => pure false

/-- A connected OATH applet with its resolved access key, when protected. -/
structure Session where
  serial : Option UInt32
  handle : Option Eight
  key : Option Key
  deriving DecidableEq

/-- `validate_key`. -/
def validateKey (key : Key) : Wrapped Unit := do
  let access ← accessFromKey key
  validate access

def unlockWith (crates : Crates) (serial : Option UInt32) (handle : Eight) (remember : Bool)
    (password : String) : Command Session := do
  let key := crates.deriveKey (asBytes password) handle
  mapError (wrongPassword crates) (validateKey key)
  if remember then rememberKey serial key
  pure ⟨serial, some handle, some key⟩

def unlock (crates : Crates) (serial : Option UInt32) (handle : Eight) (password : Option String)
    (remember : Bool) : Command Session := do
  match password with
  | some password => unlockWith crates serial handle remember password
  | none =>
    let prompted := do
      let password ← promptPassword "Enter the OATH password: "
      unlockWith crates serial handle remember password
    match ← recallKey serial with
    | none => prompted
    | some key =>
      match ← (Prog.bind (validateKey key) fun r => .pure (.ok r) : Command (Except OathError Unit)) with
      | .ok () => pure ⟨serial, some handle, some key⟩
      | .error error =>
        if isWrongPassword error then do
          -- The password was changed on another host.
          let _ ← forgetKey serial
          prompted
        else throw (.text (describeOath crates error))

/-- `(locked, handle)` of a selection. -/
def lockState : Selected → Bool × Option Eight
  | .modern selection => (selection.challenge.isSome, some selection.handle)
  | .legacy _ => (false, none)

/-- `OathSession::connect`. -/
def connect (crates : Crates) (password : Option String) (remember : Bool) : Command Session := do
  let serial ← target
  let selected ← described crates select
  let (locked, handle) := lockState selected
  if !locked then
    if password.isSome then throw (.text "password provided, but no password is set")
    else pure ⟨serial, handle, none⟩
  else
    match handle with
    | none => do
      let panic ← ask .panicked
      nomatch panic
    | some handle => unlock crates serial handle password remember

/-- `run_typed`: one operation with the resolved access, if any. -/
def Session.runTyped (session : Session) (operation : Option Access → Wrapped α) : Wrapped α := do
  match session.key with
  | some key => do
    let access ← accessFromKey key
    operation (some access)
  | none => operation none

/-- `OathSession::run`. -/
def Session.run (session : Session) (crates : Crates) (operation : Option Access → Wrapped α) :
    Command α :=
  described crates (session.runTyped operation)

section Parts

variable {crates : Crates} {w : World} {serial : Option UInt32} {key : Key}

/-- The key was stored for the target, or nothing happened. -/
def Stored (serial : Option UInt32) (key : Key) (w v : World) : Prop :=
  v = w ∨ ∃ s, serial = some s ∧
    v = { w with keyring := Function.update w.keyring s (some (hexEncode key.val)) }

/-- What was remembered for the target is gone, or nothing happened. -/
def Erased (serial : Option UInt32) (w v : World) : Prop :=
  v = w ∨ ∃ s, serial = some s ∧ v = { w with keyring := Function.update w.keyring s none }

theorem notice_ensures {always : World → Prop} (message : Notice) (h : always w) :
    Prog.Ensures environment (fun v => v = w) (notice message) always fun r v => v = w ∧ r = .ok () := by
  refine .ask (M := fun _ v => v = w) (fun v hv => hv ▸ h) ?_ ?_
  · rintro _ r v rfl rfl
    rfl
  · rintro ⟨⟩
    exact .pure fun v hv => ⟨hv ▸ h, hv, rfl⟩

theorem keyringEntry_ensures : Prog.Ensures environment (fun v => v = w) (keyringEntry serial)
    (fun v => v = w) fun r v => v = w ∧ ∃ entry, r = .ok entry ∧ ∀ s, entry = some s → serial = some s := by
  cases serial with
  | none => exact .pure fun v hv => ⟨hv, hv, none, rfl, fun _ h => by cases h⟩
  | some s =>
    refine .askNext rfl ?_
    rintro r _ rfl
    cases r with
    | ok u => exact .pure fun v hv => ⟨hv, hv, some s, rfl, fun s' hs => hs⟩
    | error e =>
      refine .askNext rfl ?_
      rintro - _ rfl
      exact .pure fun v hv => ⟨hv, hv, none, rfl, fun _ h => by cases h⟩

/-- What a program does that obtains the keyring entry first. -/
theorem withEntry_ensures {α : Type} {f : Option UInt32 → Command α} {always : World → Prop}
    {post : Except CliError α → World → Prop} (halways : always w)
    (hf : ∀ entry, (∀ s, entry = some s → serial = some s) →
      Prog.Ensures environment (fun v => v = w) (f entry) always post) :
    Prog.Ensures environment (fun v => v = w) (keyringEntry serial >>= f : Command α) always post := by
  refine .next (keyringEntry_ensures.weaken (fun _ hv => hv) (fun _ hv => hv ▸ halways) fun _ _ hv => hv) ?_ ?_
  · rintro entry _ ⟨rfl, entry', hentry, hserial⟩
    cases hentry
    exact hf entry hserial
  · rintro e v ⟨-, entry, h, -⟩
    cases h

theorem rememberKey_ensures : Prog.Ensures environment (fun v => v = w) (rememberKey serial key)
    (Stored serial key w) fun r v => Stored serial key w v ∧ r = .ok () := by
  refine withEntry_ensures (.inl rfl) ?_
  intro entry hserial
  cases entry with
  | none =>
    exact (notice_ensures _ (.inl rfl)).weaken (fun _ hv => hv) (fun _ hv => hv)
      fun r v hv => ⟨.inl hv.1, hv.2⟩
  | some s =>
    refine .askNext (.inl rfl) ?_
    intro r v hv
    have hstored : Stored serial key w v := by
      rcases hv with ⟨rfl, -⟩ | rfl
      · exact .inl rfl
      · exact .inr ⟨s, hserial s rfl, rfl⟩
    cases r <;> exact (notice_ensures _ hstored).weaken (fun _ hv => hv) (fun _ hv => hv)
      fun r x hx => ⟨hx.1 ▸ hstored, hx.2⟩

theorem forgetKey_ensures : Prog.Ensures environment (fun v => v = w) (forgetKey serial)
    (Erased serial w) fun r v => Erased serial w v ∧ ∃ found, r = .ok found := by
  refine withEntry_ensures (.inl rfl) ?_
  intro entry hserial
  cases entry with
  | none => exact .pure fun v hv => ⟨.inl hv, .inl hv, false, rfl⟩
  | some s =>
    refine .askNext (.inl rfl) ?_
    intro r v hv
    have herased : Erased serial w v := by
      rcases hv with ⟨rfl, -⟩ | rfl
      · exact .inl rfl
      · exact .inr ⟨s, hserial s rfl, rfl⟩
    cases r with
    | ok u => exact .pure fun x hx => ⟨hx ▸ herased, hx ▸ herased, true, rfl⟩
    | error e => exact .pure fun x hx => ⟨hx ▸ herased, hx ▸ herased, false, rfl⟩

/-- A key that is recalled is the one that the keyring holds for the target. -/
theorem recallKey_ensures : Prog.Ensures environment (fun v => v = w) (recallKey serial)
    (fun v => v = w) fun r v => v = w ∧ ∃ recalled, r = .ok recalled ∧ ∀ key, recalled = some key →
      ∃ s text, serial = some s ∧ w.keyring s = some text ∧ rememberedKey text = some key := by
  refine withEntry_ensures rfl ?_
  intro entry hserial
  cases entry with
  | none => exact .pure fun v hv => ⟨hv, hv, none, rfl, fun _ h => by cases h⟩
  | some s =>
    refine .askNext rfl ?_
    rintro r _ ⟨rfl, htext⟩
    cases r with
    | ok text =>
      exact .pure fun v hv => ⟨hv, hv, rememberedKey text, rfl,
        fun key hkey => ⟨s, text, hserial s rfl, htext text rfl, hkey⟩⟩
    | error e => exact .pure fun v hv => ⟨hv, hv, none, rfl, fun _ h => by cases h⟩

/-- A fresh challenge leaves the world alone. -/
theorem random_ensures (n : Nat) : Prog.Ensures environment (fun v => v = w) (random n)
    (fun v => v = w) fun r v => v = w ∧ ∀ e, r = .error e → ∃ error, e = .random error := by
  refine .mapError (.request (fun v hv => hv) ?_)
  rintro _ r v rfl rfl
  refine ⟨rfl, rfl, ?_⟩
  rintro e he
  cases r with
  | ok bytes => cases he
  | error error =>
    cases he
    exact ⟨error, rfl⟩

/-- An operation of the card, with what its answer tells. -/
theorem run_ensures {always : World → Prop} {post : Except OathError Outcome → World → Prop}
    {operation : Operation} {access : Option Access} (halways : always w)
    (h : ∀ r card, answers operation access w.card r card →
      always { w with card := card } ∧ post (r.mapError .drive) { w with card := card }) :
    Prog.Ensures environment (fun v => v = w) (OathCard.run operation access) always post := by
  refine .mapError (.request (fun _ hv => hv ▸ halways) ?_)
  rintro _ r v rfl ⟨card, hanswer, rfl⟩
  exact h r card hanswer

/-- A program that makes a fresh challenge first. -/
theorem accessFromKey_ensures {α : Type} {f : Access → Wrapped α} {always : World → Prop}
    {post : Except OathError α → World → Prop} (halways : always w)
    (hrandom : ∀ error, post (.error (.random error)) w)
    (hf : ∀ access : Access, access.key = key →
      Prog.Ensures environment (fun v => v = w) (f access) always post) :
    Prog.Ensures environment (fun v => v = w) (accessFromKey key >>= f : Wrapped α) always post := by
  have hmake : Prog.Ensures environment (fun v => v = w) (accessFromKey key) (fun v => v = w) fun r v =>
      v = w ∧ (∀ access, r = .ok access → access.key = key) ∧
        ∀ e, r = .error e → ∃ error, e = .random error := by
    refine .next (random_ensures 8) ?_ ?_
    · rintro challenge v ⟨rfl, -⟩
      refine .pure fun x hx => ⟨hx, hx, ?_, fun _ h => by cases h⟩
      intro access haccess
      cases haccess
      rfl
    · rintro e v ⟨rfl, he⟩
      refine ⟨rfl, rfl, (fun _ h => by cases h), ?_⟩
      intro e' he'
      cases he'
      exact he e rfl
  refine .next (hmake.weaken (fun _ hv => hv) (fun _ hv => hv ▸ halways) fun _ _ hv => hv) ?_ ?_
  · rintro access _ ⟨rfl, hkey, -⟩
    exact hf access (hkey access rfl)
  · rintro e _ ⟨rfl, -, he⟩
    obtain ⟨error, rfl⟩ := he e rfl
    exact ⟨halways, hrandom error⟩

/-- Validation compares the key with the code of the applet, and changes nothing. -/
theorem validateKey_ensures : Prog.Ensures environment (fun v => v = w) (validateKey key)
    (fun v => v = w) fun r v => v = w ∧ (r = .ok () → w.card.code = some key) ∧
      ∀ e, r = .error e → isWrongPassword e = true → w.card.code ≠ some key := by
  refine accessFromKey_ensures rfl (fun error => ⟨rfl, (fun h => by cases h), ?_⟩) ?_
  · intro e he hwrong
    cases he
    cases hwrong
  · rintro access rfl
    refine .next (P := fun r v => v = w ∧ (∀ outcome, r = .ok outcome → w.card.code = some access.key) ∧
      ∀ e, r = .error e → isWrongPassword e = true → w.card.code ≠ some access.key)
      (run_ensures rfl ?_) ?_ ?_
    · intro r card hanswer
      cases r with
      | ok outcome =>
        obtain ⟨hauthorized | hauthorized, rfl, rfl⟩ := hanswer
        · cases hauthorized
        · exact ⟨rfl, rfl, fun _ _ => hauthorized.symm, fun _ h => by cases h⟩
      | error e =>
        obtain ⟨hrefuses, hcard⟩ := hanswer
        have hsame : card = w.card := by
          rcases hcard with rfl | ⟨-, outcome, rfl, -⟩
          · rfl
          · rfl
        subst hsame
        refine ⟨rfl, rfl, (fun _ h => by cases h), ?_⟩
        intro e' he hwrong hcode
        cases he
        exact (hrefuses hwrong).1 (.inr hcode.symm)
    · rintro outcome _ ⟨rfl, hcode, -⟩
      refine .pure fun v hv => ⟨hv, hv, fun _ => hcode outcome rfl, ?_⟩
      intro e he hwrong
      cases outcome <;> cases he <;> cases hwrong
    · rintro e _ ⟨rfl, -, hwrong⟩
      refine ⟨rfl, rfl, (fun h => by cases h), ?_⟩
      intro e' he
      cases he
      exact hwrong e rfl

/-- The selection tells whether the applet is protected, and its handle. -/
theorem select_ensures : Prog.Ensures environment (fun v => v = w) select (fun v => v = w)
    fun r v => v = w ∧ ∀ found, r = .ok found →
      lockState found = (w.card.code.isSome, w.card.applet.handle) := by
  refine .next (P := fun r v => v = w ∧ ∀ outcome, r = .ok outcome → Target .select w.card outcome w.card)
    (run_ensures rfl ?_) ?_ ?_
  · intro r card hanswer
    cases r with
    | ok outcome =>
      obtain ⟨-, htarget⟩ := hanswer
      obtain rfl := htarget.1
      exact ⟨rfl, rfl, fun outcome' h => by cases h; exact htarget⟩
    | error e =>
      obtain ⟨-, rfl | ⟨-, outcome, rfl, -⟩⟩ := hanswer
      · exact ⟨rfl, rfl, fun _ h => by cases h⟩
      · exact ⟨rfl, rfl, fun _ h => by cases h⟩
  · rintro outcome w ⟨rfl, htarget⟩
    refine .pure fun v hv => ⟨hv, hv, ?_⟩
    intro found hfound
    obtain ⟨-, hmatch⟩ := htarget outcome rfl
    cases happlet : w.card.applet with
    | legacy =>
      rw [happlet] at hmatch
      obtain ⟨serial, rfl⟩ := hmatch
      cases hfound
      simp [lockState, Card.code, happlet, Applet.code, Applet.handle]
    | modern handle code =>
      rw [happlet] at hmatch
      obtain ⟨version, challenge, rfl, hlocked⟩ := hmatch
      cases hfound
      simp [lockState, Card.code, happlet, Applet.code, Applet.handle, hlocked]
  · rintro e _ ⟨rfl, -⟩
    exact ⟨rfl, rfl, fun _ h => by cases h⟩

end Parts

section Connect

variable {crates : Crates} {w : World} {serial : Option UInt32} {handle : Eight} {password : Option String}
  {remember : Bool}

/-- What connecting may have done by some point: the card is as it was, and for
the target alone a remembered key that is not the code was forgotten, or the
code was stored on request. -/
structure Connecting (remember : Bool) (w v : World) : Prop where
  card : v.card = w.card
  serial : v.serial = w.serial
  keyring : ∀ s, v.keyring s = w.keyring s ∨ w.serial = some s ∧
    ((v.keyring s = none ∧ ∃ text key, w.keyring s = some text ∧ rememberedKey text = some key ∧
        w.card.code ≠ some key) ∨
      remember = true ∧ ∃ key, w.card.code = some key ∧ v.keyring s = some (hexEncode key.val))

theorem Connecting.refl : Connecting remember w w := ⟨rfl, rfl, fun _ => .inl rfl⟩

theorem Connecting.store {v x : World} {key : Key} (h : Connecting remember w v) (hremember : remember = true)
    (hcode : w.card.code = some key) (hstored : Stored w.serial key v x) : Connecting remember w x := by
  rcases hstored with rfl | ⟨s, hs, rfl⟩
  · exact h
  · refine ⟨h.card, h.serial, fun t => ?_⟩
    by_cases ht : t = s
    · subst ht
      exact .inr ⟨hs, .inr ⟨hremember, key, hcode, Function.update_self ..⟩⟩
    · have hother := h.keyring t
      rwa [show ({ v with keyring := Function.update v.keyring s (some (hexEncode key.val)) } : World).keyring t =
        v.keyring t from Function.update_of_ne ht ..]

theorem Connecting.erase {x : World} {s : UInt32} {text : String} {key : Key} (hserial : w.serial = some s)
    (htext : w.keyring s = some text) (hkey : rememberedKey text = some key) (hstale : w.card.code ≠ some key)
    (herased : Erased w.serial w x) : Connecting remember w x := by
  rcases herased with rfl | ⟨s', hs, rfl⟩
  · exact .refl
  · obtain rfl : s = s' := Option.some.inj (hserial.symm.trans hs)
    refine ⟨rfl, rfl, fun t => ?_⟩
    by_cases ht : t = s
    · subst ht
      exact .inr ⟨hs, .inl ⟨Function.update_self .., text, key, htext, hkey, hstale⟩⟩
    · exact .inl (Function.update_of_ne ht ..)

/-- The session that fits the card: its key is the code of the applet. -/
def Fitting (w : World) (session : Session) : Prop :=
  session.serial = w.serial ∧ session.handle = w.card.applet.handle ∧ session.key = w.card.code

theorem unlockWith_ensures {v : World} {text : String} (h : Connecting remember w v)
    (hhandle : w.card.applet.handle = some handle) :
    Prog.Ensures environment (fun x => x = v) (unlockWith crates w.serial handle remember text)
      (Connecting remember w) fun r x => Connecting remember w x ∧ ∀ session, r = .ok session →
        Fitting w session := by
  rw [unlockWith]
  refine .next (P := fun r x => x = v ∧ (r = .ok () → w.card.code = some (crates.deriveKey (asBytes text) handle)))
    (.mapError ((validateKey_ensures (w := v)).weaken (fun _ hx => hx) (fun x hx => hx ▸ h) ?_)) ?_ ?_
  · rintro r x ⟨rfl, hcode, -⟩
    refine ⟨rfl, fun hr => ?_⟩
    cases r with
    | ok u => rw [← h.card, hcode rfl]
    | error e => cases hr
  · rintro ⟨⟩ v ⟨rfl, hcode⟩
    have hfit : Fitting w ⟨w.serial, some handle, some (crates.deriveKey (asBytes text) handle)⟩ :=
      ⟨rfl, hhandle.symm, (hcode rfl).symm⟩
    have hdone : ∀ x, Connecting remember w x → Prog.Ensures environment (fun y => y = x)
        (pure ⟨w.serial, some handle, some (crates.deriveKey (asBytes text) handle)⟩ : Command Session)
        (Connecting remember w) fun r y => Connecting remember w y ∧ ∀ session, r = .ok session →
          Fitting w session := by
      intro x hx
      refine .pure fun y hy => ⟨hy ▸ hx, hy ▸ hx, ?_⟩
      intro session hsession
      cases hsession
      exact hfit
    cases hremember : remember with
    | false =>
      rw [hremember] at hdone h
      exact hdone v h
    | true =>
      rw [hremember] at hdone h
      refine .next (rememberKey_ensures.weaken (fun _ hx => hx)
        (fun x hx => h.store rfl (hcode rfl) hx) fun _ _ hx => hx) ?_ ?_
      · rintro ⟨⟩ x ⟨hx, -⟩
        exact hdone x (h.store rfl (hcode rfl) hx)
      · rintro e x ⟨-, he⟩
        cases he
  · rintro e v ⟨rfl, -⟩
    exact ⟨h, h, fun _ h => by cases h⟩

theorem promptPassword_ensures {always : World → Prop} (prompt : String) (halways : always w) :
    Prog.Ensures environment (fun v => v = w) (promptPassword prompt) always fun _ v => v = w := by
  refine .mapError (.request (fun _ hv => hv ▸ halways) ?_)
  rintro _ r v rfl rfl
  exact ⟨halways, rfl⟩

theorem prompted_ensures {v : World} (h : Connecting remember w v)
    (hhandle : w.card.applet.handle = some handle) :
    Prog.Ensures environment (fun x => x = v)
      (promptPassword "Enter the OATH password: " >>= unlockWith crates w.serial handle remember : Command Session)
      (Connecting remember w) fun r x => Connecting remember w x ∧ ∀ session, r = .ok session →
        Fitting w session := by
  refine .next (promptPassword_ensures _ h) ?_ ?_
  · rintro text v rfl
    exact unlockWith_ensures h hhandle
  · rintro e v rfl
    exact ⟨h, h, fun _ h => by cases h⟩

theorem unlock_ensures (hhandle : w.card.applet.handle = some handle) :
    Prog.Ensures environment (fun v => v = w) (unlock crates w.serial handle password remember)
      (Connecting remember w) fun r v => Connecting remember w v ∧ ∀ session, r = .ok session →
        Fitting w session := by
  cases password with
  | some text => exact unlockWith_ensures .refl hhandle
  | none =>
    refine .next ((recallKey_ensures (w := w)).weaken (fun _ hv => hv) (fun v hv => hv ▸ .refl)
      fun _ _ hv => hv) ?_ ?_
    · rintro recalled w ⟨rfl, recalled', hrecalled, hkept⟩
      cases hrecalled
      cases recalled with
      | none => exact prompted_ensures .refl hhandle
      | some key =>
        obtain ⟨s, text, hserial, htext, hkey⟩ := hkept key rfl
        refine .next (P := fun r v => v = w ∧ ∃ checked, r = .ok checked ∧
            (checked = .ok () → w.card.code = some key) ∧
            ∀ e, checked = .error e → isWrongPassword e = true → w.card.code ≠ some key) ?_ ?_ ?_
        · refine .bind ((validateKey_ensures (w := w)).weaken (fun _ hv => hv) (fun v hv => hv ▸ .refl)
            fun _ _ hv => hv) fun checked => .pure ?_
          rintro w ⟨rfl, hok, hwrong⟩
          exact ⟨.refl, rfl, checked, rfl, hok, hwrong⟩
        · rintro checked w ⟨rfl, checked', hchecked, hok, hwrong⟩
          cases hchecked
          cases checked with
          | ok u =>
            refine .pure fun v hv => ⟨hv ▸ .refl, hv ▸ .refl, ?_⟩
            intro session hsession
            cases hsession
            exact ⟨rfl, hhandle.symm, (hok rfl).symm⟩
          | error e =>
            cases hforget : isWrongPassword e with
            | false =>
              simp only [hforget, Bool.false_eq_true, if_false]
              exact .pure fun v hv => ⟨hv ▸ .refl, hv ▸ .refl, fun _ h => by cases h⟩
            | true =>
              have herase : ∀ v, Erased w.serial w v → Connecting remember w v := fun v hv =>
                .erase hserial htext hkey (hwrong e rfl hforget) hv
              simp only [hforget, if_true]
              refine .next (forgetKey_ensures.weaken (fun _ hv => hv) herase fun _ _ hv => hv) ?_ ?_
              · rintro found v ⟨hv, -⟩
                exact prompted_ensures (herase v hv) hhandle
              · rintro e' v ⟨-, found, hfound⟩
                cases hfound
        · rintro e v ⟨-, checked, hchecked, -⟩
          cases hchecked
    · rintro e v ⟨-, recalled, hrecalled, -⟩
      cases hrecalled

theorem target_ensures : Prog.Ensures environment (fun v => v = w) target (fun v => v = w)
    fun r v => v = w ∧ ∀ serial, r = .ok serial → serial = w.serial := by
  refine .request (fun _ hv => hv) ?_
  rintro _ r v rfl ⟨rfl, hserial⟩
  exact ⟨rfl, rfl, hserial⟩

/-- A session that is connected fits the card; the way to it changes nothing
but the keyring, where only a stale key is forgotten and only the code of the
applet is stored. -/
theorem connect_ensures : Prog.Ensures environment (fun v => v = w) (connect crates password remember)
    (Connecting remember w) fun r v => Connecting remember w v ∧ ∀ session, r = .ok session →
      Fitting w session := by
  refine .next (target_ensures.weaken (fun _ hv => hv) (fun v hv => hv ▸ .refl) fun _ _ hv => hv) ?_ ?_
  · rintro serial w ⟨rfl, hserial⟩
    obtain rfl := hserial serial rfl
    refine .next (P := fun r v => v = w ∧ ∀ found, r = .ok found →
        lockState found = (w.card.code.isSome, w.card.applet.handle))
      (.mapError (select_ensures.weaken (fun _ hv => hv) (fun v hv => hv ▸ .refl) ?_)) ?_ ?_
    · rintro r v ⟨rfl, hstate⟩
      refine ⟨rfl, fun found hfound => hstate found ?_⟩
      cases r <;> cases hfound
      rfl
    · rintro found w ⟨rfl, hstate⟩
      rw [hstate found rfl]
      cases hcode : w.card.code with
      | none =>
        simp only [Option.isSome_none, Bool.not_false, if_true]
        split
        · exact .pure fun v hv => ⟨hv ▸ .refl, hv ▸ .refl, fun _ h => by cases h⟩
        · refine .pure fun v hv => ⟨hv ▸ .refl, hv ▸ .refl, ?_⟩
          intro session hsession
          cases hsession
          exact ⟨rfl, rfl, hcode.symm⟩
      | some code =>
        simp only [Option.isSome_some, Bool.not_true, Bool.false_eq_true, if_false]
        cases happlet : w.card.applet with
        | legacy => simp [Card.code, happlet, Applet.code] at hcode
        | modern handle code =>
          simp only [Applet.handle]
          exact unlock_ensures (by rw [happlet]; rfl)
    · rintro e v ⟨rfl, -⟩
      exact ⟨.refl, .refl, fun _ h => by cases h⟩
  · rintro e v ⟨rfl, -⟩
    exact ⟨.refl, .refl, fun _ h => by cases h⟩

end Connect

/-- `rpassword` is asked. -/
def isPrompt : Request → Bool
  | .prompt _ => true
  | _ => false

def isTry : Request → Bool
  | .card .validate _ => true
  | _ => false

def isRecall : Request → Bool
  | .getPassword _ => true
  | _ => false

def isBookkeeping : Request → Bool
  | .entry _ | .setPassword _ _ | .deleteCredential _ | .notice _ => true
  | _ => false

theorem isBookkeeping_other {q : Request} (h : isBookkeeping q = true) :
    isPrompt q = false ∧ isTry q = false ∧ isRecall q = false := by
  cases q <;> first | exact ⟨rfl, rfl, rfl⟩ | cases h

theorem isRecall_other {q : Request} (h : isRecall q = true) : isPrompt q = false ∧ isTry q = false := by
  cases q <;> first | exact ⟨rfl, rfl⟩ | cases h

section Counts

variable {crates : Crates} {serial : Option UInt32} {key : Key} {P : Request → Bool} {m n : Nat}

theorem keyringEntry_only : Prog.Only (fun q => isBookkeeping q = true) (keyringEntry serial) := by
  cases serial with
  | none => trivial
  | some s =>
    refine ⟨rfl, fun r => ?_⟩
    cases r with
    | ok u => trivial
    | error e => exact ⟨rfl, fun _ => trivial⟩

theorem rememberKey_only : Prog.Only (fun q => isBookkeeping q = true) (rememberKey serial key) := by
  refine Fallible.only_bind keyringEntry_only fun entry => ?_
  cases entry with
  | none => exact ⟨rfl, fun _ => trivial⟩
  | some s =>
    refine ⟨rfl, fun r => ?_⟩
    cases r <;> exact ⟨rfl, fun _ => trivial⟩

theorem forgetKey_only : Prog.Only (fun q => isBookkeeping q = true) (forgetKey serial) := by
  refine Fallible.only_bind keyringEntry_only fun entry => ?_
  cases entry with
  | none => trivial
  | some s =>
    refine ⟨rfl, fun r => ?_⟩
    cases r <;> trivial

theorem recallKey_only : Prog.Only (fun q => isBookkeeping q = true ∨ isRecall q = true) (recallKey serial) := by
  refine Fallible.only_bind (keyringEntry_only.imp fun q hq => .inl hq) fun entry => ?_
  cases entry with
  | none => trivial
  | some s =>
    refine ⟨.inr rfl, fun r => ?_⟩
    cases r <;> trivial

/-- The keyring functions ask nothing of another kind. -/
theorem atMost_of_bookkeeping {α : Type} {p : Command α} (hp : Prog.Only (fun q => isBookkeeping q = true) p)
    (hP : ∀ q, isBookkeeping q = true → P q = false) : Prog.AtMost P n p := .of_only (hp.imp hP)

theorem validateKey_atMost (hfill : P (.fill 8) = false)
    (hvalidate : ∀ access, Prog.AtMost P n (validate access)) : Prog.AtMost P n (validateKey key) := by
  have h : Prog.AtMost P (0 + n) (validateKey key) := by
    refine .andThen ?_ hvalidate
    exact .of_only (Fallible.only_bind (Fallible.only_mapError ⟨hfill, fun _ => trivial⟩) fun _ => trivial)
  rwa [Nat.zero_add] at h

theorem validate_tries (access : Access) : Prog.AtMost isTry 1 (validate access) :=
  .andThen (m := 1) (n := 0) (.mapError (.ask fun _ => .pure _)) fun _ => .pure _

theorem validate_atMost (hP : ∀ access, P (.card .validate access) = false) (access : Access) :
    Prog.AtMost P n (validate access) :=
  .of_only (Fallible.only_bind (Fallible.only_mapError ⟨hP _, fun _ => trivial⟩) fun _ => trivial)

theorem unlockWith_atMost {handle : Eight} {remember : Bool} {text : String} (hfill : P (.fill 8) = false)
    (hP : ∀ q, isBookkeeping q = true → P q = false)
    (hvalidate : ∀ access, Prog.AtMost P n (validate access)) :
    Prog.AtMost P n (unlockWith crates serial handle remember text) := by
  refine .andThen (n := 0) (.mapError (validateKey_atMost hfill hvalidate)) fun _ => ?_
  cases remember with
  | false => exact .pure _
  | true => exact .andThen (m := 0) (n := 0) (atMost_of_bookkeeping rememberKey_only hP) fun _ => .pure _

theorem prompted_atMost {handle : Eight} {remember : Bool} (hfill : P (.fill 8) = false)
    (hP : ∀ q, isBookkeeping q = true → P q = false)
    (hprompt : Prog.AtMost P m (promptPassword "Enter the OATH password: "))
    (hvalidate : ∀ access, Prog.AtMost P n (validate access)) :
    Prog.AtMost P (m + n) (promptPassword "Enter the OATH password: " >>=
      unlockWith crates serial handle remember : Command Session) :=
  .andThen hprompt fun _ => unlockWith_atMost hfill hP hvalidate

theorem unlock_atMost {handle : Eight} {remember : Bool} (hfill : P (.fill 8) = false)
    (hP : ∀ q, isBookkeeping q = true → P q = false) (hrecall : ∀ q, isRecall q = true → P q = false)
    (hprompt : Prog.AtMost P m (promptPassword "Enter the OATH password: "))
    (hvalidate : ∀ access, Prog.AtMost P n (validate access)) :
    Prog.AtMost P (n + (m + n)) (unlock crates serial handle none remember) := by
  have hless : ∀ {p : Command Session}, Prog.AtMost P (m + n) p → Prog.AtMost P (n + (m + n)) p :=
    fun hp tr o h => Nat.le_trans (hp tr o h) (Nat.le_add_left _ _)
  have h : Prog.AtMost P (0 + (n + (m + n))) (unlock crates serial handle none remember) := by
    refine .andThen (.of_only (recallKey_only.imp fun q hq => hq.elim (hP q) (hrecall q))) fun recalled => ?_
    cases recalled with
    | none => exact hless (prompted_atMost hfill hP hprompt hvalidate)
    | some key =>
      refine .andThen (.bind (n := 0) (validateKey_atMost hfill hvalidate) fun _ => .pure _) fun checked => ?_
      cases checked with
      | ok u => exact .pure _
      | error e =>
        cases hwrong : isWrongPassword e with
        | false =>
          simp only [hwrong, Bool.false_eq_true, if_false]
          exact .pure _
        | true =>
          simp only [hwrong, if_true]
          have hforget : Prog.AtMost P 0 (forgetKey serial) := atMost_of_bookkeeping forgetKey_only hP
          have hrest : Prog.AtMost P (0 + (m + n)) (forgetKey serial >>= fun _ =>
              promptPassword "Enter the OATH password: " >>= unlockWith crates serial handle remember :
              Command Session) :=
            hforget.andThen fun _ => prompted_atMost hfill hP hprompt hvalidate
          rwa [Nat.zero_add] at hrest
  rwa [Nat.zero_add] at h

/-- Whatever way of unlocking is taken, its bound is that of connecting. -/
theorem connect_atMost {password : Option String} {remember : Bool} (htarget : P .target = false)
    (hselect : P (.card .select none) = false) (hpanicked : P .panicked = false)
    (h : ∀ serial handle, Prog.AtMost P n (unlock crates serial handle password remember)) :
    Prog.AtMost P n (connect crates password remember) := by
  have hconnect : Prog.AtMost P (0 + (0 + n)) (connect crates password remember) := by
    refine .andThen (.of_only ⟨htarget, fun _ => trivial⟩) fun serial => ?_
    refine .andThen (.of_only (Fallible.only_mapError (Fallible.only_bind
      (Fallible.only_mapError ⟨hselect, fun _ => trivial⟩) fun _ => trivial))) fun found => ?_
    split
    split
    · split
      · exact .pure _
      · exact .pure _
    · split
      · exact .ask_other hpanicked fun r => nomatch r
      · exact h serial _
  rwa [Nat.zero_add, Nat.zero_add] at hconnect

end Counts

/-- Connecting to the OATH applet. The session has the access code of the
applet as its key, none when there is no code. Until then the card is left as it
is, and of the keyring only the entry of the target is touched: a remembered key
is forgotten only when it is not the code, and what is stored is the code, never
a password. At most one password is prompted for and at most two keys are tried.
A password that is given is the only one that is tried, and the remembered key
is not even read. -/
theorem connect_resolves (crates : Crates) (password : Option String) (remember : Bool) :
    (∀ w o u, Fallible.Runs environment (connect crates password remember) w o u →
      Connecting remember w u ∧ ∀ session, o = some (.ok session) → Fitting w session) ∧
    (∀ tr o, Fallible.Traces (connect crates password remember) tr o →
      (tr.countP fun event => isPrompt event.request) ≤ 1 ∧
      (tr.countP fun event => isTry event.request) ≤ 2 ∧
      (password.isSome = true → (tr.countP fun event => isPrompt event.request) = 0 ∧
        (tr.countP fun event => isTry event.request) ≤ 1 ∧
        (tr.countP fun event => isRecall event.request) = 0)) := by
  refine ⟨fun w o u h => ?_, fun tr o h => ⟨?_, ?_, fun hgiven => ⟨?_, ?_, ?_⟩⟩⟩
  · obtain ⟨hu, hpost⟩ := connect_ensures w o u rfl h
    exact ⟨hu, fun session ho => (hpost _ ho).2 session rfl⟩
  · refine connect_atMost (n := 1) rfl rfl rfl (fun serial handle => ?_) tr o h
    cases password with
    | some text =>
      exact unlockWith_atMost rfl (fun q hq => (isBookkeeping_other hq).1) (validate_atMost fun _ => rfl)
    | none =>
      exact unlock_atMost (m := 1) (n := 0) rfl (fun q hq => (isBookkeeping_other hq).1)
        (fun q hq => (isRecall_other hq).1) (.mapError (.ask fun _ => .pure _)) (validate_atMost fun _ => rfl)
  · refine connect_atMost (n := 2) rfl rfl rfl (fun serial handle => ?_) tr o h
    cases password with
    | some text =>
      exact unlockWith_atMost rfl (fun q hq => (isBookkeeping_other hq).2.1)
        fun access tr o h => Nat.le_succ_of_le (validate_tries access tr o h)
    | none =>
      exact unlock_atMost (m := 0) (n := 1) rfl (fun q hq => (isBookkeeping_other hq).2.1)
        (fun q hq => (isRecall_other hq).2) (.mapError (.ask_other rfl fun _ => .pure _)) validate_tries
  · obtain ⟨text, rfl⟩ := Option.isSome_iff_exists.mp hgiven
    exact Nat.le_zero.mp (connect_atMost (n := 0) rfl rfl rfl (fun serial handle =>
      unlockWith_atMost rfl (fun q hq => (isBookkeeping_other hq).1) (validate_atMost fun _ => rfl)) tr o h)
  · obtain ⟨text, rfl⟩ := Option.isSome_iff_exists.mp hgiven
    exact connect_atMost rfl rfl rfl (fun serial handle =>
      unlockWith_atMost rfl (fun q hq => (isBookkeeping_other hq).2.1) validate_tries) tr o h
  · obtain ⟨text, rfl⟩ := Option.isSome_iff_exists.mp hgiven
    exact Nat.le_zero.mp (connect_atMost (n := 0) rfl rfl rfl (fun serial handle =>
      unlockWith_atMost rfl (fun q hq => (isBookkeeping_other hq).2.2) (validate_atMost fun _ => rfl)) tr o h)

namespace Fixture

open OathReference

/-- PBKDF2 on the passwords of the reference card, and errors by their kinds. -/
def crates : Crates where
  display error := toString (repr error.kind)
  displayRandom _ := "no randomness"
  deriveKey := OathReference.deriveKey
  pin bytes := if 6 ≤ bytes.length ∧ bytes.length ≤ 64 then .ok bytes else .error (.new .invalidArgument)
  lowercase := List.map Char.toLower

end Fixture

open OathReference in
/-- The stale key is refused and forgotten, the user is asked, and the code of the
applet is remembered. -/
example : (play 20 (connect Fixture.crates none true) stale).1 = some (.ok ⟨some 7, some handle, some key⟩) ∧
    (play 20 (connect Fixture.crates none true) stale).2.keyring 7 = some (hexEncode key.val) := by
  decide

end OathSession
