import Ckman.OathSession

/-!
# The access code and the keyring

`oath access` changes, clears, remembers and forgets the access code, and
`oath reset` removes it with the accounts. What the keyring holds afterwards is
compared with the code that the applet has then.
-/
namespace OathAccess

open Host Interaction OathCard OathSession
open CommandLine (CliError)

def passwordOr (given : Option String) (prompt : String) : Command String :=
  match given with
  | some password => pure password
  | none => promptPassword prompt

/-- The new password, which is entered twice when it is not given. -/
def newPassword (given : Option String) : Command String :=
  match given with
  | some password => pure password
  | none => do
    let entered ← promptPassword "Enter the new OATH password: "
    let repeated ← promptPassword "Repeat the new OATH password: "
    orThrow (refuse (entered ≠ repeated) (.text "the passwords do not match"))
    pure entered

def clearCode (crates : Crates) (session : Session) : Command Unit := do
  session.run crates fun access => clearPassword access
  let _ ← forgetKey session.serial
  notice (.line "Password cleared from the CanoKey.")

/-- Install a key as access code; it is remembered on request, and otherwise
nothing is. -/
def installKey (crates : Crates) (session : Session) (key : Key) (remember : Bool) : Command Unit := do
  session.run crates fun access => setPassword access key
  if remember then rememberKey session.serial key
  else do
    let _ ← forgetKey session.serial
  notice (.line "Password updated.")

/-- `access_change`. -/
def accessChange (crates : Crates) (password : Option String) (clear : Bool) (new : Option String)
    (remember : Bool) : Command Unit := do
  orThrow (refuse (clear = true ∧ new.isSome = true)
    (.text "--clear cannot be combined with --new-password"))
  let session ← connect crates password false
  if clear then clearCode crates session
  else do
    let new ← newPassword new
    let handle ← orThrow (okOr session.handle
      (.text "this firmware does not support OATH password protection"))
    installKey crates session (crates.deriveKey (asBytes new) handle) remember

/-- `access_remember`. -/
def accessRemember (crates : Crates) (password : Option String) : Command Unit := do
  let serial ← target
  match ← described crates select with
  | .legacy _ => notice (.line "This CanoKey is not password protected.")
  | .modern selection =>
    if selection.challenge.isNone then notice (.line "This CanoKey is not password protected.")
    else do
      let password ← passwordOr password "Enter the OATH password: "
      let key := crates.deriveKey (asBytes password) selection.handle
      let challenge ← mapError .random (attempt (Prog.request (Request.fill 8)))
      mapError (wrongPassword crates) (validate ⟨key, challenge⟩)
      rememberKey serial key

/-- `access_forget`. -/
def accessForget : Command Unit := do
  let serial ← target
  let found ← forgetKey serial
  notice (.line (if found then "Password forgotten." else "No password stored for this CanoKey."))

/-- `prompt_admin_pin`. -/
def promptAdminPin (crates : Crates) : Command Bytes := do
  let entered ← promptPassword "Admin PIN: "
  orThrow ((crates.pin (asBytes entered)).mapError fun error => .text (crates.display error))

/-- The question of a command that `--force` skips. -/
def approve (force : Bool) (question aborted : String) : Command Unit := do
  if force then pure ()
  else do
    let approved ← confirm question
    orThrow (refuse (approved = false) (.text aborted))

def dropEntry (serial : Option UInt32) : Command Unit :=
  match serial with
  | none => pure ()
  | some serial => do
    match ← ask (.entry serial) with
    | .ok () => do
      let _ ← ask (.deleteCredential serial)
    | .error _ => pure ()

/-- `reset` of the OATH applet. -/
def reset (crates : Crates) (force : Bool) (adminPin : Option String) : Command Unit := do
  let serial ← target
  approve force "This will delete all stored OATH accounts and the OATH password. Proceed?"
    "OATH reset aborted"
  let pin ← orThrow (adminPin.mapM fun pin =>
    (crates.pin (asBytes pin)).mapError fun error => CliError.text (crates.display error))
  Drive.withAdminPinRetry crates.display (promptAdminPin crates) pin fun pin =>
    attempt (Prog.request (Request.resetApplet pin))
  dropEntry serial
  notice (.line "Reset complete. All OATH accounts have been deleted from the CanoKey.")

section Operations

variable {crates : Crates} {w : World} {session : Session} {operation : Operation} {α : Type}

/-- The card performed the operation, and nothing else changed. -/
def Performed (operation : Operation) (outcome : Outcome) (w v : World) : Prop :=
  ∃ card, Target operation w.card outcome card ∧ v = { w with card := card }

/-- The operation was performed or not. -/
def Effect (operation : Operation) (w v : World) : Prop :=
  v = w ∨ ∃ outcome, Performed operation outcome w v

/-- A wrapper returns only what the card has answered to a performed operation. -/
theorem wrapped_ensures (convert : Outcome → Except OathError α) (access : Option Access) :
    Prog.Ensures environment (fun v => v = w)
      (do orThrow (convert (← OathCard.run operation access)) : Wrapped α) (Effect operation w) fun r v =>
        Effect operation w v ∧ ∀ a, r = .ok a →
          ∃ outcome, convert outcome = .ok a ∧ Performed operation outcome w v := by
  refine .next (P := fun r v => Effect operation w v ∧ ∀ outcome, r = .ok outcome →
    Performed operation outcome w v) (run_ensures (.inl rfl) ?_) ?_ ?_
  · intro r card hanswer
    cases r with
    | ok outcome =>
      have hdone : Performed operation outcome w { w with card := card } := ⟨card, hanswer.2, rfl⟩
      refine ⟨.inr ⟨outcome, hdone⟩, .inr ⟨outcome, hdone⟩, ?_⟩
      intro outcome' h
      cases h
      exact hdone
    | error e =>
      have heffect : Effect operation w { w with card := card } := by
        rcases hanswer.2 with rfl | ⟨-, outcome, htarget⟩
        · exact .inl rfl
        · exact .inr ⟨outcome, card, htarget, rfl⟩
      exact ⟨heffect, heffect, nofun⟩
  · rintro outcome v ⟨heffect, hdone⟩
    exact .pure fun x hx => ⟨hx ▸ heffect, hx ▸ heffect, fun a ha => ⟨outcome, ha, hx ▸ hdone outcome rfl⟩⟩
  · rintro e v ⟨heffect, -⟩
    exact ⟨heffect, heffect, nofun⟩

/-- Whatever access the session has, its operation keeps what the operation
keeps with any access. -/
theorem runTyped_ensures {f : Option Access → Wrapped α} {always : World → Prop}
    {post : Except OathError α → World → Prop} (halways : always w)
    (hrandom : ∀ error, post (.error (.random error)) w)
    (hf : ∀ access, Prog.Ensures environment (fun v => v = w) (f access) always post) :
    Prog.Ensures environment (fun v => v = w) (session.runTyped f) always post := by
  rw [Session.runTyped]
  cases session.key with
  | none => exact hf none
  | some key => exact accessFromKey_ensures halways hrandom fun access _ => hf (some access)

theorem run_session_ensures {f : Option Access → Wrapped α} {always : World → Prop}
    {post : Except CliError α → World → Prop} (halways : always w)
    (hrandom : ∀ message, post (.error (.text message)) w)
    (hf : ∀ access, Prog.Ensures environment (fun v => v = w) (f access) always fun r v =>
      post (r.mapError fun error => .text (describeOath crates error)) v) :
    Prog.Ensures environment (fun v => v = w) (session.run crates f) always post :=
  .mapError (runTyped_ensures halways (fun _ => hrandom _) hf)

/-- An operation of a session returns only what was performed. -/
theorem session_wrapped_ensures (convert : Outcome → Except OathError α) :
    Prog.Ensures environment (fun v => v = w)
      (session.run crates fun access => do orThrow (convert (← OathCard.run operation access)))
      (Effect operation w) fun r v => Effect operation w v ∧ ∀ a, r = .ok a →
        ∃ outcome, convert outcome = .ok a ∧ Performed operation outcome w v := by
  refine run_session_ensures (.inl rfl) (fun _ => ⟨.inl rfl, nofun⟩) fun access => ?_
  refine (wrapped_ensures convert access).weaken (fun _ hv => hv) (fun _ hv => hv) ?_
  rintro r v ⟨heffect, hdone⟩
  refine ⟨heffect, fun a ha => hdone a ?_⟩
  cases r <;> cases ha
  rfl

end Operations

section Keyring

variable {crates : Crates} {w v : World} {session : Session}

/-- The accounts are as they were, and of the keyring at most the entry of the
target is gone. -/
structure Forgetting (w v : World) : Prop where
  serial : v.serial = w.serial
  accounts : v.card.accounts = w.card.accounts
  keyring : ∀ s, v.keyring s = w.keyring s ∨ w.serial = some s ∧ v.keyring s = none

/-- Of the keyring at most the entry of the target has changed: it is gone, or it
holds the code that the applet has. -/
structure Handled (w v : World) : Prop where
  serial : v.serial = w.serial
  keyring : ∀ s, v.keyring s = w.keyring s ∨ w.serial = some s ∧
    (v.keyring s = none ∨ ∃ key, v.card.code = some key ∧ v.keyring s = some (hexEncode key.val))

/-- An access command leaves the accounts alone. -/
def Kept (w v : World) : Prop := Handled w v ∧ v.card.accounts = w.card.accounts

theorem Forgetting.refl : Forgetting w w := ⟨rfl, rfl, fun _ => .inl rfl⟩

theorem Forgetting.kept (h : Forgetting w v) : Kept w v :=
  ⟨⟨h.serial, fun s => (h.keyring s).imp id (And.imp id .inl)⟩, h.accounts⟩

theorem Forgetting.of_connecting (h : Connecting false w v) : Forgetting w v := by
  refine ⟨h.serial, by rw [h.card], fun s => ?_⟩
  rcases h.keyring s with hs | ⟨hserial, ⟨hnone, -⟩ | ⟨hremember, -⟩⟩
  · exact .inl hs
  · exact .inr ⟨hserial, hnone⟩
  · cases hremember

theorem Connecting.handled {remember : Bool} (h : Connecting remember w v) : Kept w v := by
  refine ⟨⟨h.serial, fun s => (h.keyring s).imp id ?_⟩, by rw [h.card]⟩
  rintro ⟨hserial, ⟨hnone, -⟩ | ⟨-, key, hcode, hkey⟩⟩
  · exact ⟨hserial, .inl hnone⟩
  · exact ⟨hserial, .inr ⟨key, by rw [h.card, hcode], hkey⟩⟩

theorem Forgetting.erase {x : World} (h : Forgetting w v) (hv : Erased w.serial v x) : Forgetting w x := by
  rcases hv with rfl | ⟨s, hs, rfl⟩
  · exact h
  · refine ⟨h.serial, h.accounts, fun t => ?_⟩
    by_cases ht : t = s
    · subst ht
      exact .inr ⟨hs, Function.update_self ..⟩
    · refine (h.keyring t).imp (fun hsame => ?_) (And.imp id fun hnone => ?_)
      · exact (Function.update_of_ne ht ..).trans hsame
      · exact (Function.update_of_ne ht ..).trans hnone

/-- Storing the code of the applet. -/
theorem Forgetting.store {x : World} {key : Key} (h : Forgetting w v) (hcode : v.card.code = some key)
    (hv : Stored w.serial key v x) : Kept w x := by
  rcases hv with rfl | ⟨s, hs, rfl⟩
  · exact h.kept
  · refine ⟨⟨h.serial, fun t => ?_⟩, h.accounts⟩
    by_cases ht : t = s
    · subst ht
      exact .inr ⟨hs, .inr ⟨key, hcode, Function.update_self ..⟩⟩
    · refine (h.keyring t).imp (fun hsame => ?_) (And.imp id fun hnone => .inl ?_)
      · exact (Function.update_of_ne ht ..).trans hsame
      · exact (Function.update_of_ne ht ..).trans hnone

/-- An operation that leaves the accounts alone. -/
theorem Forgetting.effect {x : World} {operation : Operation} (h : Forgetting w v)
    (hkeeps : ∀ c r d, Target operation c r d → d.accounts = c.accounts) (hx : Effect operation v x) :
    Forgetting w x := by
  rcases hx with rfl | ⟨outcome, card, htarget, rfl⟩
  · exact h
  · exact ⟨h.serial, (hkeeps _ _ _ htarget).trans h.accounts, h.keyring⟩

/-- An operation that leaves the access code alone. -/
theorem Handled.effect {operation : Operation} {x : World} (h : Handled w v)
    (happlet : ∀ c r d, Target operation c r d → d.applet = c.applet) (hx : Effect operation v x) :
    Handled w x := by
  rcases hx with rfl | ⟨outcome, card, htarget, rfl⟩
  · exact h
  · refine ⟨h.serial, fun s => (h.keyring s).imp id (And.imp id (Or.imp id ?_))⟩
    rintro ⟨key, hcode, hkey⟩
    exact ⟨key, (congrArg Applet.code (happlet _ _ _ htarget)).trans hcode, hkey⟩

theorem setCode_accounts {key : Key} {challenge : Eight} {c d : Card} {r : Outcome}
    (h : Target (.setCode key challenge) c r d) : d.accounts = c.accounts ∧ d.code = some key := by
  obtain ⟨-, handle, -, rfl⟩ := h
  exact ⟨rfl, rfl⟩

theorem clearCode_accounts {c d : Card} {r : Outcome} (h : Target .clearCode c r d) :
    d.accounts = c.accounts ∧ d.code = none := by
  obtain ⟨-, handle, -, rfl⟩ := h
  exact ⟨rfl, rfl⟩

/-- Setting a password installs its key. -/
theorem setPassword_ensures {key : Key} (h : Forgetting w v) :
    Prog.Ensures environment (fun x => x = v)
      (session.run crates fun access => OathCard.setPassword access key) (Forgetting w) fun r x =>
        Forgetting w x ∧ (r = .ok () → x.card.code = some key) := by
  refine run_session_ensures h (fun _ => ⟨h, nofun⟩) fun access => ?_
  refine .next ((random_ensures 8).weaken (fun _ hx => hx) (fun x hx => hx ▸ h) fun _ _ hx => hx) ?_ ?_
  · rintro challenge v ⟨rfl, -⟩
    have hkeeps := fun c r d => fun htarget : Target (.setCode key challenge) c r d => (setCode_accounts htarget).1
    refine (wrapped_ensures finished access).weaken (fun _ hx => hx) (fun x hx => h.effect hkeeps hx) ?_
    rintro r x ⟨heffect, hdone⟩
    refine ⟨h.effect hkeeps heffect, fun hr => ?_⟩
    cases r with
    | error e => cases hr
    | ok u =>
      obtain ⟨outcome, -, card, htarget, rfl⟩ := hdone () rfl
      exact (setCode_accounts htarget).2
  · rintro e v ⟨rfl, -⟩
    exact ⟨h, h, nofun⟩

theorem clearPassword_ensures (h : Forgetting w v) :
    Prog.Ensures environment (fun x => x = v)
      (session.run crates fun access => clearPassword access) (Forgetting w) fun r x =>
        Forgetting w x ∧ (r = .ok () → x.card.code = none) := by
  have hkeeps := fun c r d => fun htarget : Target .clearCode c r d => (clearCode_accounts htarget).1
  refine (session_wrapped_ensures finished).weaken (fun _ hx => hx) (fun x hx => h.effect hkeeps hx) ?_
  rintro r x ⟨heffect, hdone⟩
  refine ⟨h.effect hkeeps heffect, ?_⟩
  rintro rfl
  obtain ⟨outcome, -, card, htarget, rfl⟩ := hdone () rfl
  exact (clearCode_accounts htarget).2

/-- The last message of a command. -/
theorem finish_ensures {always : World → Prop} (message : Notice) (h : always v) :
    Prog.Ensures environment (fun x => x = v) (notice message) always fun _ x => always x :=
  (notice_ensures message h).weaken (fun _ hx => hx) (fun _ hx => hx) fun _ _ hx => hx.1 ▸ h

theorem clearCode_ensures (h : Forgetting w v) (hserial : session.serial = w.serial) :
    Prog.Ensures environment (fun x => x = v) (clearCode crates session) (Kept w) fun _ => Kept w := by
  refine .next ((clearPassword_ensures h).weaken (fun _ hx => hx) (fun _ hx => hx.kept) fun _ _ hx => hx) ?_ ?_
  · rintro ⟨⟩ v ⟨h, -⟩
    rw [hserial]
    refine .next (forgetKey_ensures.weaken (fun _ hx => hx) (fun x hx => (h.erase hx).kept) fun _ _ hx => hx) ?_ ?_
    · rintro found x ⟨hx, -⟩
      exact finish_ensures _ (h.erase hx).kept
    · rintro e x ⟨hx, -⟩
      exact ⟨(h.erase hx).kept, (h.erase hx).kept⟩
  · rintro e v ⟨h, -⟩
    exact ⟨h.kept, h.kept⟩

theorem installKey_ensures {key : Key} {remember : Bool} (h : Forgetting w v)
    (hserial : session.serial = w.serial) :
    Prog.Ensures environment (fun x => x = v) (installKey crates session key remember) (Kept w) fun _ => Kept w := by
  refine .next ((setPassword_ensures h).weaken (fun _ hx => hx) (fun _ hx => hx.kept) fun _ _ hx => hx) ?_ ?_
  · rintro ⟨⟩ v ⟨h, hcode⟩
    rw [hserial]
    cases remember with
    | true =>
      refine .next (rememberKey_ensures.weaken (fun _ hx => hx) (fun x hx => h.store (hcode rfl) hx)
        fun _ _ hx => hx) ?_ ?_
      · rintro ⟨⟩ x ⟨hx, -⟩
        exact finish_ensures _ (h.store (hcode rfl) hx)
      · rintro e x ⟨hx, -⟩
        exact ⟨h.store (hcode rfl) hx, h.store (hcode rfl) hx⟩
    | false =>
      refine .next (forgetKey_ensures.weaken (fun _ hx => hx) (fun x hx => (h.erase hx).kept)
        fun _ _ hx => hx) ?_ ?_
      · rintro found x ⟨hx, -⟩
        exact finish_ensures _ (h.erase hx).kept
      · rintro e x ⟨hx, -⟩
        exact ⟨(h.erase hx).kept, (h.erase hx).kept⟩
  · rintro e v ⟨h, -⟩
    exact ⟨h.kept, h.kept⟩

theorem passwordOr_ensures {always : World → Prop} (given : Option String) (prompt : String) (h : always v) :
    Prog.Ensures environment (fun x => x = v) (passwordOr given prompt) always fun _ x => x = v := by
  cases given with
  | some password => exact .pure fun x hx => ⟨hx ▸ h, hx⟩
  | none => exact promptPassword_ensures prompt h

theorem newPassword_ensures {always : World → Prop} (given : Option String) (h : always v) :
    Prog.Ensures environment (fun x => x = v) (newPassword given) always fun _ x => x = v := by
  cases given with
  | some password => exact .pure fun x hx => ⟨hx ▸ h, hx⟩
  | none =>
    refine .next (promptPassword_ensures _ h) ?_ ?_
    · rintro entered v rfl
      refine .next (promptPassword_ensures _ h) ?_ ?_
      · rintro repeated v rfl
        rw [refuse]
        split
        · exact .pure fun x hx => ⟨hx ▸ h, hx⟩
        · exact .pure fun x hx => ⟨hx ▸ h, hx⟩
      · rintro e v rfl
        exact ⟨h, rfl⟩
    · rintro e v rfl
      exact ⟨h, rfl⟩

/-- `?` on a value that is already there. -/
theorem orThrow_ensures {α : Type} {always : World → Prop} (r : Except CliError α) (h : always v) :
    Prog.Ensures environment (fun x => x = v) (orThrow r : Command α) always
      fun result x => x = v ∧ result = r := .pure fun _ hx => ⟨hx ▸ h, hx, rfl⟩

/-- The same where only what is not changed counts. -/
theorem looked_ensures {α : Type} (r : Except CliError α) :
    Prog.Ensures environment (fun x => x = v) (orThrow r : Command α) (fun x => x = v)
      fun result x => x = v ∧ result = r := orThrow_ensures r rfl

theorem accessChange_ensures (password : Option String) (clear : Bool) (new : Option String) (remember : Bool) :
    Prog.Ensures environment (fun x => x = w) (accessChange crates password clear new remember) (Kept w)
      fun _ => Kept w := by
  refine .next (orThrow_ensures _ Forgetting.refl.kept) ?_ ?_
  · rintro ⟨⟩ w ⟨rfl, -⟩
    refine .next (connect_ensures.weaken (fun _ hx => hx) (fun x hx => (Forgetting.of_connecting hx).kept)
      fun _ _ hx => hx) ?_ ?_
    · rintro session v ⟨hconnect, hfit⟩
      have h := Forgetting.of_connecting hconnect
      have hserial : session.serial = w.serial := (hfit session rfl).1
      cases clear with
      | true => exact clearCode_ensures h hserial
      | false =>
        refine .next (newPassword_ensures new h.kept) ?_ ?_
        · rintro text v rfl
          refine .next (orThrow_ensures _ h.kept) ?_ ?_
          · rintro handle v ⟨rfl, -⟩
            exact installKey_ensures h hserial
          · rintro e v ⟨rfl, -⟩
            exact ⟨h.kept, h.kept⟩
        · rintro e v rfl
          exact ⟨h.kept, h.kept⟩
    · rintro e v ⟨hconnect, -⟩
      exact ⟨(Forgetting.of_connecting hconnect).kept, (Forgetting.of_connecting hconnect).kept⟩
  · rintro e v ⟨rfl, -⟩
    exact ⟨Forgetting.refl.kept, Forgetting.refl.kept⟩

/-- Validation, as `access_remember` makes it. -/
theorem validate_ensures {key : Key} {challenge : Eight} :
    Prog.Ensures environment (fun x => x = v) (validate ⟨key, challenge⟩) (fun x => x = v)
      fun r x => x = v ∧ (r = .ok () → v.card.code = some key) := by
  refine .next (P := fun r x => x = v ∧ ∀ outcome, r = .ok outcome → v.card.code = some key)
    (run_ensures rfl ?_) ?_ ?_
  · intro r card hanswer
    cases r with
    | ok outcome =>
      obtain ⟨hauthorized | hauthorized, rfl, -⟩ := hanswer
      · cases hauthorized
      · exact ⟨rfl, rfl, fun _ _ => hauthorized.symm⟩
    | error e =>
      obtain ⟨-, rfl | ⟨-, outcome, rfl, -⟩⟩ := hanswer
      · exact ⟨rfl, rfl, nofun⟩
      · exact ⟨rfl, rfl, nofun⟩
  · rintro outcome v ⟨rfl, hcode⟩
    exact .pure fun x hx => ⟨hx, hx, fun _ => hcode outcome rfl⟩
  · rintro e v ⟨rfl, -⟩
    exact ⟨rfl, rfl, nofun⟩

theorem accessRemember_ensures (password : Option String) :
    Prog.Ensures environment (fun x => x = w) (accessRemember crates password) (Kept w) fun _ => Kept w := by
  have hkept := (Forgetting.refl (w := w)).kept
  refine .next (target_ensures.weaken (fun _ hx => hx) (fun x hx => hx ▸ hkept) fun _ _ hx => hx) ?_ ?_
  · rintro serial w ⟨rfl, hserial⟩
    obtain rfl := hserial serial rfl
    refine .next (P := fun _ x => x = w) (.mapError (select_ensures.weaken (fun _ hx => hx)
      (fun x hx => hx ▸ hkept) fun _ _ hx => hx.1)) ?_ ?_
    · rintro found w rfl
      cases found with
      | legacy serial => exact finish_ensures _ hkept
      | modern selection =>
        cases hlocked : selection.challenge.isNone with
        | true =>
          simp only [hlocked, if_true]
          exact finish_ensures _ hkept
        | false =>
          simp only [hlocked, Bool.false_eq_true, if_false]
          refine .next (passwordOr_ensures password _ hkept) ?_ ?_
          · rintro text w rfl
            refine .next (P := fun _ x => x = w) (.mapError (.request (fun _ hx => hx ▸ hkept) ?_)) ?_ ?_
            · rintro _ r x rfl rfl
              exact ⟨hkept, rfl⟩
            · rintro challenge w rfl
              refine .next (P := fun r x => x = w ∧ (r = .ok () → w.card.code =
                some (crates.deriveKey (asBytes text) selection.handle))) (.mapError (validate_ensures.weaken
                (fun _ hx => hx) (fun x hx => hx ▸ hkept) ?_)) ?_ ?_
              · rintro r x ⟨rfl, hcode⟩
                refine ⟨rfl, fun hr => hcode ?_⟩
                cases r <;> cases hr
                rfl
              · rintro ⟨⟩ w ⟨rfl, hcode⟩
                exact rememberKey_ensures.weaken (fun _ hx => hx)
                  (fun x hx => Forgetting.refl.store (hcode rfl) hx)
                  fun _ x hx => Forgetting.refl.store (hcode rfl) hx.1
              · rintro e w ⟨rfl, -⟩
                exact ⟨hkept, hkept⟩
            · rintro e w rfl
              exact ⟨hkept, hkept⟩
          · rintro e w rfl
            exact ⟨hkept, hkept⟩
    · rintro e w rfl
      exact ⟨hkept, hkept⟩
  · rintro e w ⟨rfl, -⟩
    exact ⟨hkept, hkept⟩

theorem accessForget_ensures : Prog.Ensures environment (fun x => x = w) accessForget (Kept w) fun _ => Kept w := by
  have hkept := (Forgetting.refl (w := w)).kept
  refine .next (target_ensures.weaken (fun _ hx => hx) (fun x hx => hx ▸ hkept) fun _ _ hx => hx) ?_ ?_
  · rintro serial w ⟨rfl, hserial⟩
    obtain rfl := hserial serial rfl
    refine .next (forgetKey_ensures.weaken (fun _ hx => hx)
      (fun x hx => (Forgetting.refl.erase hx).kept) fun _ _ hx => hx) ?_ ?_
    · rintro found x ⟨hx, -⟩
      exact finish_ensures _ (Forgetting.refl.erase hx).kept
    · rintro e x ⟨hx, -⟩
      exact ⟨(Forgetting.refl.erase hx).kept, (Forgetting.refl.erase hx).kept⟩
  · rintro e w ⟨rfl, -⟩
    exact ⟨hkept, hkept⟩

def Emptied (w v : World) : Prop :=
  v = w ∨ ∃ applet : Applet, applet.code = none ∧ v = { w with card := ⟨applet, 0⟩ }

def Cleared (w v : World) : Prop :=
  Handled w v ∧ (v.card.accounts = w.card.accounts ∨ v.card.accounts = 0)

theorem Emptied.cleared (h : Emptied w v) : Cleared w v := by
  rcases h with rfl | ⟨applet, -, rfl⟩
  · exact ⟨⟨rfl, fun _ => .inl rfl⟩, .inl rfl⟩
  · exact ⟨⟨rfl, fun _ => .inl rfl⟩, .inr rfl⟩

theorem Emptied.erase {x : World} (h : Emptied w v) (hx : Erased w.serial v x) : Cleared w x := by
  rcases hx with rfl | ⟨s, hs, rfl⟩
  · exact h.cleared
  · have hcleared := h.cleared
    refine ⟨⟨hcleared.1.serial, fun t => ?_⟩, hcleared.2⟩
    by_cases ht : t = s
    · subst ht
      exact .inr ⟨hs, .inl (Function.update_self ..)⟩
    · rcases h with rfl | ⟨applet, -, rfl⟩
      · exact .inl (Function.update_of_ne ht ..)
      · exact .inl (Function.update_of_ne ht ..)

theorem confirm_ensures {always : World → Prop} (question : String) (halways : always v) :
    Prog.Ensures environment (fun x => x = v) (confirm question) always fun _ x => x = v := by
  refine .mapError (.request (fun _ hx => hx ▸ halways) ?_)
  rintro _ r x rfl rfl
  exact ⟨halways, rfl⟩

theorem approve_ensures {always : World → Prop} (force : Bool) (question aborted : String) (h : always v) :
    Prog.Ensures environment (fun x => x = v) (approve force question aborted) always fun _ x => x = v := by
  cases force with
  | true => exact .pure fun x hx => ⟨hx ▸ h, hx⟩
  | false =>
    refine .next (confirm_ensures question h) ?_ ?_
    · rintro approved v rfl
      exact (orThrow_ensures _ h).weaken (fun _ hx => hx) (fun _ hx => hx) fun _ _ hx => hx.1
    · rintro e v rfl
      exact ⟨h, rfl⟩

theorem approve_looks (force : Bool) (question aborted : String) :
    Prog.Ensures environment (fun x => x = v) (approve force question aborted) (fun x => x = v)
      fun _ x => x = v := approve_ensures force question aborted rfl

theorem promptAdminPin_ensures {always : World → Prop} (h : always v) :
    Prog.Ensures environment (fun x => x = v) (promptAdminPin crates) always fun _ x => x = v := by
  refine .next (promptPassword_ensures _ h) ?_ ?_
  · rintro entered v rfl
    exact (orThrow_ensures _ h).weaken (fun _ hx => hx) (fun _ hx => hx) fun _ _ hx => hx.1
  · rintro e v rfl
    exact ⟨h, rfl⟩

/-- One reset of the applet, whatever was done before. -/
theorem resetApplet_ensures (pin : Option Bytes) :
    Prog.Ensures environment (Emptied w) (attempt (Prog.request (Request.resetApplet pin))) (Emptied w)
      fun r x => Emptied w x ∧ (r = .ok () → x.card.code = none ∧ x.card.accounts = 0) := by
  refine .request (fun _ hx => hx) ?_
  rintro v r x hv (⟨rfl, hr⟩ | ⟨applet, hcode, rfl⟩)
  · exact ⟨hv, hv, fun h => absurd h hr⟩
  · have hx : Emptied w { v with card := ⟨applet, 0⟩ } := by
      rcases hv with rfl | ⟨applet', -, rfl⟩
      · exact .inr ⟨applet, hcode, rfl⟩
      · exact .inr ⟨applet, hcode, rfl⟩
    exact ⟨hx, hx, fun _ => ⟨hcode, rfl⟩⟩

theorem resetWithPin_ensures (pin : Option Bytes) :
    Prog.Ensures environment (fun x => x = w)
      (Drive.withAdminPinRetry crates.display (promptAdminPin crates) pin fun pin =>
        attempt (Prog.request (Request.resetApplet pin))) (Emptied w)
      fun r x => Emptied w x ∧ (r = .ok () → x.card.code = none ∧ x.card.accounts = 0) := by
  have hstart : ∀ x, x = w → Emptied w x := fun x hx => .inl hx
  cases pin with
  | some pin =>
    refine .mapError ((resetApplet_ensures (some pin)).weaken hstart (fun _ hx => hx) ?_)
    rintro r x ⟨hx, hdone⟩
    refine ⟨hx, fun hr => hdone ?_⟩
    cases r <;> cases hr
    rfl
  | none =>
    rw [Drive.withAdminPinRetry]
    refine retryWith_ensures (M := Emptied w) (P := fun _ => Emptied w) ?_ (.each fun v hv => ?_) fun pin => ?_
    · refine (resetApplet_ensures none).weaken hstart (fun _ hx => hx) ?_
      rintro r x ⟨hx, hdone⟩
      refine ⟨?_, ?_⟩
      · rintro ⟨⟩ rfl
        exact ⟨hx, fun _ => hdone rfl⟩
      · rintro e rfl
        split
        · exact hx
        · exact ⟨hx, nofun⟩
    · refine ⟨fun x => x = v, rfl, (promptAdminPin_ensures hv).weaken (fun _ hx => hx) (fun _ hx => hx) ?_⟩
      rintro r x rfl
      refine ⟨fun _ _ => hv, ?_⟩
      rintro d rfl
      exact ⟨hv, nofun⟩
    · refine (resetApplet_ensures (some pin)).weaken (fun _ hx => hx) (fun _ hx => hx) ?_
      rintro r x ⟨hx, hdone⟩
      refine ⟨hx, fun hr => hdone ?_⟩
      cases r <;> cases hr
      rfl

theorem dropEntry_ensures (serial : Option UInt32) :
    Prog.Ensures environment (fun x => x = v) (dropEntry serial) (Erased serial v)
      fun r x => Erased serial v x ∧ r = .ok () := by
  cases serial with
  | none => exact .pure fun x hx => ⟨.inl hx, .inl hx, rfl⟩
  | some s =>
    refine .askNext (.inl rfl) ?_
    rintro r v rfl
    cases r with
    | error e => exact .pure fun x hx => ⟨.inl hx, .inl hx, rfl⟩
    | ok u =>
      refine .askNext (.inl rfl) ?_
      intro r x hx
      have herased : Erased (some s) v x := by
        rcases hx with ⟨rfl, -⟩ | rfl
        · exact .inl rfl
        · exact .inr ⟨s, rfl, rfl⟩
      exact .pure fun y hy => ⟨hy ▸ herased, hy ▸ herased, rfl⟩

theorem reset_ensures (force : Bool) (adminPin : Option String) :
    Prog.Ensures environment (fun x => x = w) (reset crates force adminPin) (Cleared w) fun r x =>
      Cleared w x ∧ (r = .ok () → x.card.accounts = 0) := by
  have hcleared : Cleared w w := Emptied.cleared (.inl rfl)
  refine .next (target_ensures.weaken (fun _ hx => hx) (fun x hx => hx ▸ hcleared) fun _ _ hx => hx) ?_ ?_
  · rintro serial w ⟨rfl, hserial⟩
    obtain rfl := hserial serial rfl
    refine .next (approve_ensures force _ _ hcleared) ?_ ?_
    · rintro ⟨⟩ w rfl
      refine .next (orThrow_ensures _ hcleared) ?_ ?_
      · rintro pin w ⟨rfl, -⟩
        refine .next ((resetWithPin_ensures pin).weaken (fun _ hx => hx) (fun _ hx => hx.cleared)
          fun _ _ hx => hx) ?_ ?_
        · rintro ⟨⟩ v ⟨hv, hdone⟩
          obtain ⟨-, hempty⟩ := hdone rfl
          refine .next ((dropEntry_ensures w.serial).weaken (fun _ hx => hx) (fun _ hx => hv.erase hx)
            fun _ _ hx => hx) ?_ ?_
          · rintro ⟨⟩ x ⟨hx, -⟩
            have hsame : x.card.accounts = 0 := by
              rcases hx with rfl | ⟨s, -, rfl⟩
              · exact hempty
              · exact hempty
            refine (notice_ensures _ (hv.erase hx)).weaken (fun _ hy => hy) (fun _ hy => hy) ?_
            rintro r y ⟨rfl, -⟩
            exact ⟨hv.erase hx, fun _ => hsame⟩
          · rintro e x ⟨hx, -⟩
            exact ⟨hv.erase hx, hv.erase hx, nofun⟩
        · rintro e v ⟨hv, -⟩
          exact ⟨hv.cleared, hv.cleared, nofun⟩
      · rintro e w ⟨rfl, -⟩
        exact ⟨hcleared, hcleared, nofun⟩
    · rintro e w rfl
      exact ⟨hcleared, hcleared, nofun⟩
  · rintro e w ⟨rfl, -⟩
    exact ⟨hcleared, hcleared, nofun⟩

end Keyring

end OathAccess
