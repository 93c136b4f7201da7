import Ckman.OathCard

/-!
# A CanoKey with an OATH applet

A card, a keyring and a user that answer the requests of the commands as they are
documented to. The accounts are kept in a list, so that concrete runs can be
computed. Codes are not calculated here.
-/
namespace OathReference

open Host Interaction OathCard
open Oath (Credential)
open Drive (DriveError)

structure Station where
  serial : Option UInt32
  applet : Applet
  accounts : List Credential
  keyring : UInt32 → Option String
  /-- What the user enters. -/
  password : String
  /-- Whether the user agrees to what is asked. -/
  agrees : Bool

def Station.world (s : Station) : World := ⟨s.serial, ⟨s.applet, s.accounts⟩, s.keyring⟩

def cardChallenge : Eight := ⟨[0x9b, 0x1d, 0x05, 0xc2, 0x7e, 0x44, 0xa0, 0x36], rfl⟩

def perform (applet : Applet) (accounts : List Credential) :
    Operation → Option (Outcome × Applet × List Credential)
  | .select =>
    match applet with
    | .legacy => some (.legacySelection none, applet, accounts)
    | .modern handle code =>
      some (.selection ⟨(2, 0, 0), handle, code.map fun _ => cardChallenge⟩, applet, accounts)
  | .validate => some (.unit, applet, accounts)
  | .list => some (.entries (accounts.map entryOf), applet, accounts)
  | .put credential =>
    if ∃ other ∈ accounts, other.name = credential.name then none
    else some (.unit, applet, credential :: accounts)
  | .rename old new => do
    let credential ← accounts.find? (·.name = old)
    some (.unit, applet, { credential with name := new } :: accounts.erase credential)
  | .delete name => do
    let credential ← accounts.find? (·.name = name)
    some (.unit, applet, accounts.erase credential)
  | .calculate .. => none
  | .setDefault .. => some (.unit, applet, accounts)
  | .setCode key _ => applet.handle.map fun handle => (.unit, .modern handle (some key), accounts)
  | .clearCode => applet.handle.map fun handle => (.unit, .modern handle none, accounts)
  | .getSerial => some (.serial 0, applet, accounts)
  | .challengeResponseHmac .. => none

def notFound : DriveError := .protocol ((Piv.Error.new .notFound).at .command)

def denial (access : Option Access) (code : Option Key) : DriveError :=
  match access, code with
  | some _, some _ =>
    .protocol { (Piv.Error.new .authenticationFailed).at .authentication with reference := some .oathAccess }
  | some _, none => .protocol ((Piv.Error.new .conditionsNotSatisfied).at .authentication)
  | none, _ => .protocol ((Piv.Error.new .securityStatusNotSatisfied).at .command)

def answerCard (s : Station) (operation : Operation) (access : Option Access) :
    Except DriveError Outcome × Station :=
  if operation.isOpen = true ∨ access.map Access.key = s.applet.code then
    match perform s.applet s.accounts operation with
    | some (outcome, applet, accounts) => (.ok outcome, { s with applet, accounts })
    | none => (.error notFound, s)
  else (.error (denial access s.applet.code), s)

/-- The keyring works, random bytes are all alike, and nothing is unplugged. -/
def answer (s : Station) : (q : Request) → Option (Answer q × Station)
  | .target => some (.ok s.serial, s)
  | .card operation access => some (answerCard s operation access)
  | .resetApplet _ =>
    some (.ok (), { s with
      applet := (s.applet.handle.map fun handle => .modern handle none).getD .legacy
      accounts := [] })
  | .fill n => some (.ok ⟨List.replicate n 0xa5, List.length_replicate⟩, s)
  | .prompt _ => some (.ok s.password, s)
  | .confirm _ => some (.ok s.agrees, s)
  | .entry _ => some (.ok (), s)
  | .getPassword serial => some (okOr (s.keyring serial) .noEntry, s)
  | .setPassword serial text => some (.ok (), { s with keyring := Function.update s.keyring serial (some text) })
  | .deleteCredential serial =>
    some ((okOr (s.keyring serial) .noEntry).map fun _ => (),
      { s with keyring := Function.update s.keyring serial none })
  | .notice _ => some ((), s)
  | .now => some (some 1700000000, s)
  | .write _ => some (.ok (), s)
  | .flush => some (.ok (), s)
  | .panicked => none

section Documented

variable {s t : Station} {operation : Operation} {access : Option Access}

theorem perform_target {applet applet' : Applet} {accounts accounts' : List Credential} {outcome : Outcome}
    (h : perform applet accounts operation = some (outcome, applet', accounts')) :
    Target operation ⟨applet, accounts⟩ outcome ⟨applet', accounts'⟩ := by
  have herase : ∀ {p : Credential → Bool} {credential : Credential}, accounts.find? p = some credential →
      (accounts : Multiset Credential) = credential ::ₘ (accounts.erase credential : Multiset Credential) :=
    fun hfind => Multiset.coe_eq_coe.mpr (List.perm_cons_erase (List.mem_of_find?_eq_some hfind))
  cases operation with
  | select =>
    cases applet with
    | legacy =>
      cases h
      exact ⟨rfl, none, rfl⟩
    | modern handle code =>
      cases h
      exact ⟨rfl, _, _, rfl, Option.isSome_map⟩
  | validate | setDefault slot enter name =>
    cases h
    exact ⟨rfl, rfl⟩
  | list =>
    cases h
    exact ⟨rfl, accounts, rfl, rfl⟩
  | put credential =>
    rw [perform] at h
    split at h
    · cases h
    · rename_i hfree
      cases h
      exact ⟨rfl, fun other hother hname => hfree ⟨other, hother, hname⟩, rfl⟩
  | rename old new =>
    obtain ⟨credential, hfind, hdone⟩ := Option.bind_eq_some_iff.mp h
    cases hdone
    exact ⟨rfl, credential, _, herase hfind, by simpa using List.find?_some hfind, rfl⟩
  | delete name =>
    obtain ⟨credential, hfind, hdone⟩ := Option.bind_eq_some_iff.mp h
    cases hdone
    exact ⟨rfl, credential, _, herase hfind, by simpa using List.find?_some hfind, rfl⟩
  | calculate | challengeResponseHmac => cases h
  | setCode key challenge =>
    obtain ⟨handle, hhandle, hdone⟩ := Option.map_eq_some_iff.mp h
    cases hdone
    exact ⟨rfl, handle, hhandle, rfl⟩
  | clearCode =>
    obtain ⟨handle, hhandle, hdone⟩ := Option.map_eq_some_iff.mp h
    cases hdone
    exact ⟨rfl, handle, hhandle, rfl⟩
  | getSerial =>
    cases h
    rfl

theorem answerCard_answers {r : Except DriveError Outcome} (h : answerCard s operation access = (r, t)) :
    ∃ card, answers operation access s.world.card r card ∧ t.world = { s.world with card := card } := by
  rw [answerCard] at h
  split at h
  · rename_i hauthorized
    split at h
    · rename_i outcome applet accounts hperform
      cases h
      exact ⟨⟨applet, accounts⟩, ⟨hauthorized, perform_target hperform⟩, rfl⟩
    · cases h
      exact ⟨s.world.card, ⟨nofun, .inl rfl⟩, rfl⟩
  · rename_i hdenied
    cases h
    exact ⟨s.world.card, ⟨fun _ => ⟨hdenied, rfl⟩, .inl rfl⟩, rfl⟩

/-- The answers are documented ones. -/
theorem answer_environment {q : Request} {r : Answer q} (h : answer s q = some (r, t)) :
    environment q s.world r t.world := by
  cases q with
  | target =>
    cases h
    exact ⟨rfl, fun serial hserial => (Except.ok.inj hserial).symm⟩
  | card operation access => exact answerCard_answers (Option.some.inj h)
  | resetApplet pin =>
    cases h
    refine .inr ⟨_, ?_, rfl⟩
    cases s.applet <;> rfl
  | getPassword serial =>
    cases h
    refine ⟨rfl, fun text htext => ?_⟩
    cases hheld : s.keyring serial with
    | none =>
      rw [hheld] at htext
      cases htext
    | some found =>
      rw [hheld] at htext
      cases htext
      exact hheld
  | setPassword serial text | deleteCredential serial =>
    cases h
    exact .inr rfl
  | panicked => cases h
  | _ =>
    cases h
    rfl

end Documented

variable {α : Type}

def play (n : Nat) (program : Prog Answer α) (s : Station) : Option α × Station :=
  follow (fun (_ : Unit) q s => answer s q) (List.replicate n ()) program s

/-- The run is one of an environment that covers the answers to the requests of the
program, in stations where this holds. -/
theorem play_runs_in {env : Env Answer World} {P : Request → Prop} {I : Station → Prop}
    (henv : ∀ q s r t, P q → I s → answer s q = some (r, t) → env q s.world r t.world ∧ I t) {n : Nat}
    {program : Prog Answer α} {s : Station} {o : Option α} (hp : program.Only P) (hs : I s)
    (h : (play n program s).1 = o) : Run env program s.world o (play n program s).2.world := by
  have hruns : Run (fun q s r t => answer s q = some (r, t)) program s (play n program s).1 (play n program s).2 :=
    run_follow (fun _ _ _ _ _ hanswer => hanswer) (List.replicate n ()) program s
  rw [h] at hruns
  exact Run.map henv hp hruns hs

theorem play_runs {n : Nat} {program : Prog Answer α} {s : Station} {o : Option α}
    (h : (play n program s).1 = o) : Run environment program s.world o (play n program s).2.world :=
  play_runs_in (P := fun _ => True) (I := fun _ => True) (fun _ _ _ _ _ _ ha => ⟨answer_environment ha, trivial⟩)
    (Prog.only_of_forall (fun _ => trivial) program) trivial h

def handle : Eight := ⟨[0x31, 0x32, 0x33, 0x34, 0x35, 0x36, 0x37, 0x38], rfl⟩

/-- The key of `password` for this handle. -/
def key : Key := ⟨[0xf5, 0x31, 0x15, 0x4d, 0x46, 0xd1, 0xbd, 0xbb, 0xcc, 0x1f, 0xcc, 0xe0, 0x2d, 0x6b, 0x4c, 0x93], rfl⟩

/-- The key of `letmein` for this handle. -/
def oldKey : Key :=
  ⟨[0xfd, 0xc6, 0x35, 0x85, 0xc7, 0xe4, 0xbd, 0x8a, 0xff, 0x2a, 0x85, 0x55, 0x04, 0xc1, 0x4a, 0xf2], rfl⟩

/-- The known answers of PBKDF2. -/
def deriveKey (password : Bytes) (salt : Eight) : Key :=
  if password = asBytes "password" ∧ salt = handle then key
  else if password = asBytes "letmein" ∧ salt = handle then oldKey
  else ⟨List.replicate 16 0, List.length_replicate⟩

/-- The code is that of `password`, which the user enters. -/
def locked : Station where
  serial := some 7
  applet := .modern handle (some key)
  accounts := []
  keyring := fun _ => none
  password := "password"
  agrees := true

/-- The keyring still holds the code that the applet had before. -/
def stale : Station := { locked with keyring := Function.update locked.keyring 7 (some (hexEncode oldKey.val)) }

end OathReference
