import Ckman.InteractionTrace
import Ckman.OathUri
import Ckman.SteamCode
import Mathlib.Data.Char
import Mathlib.Data.List.Lex

/-!
# Account codes

`accounts_code` calculates the matched credentials one by one. A calculation can
advance a counter on the device, so what was asked of the device, and what was
printed before it, is read off the trace of a run.
-/
namespace AccountCodes

open Host
open Text Interaction
open Oath (Algorithm Calculation Entry Kind Name displayName kindOf multipleHits parseName search
  steamCode)

variable {DeviceError IoError : Type}

structure CredentialRef where
  name : Name
  kind : Kind
  algorithm : Algorithm
  deriving DecidableEq, Repr

inductive Format where
  | truncated | full
  deriving DecidableEq, Repr

inductive Request where
  /-- `oath::list` in the session. -/
  | list
  /-- `SystemTime::now()` in seconds since the epoch. -/
  | now
  /-- `eprintln!`. -/
  | notice (text : List Char)
  /-- `oath::calculate` in the session. -/
  | calculate (credential : CredentialRef) (challenge : Option Bytes) (format : Format)
  /-- `writeln!` to the standard output, with its newline. -/
  | write (line : List Char)
  | flush
  deriving DecidableEq, Repr

variable (DeviceError IoError) in
def Answer : Request → Type
  | .list => Except DeviceError (List Entry)
  | .now => Option UInt64
  | .notice _ => Unit
  | .calculate .. => Except DeviceError Calculation
  | .write _ | .flush => Except IoError Unit

/-- What a calculation can fail with: a message, or the panic of an assertion. -/
inductive CodeError where
  | message (text : List Char)
  | panicked
  deriving DecidableEq, Repr

inductive Failure (IoError : Type) where
  | message (text : List Char)
  | panicked
  | output (error : IoError)
  deriving DecidableEq, Repr

/-- The functions that the command calls on names and on errors of the session. -/
structure Crates (DeviceError : Type) where
  /-- `str::to_lowercase`. -/
  lowercase : List Char → List Char
  describeOath : DeviceError → List Char
  describeCalculation : DeviceError → Kind → List Char

variable (DeviceError IoError) in
abbrev Codes (ε α : Type) : Type := Fallible (Answer DeviceError IoError) ε α

def ask {ε α : Type} (q : Request) (convert : Answer DeviceError IoError q → Except ε α) :
    Codes DeviceError IoError ε α :=
  attempt (.ask q fun answer => .pure (convert answer))

/-- HMAC algorithm decoded from the low nibble of the algorithm/type octet. -/
def algorithmOf (entry : Entry) : Except CodeError Algorithm :=
  match entry.algorithmType &&& 0x0f with
  | 1 => .ok .sha1
  | 2 => .ok .sha256
  | 3 => .ok .sha512
  | other => .error (.message ("unsupported algorithm octet 0x".toList ++ Nat.toDigits 16 other.toNat))

/-- The big-endian TOTP time-step challenge. A missing one is the panic of the
assertion on the period. -/
def totpChallenge (timestamp : UInt64) (period : UInt32) : Option Bytes :=
  if 0 < period then some (BigEndian.encode 8 (timestamp.toNat / period.toNat)) else none

/-- `(kind == Kind::Totp).then(|| totp_challenge(now, period))`. -/
def challengeOf (kind : Kind) (now : UInt64) (period : UInt32) : Except CodeError (Option Bytes) :=
  match kind with
  | .totp => (okOr (totpChallenge now period) .panicked).map some
  | .hotp => .ok none

section Program

variable (crates : Crates DeviceError)

def now : Codes DeviceError IoError CodeError UInt64 :=
  ask .now fun seconds => okOr seconds (.message "system clock is before the Unix epoch".toList)

def notice (text : List Char) : Codes DeviceError IoError CodeError Unit :=
  ask (.notice text) fun _ => .ok ()

def decimal (calculation : Calculation) : Except CodeError (List Char) := do
  let digits ← okOr calculation.decimal
    (.message "the credential did not produce a truncated code".toList)
  okOr (fromUtf8 digits) (.message "invalid code bytes".toList)

/-- The code of a calculation, in the alphabet of Steam for its accounts. -/
def codeText (kind : Kind) (issuer : Option (List Char)) (calculation : Calculation) :
    Except CodeError (List Char) :=
  if kind = .totp ∧ issuer = some "Steam".toList then do
    let code ← okOr (steamCode calculation) .panicked
    okOr code (.message "the credential did not produce a Steam code".toList)
  else decimal calculation

/-- Individually calculate one credential, using the credential's own TOTP
period for the time step. -/
def calculateOne (entry : Entry) (kind : Kind) (period : UInt32) (now : UInt64) (full : Bool) :
    Codes DeviceError IoError CodeError Calculation := do
  -- `Name::from_bytes` on the bytes of a name gives the name back.
  let algorithm ← orThrow (algorithmOf entry)
  let challenge ← orThrow (challengeOf kind now period)
  let format := if full then .full else .truncated
  ask (.calculate ⟨entry.name, kind, algorithm⟩ challenge format) fun answer =>
    Except.mapError (fun error => .message (crates.describeCalculation error kind)) answer

def accountCode (entry : Entry) (oneMatch : Bool)
    (calculate : Kind → UInt32 → Codes DeviceError IoError CodeError Calculation) :
    Codes DeviceError IoError CodeError (List Char) := do
  let kind ← orThrow (okOr (kindOf entry) (.message "unsupported credential type octet".toList))
  if kind = .hotp ∧ !oneMatch then pure "[HOTP Account]".toList
  else do
    let parsed := parseName entry.name.bytes kind
    orThrow (refuse (kind = .totp ∧ parsed.period = 0)
      (.message "the credential has an invalid zero TOTP period".toList))
    notice (displayName entry ++ ": touch your CanoKey if it flashes...".toList)
    let calculation ← calculate kind parsed.period
    orThrow (codeText kind parsed.issuer calculation)

/-- The closure of `accounts_code`. -/
def entryCode (oneMatch : Bool) (entry : Entry) : Codes DeviceError IoError CodeError (List Char) :=
  accountCode entry oneMatch fun kind period => do
    let now ← now
    calculateOne crates entry kind period now false

abbrev Row : Type := List Char × Entry

/-- The rows of the output, sorted stably by the lower-cased name. The order of
strings is that of their code points. -/
def sortedRows (entries : List Entry) : List Row :=
  (entries.map fun entry => (displayName entry, entry)).mergeSort
    fun a b => decide (crates.lowercase a.1 ≤ crates.lowercase b.1)

def longestName (rows : List Row) : Nat := (rows.map fun row => row.1.length).foldl max 0

/-- `{name:<longest_name$}  {code}`, or the code alone. -/
def line (single : Bool) (longest : Nat) (name code : List Char) : List Char :=
  if single then code ++ ['\n']
  else name ++ List.replicate (longest - name.length) ' ' ++ ' ' :: ' ' :: code ++ ['\n']

/-- `format!("{name}: {error}")`. -/
def inRow (name : List Char) : CodeError → Failure IoError
  | .message text => .message (name ++ ": ".toList ++ text)
  | .panicked => .panicked

def write (line : List Char) : Codes DeviceError IoError (Failure IoError) Unit :=
  ask (.write line) fun answer => Except.mapError .output answer

def flush : Codes DeviceError IoError (Failure IoError) Unit :=
  ask .flush fun answer => Except.mapError .output answer

/-- The `for` loop of `write_account_codes`. -/
def writeRows (single : Bool) (longest : Nat)
    (calculate : Entry → Codes DeviceError IoError CodeError (List Char)) :
    List Row → Codes DeviceError IoError (Failure IoError) Unit
  | [] => pure ()
  | (name, entry) :: rows => do
    let code ← mapError (inRow name) (calculate entry)
    write (line single longest name code)
    flush
    writeRows single longest calculate rows

/-- Publish and flush each result before the next calculation. -/
def writeAccountCodes (entries : List Entry) (single : Bool)
    (calculate : Entry → Codes DeviceError IoError CodeError (List Char)) :
    Codes DeviceError IoError (Failure IoError) Unit :=
  let rows := sortedRows crates entries
  writeRows single (longestName rows) calculate rows

/-- `accounts_code` on a connected session. -/
def accountsCode (query : List Char) (single showHidden : Bool) :
    Codes DeviceError IoError (Failure IoError) Unit := do
  let entries ← ask .list fun answer =>
    Except.mapError (fun error => .message (crates.describeOath error)) answer
  let hits := search crates.lowercase entries query showHidden
  if single ∧ hits.length ≠ 1 then
    throw (.message (if hits = [] then "no matching account found".toList else (multipleHits hits).toList))
  else if hits = [] then pure ()
  else writeAccountCodes crates hits single (entryCode crates (hits.length = 1))

end Program

namespace Request

def calculates : Request → Bool
  | .calculate .. => true
  | _ => false

def prints : Request → Bool
  | .write _ | .flush => true
  | _ => false

end Request

/-- The calculation of an entry at a time: its own name, kind and algorithm, and
for TOTP the challenge of its own period, which is not zero. -/
structure Due (entry : Entry) (time : UInt64) (credential : CredentialRef)
    (challenge : Option Bytes) : Prop where
  name : credential.name = entry.name
  kind : kindOf entry = some credential.kind
  algorithm : algorithmOf entry = .ok credential.algorithm
  totp : credential.kind = .totp → 0 < (parseName entry.name.bytes .totp).period ∧
    challenge = some (BigEndian.encode 8
      (time.toNat / (parseName entry.name.bytes .totp).period.toNat))
  hotp : credential.kind = .hotp → challenge = none

section Code

variable {crates : Crates DeviceError} {entry : Entry} {oneMatch : Bool}
  {tr : List (Event (Answer DeviceError IoError))} {kind : Kind}

theorem traces_ask_iff {ε α : Type} {q : Request} {convert : Answer DeviceError IoError q → Except ε α}
    {o : Option (Except ε α)} :
    Fallible.Traces (ask q convert) tr o ↔
      (tr = [] ∧ o = none) ∨ ∃ r, tr = [⟨q, r⟩] ∧ o = some (convert r) := Fallible.traces_request_iff

/-- A request that is not answered, fails, or is followed by the rest. -/
theorem traces_ask_bind_iff {ε α β : Type} {q : Request}
    {convert : Answer DeviceError IoError q → Except ε α} {f : α → Codes DeviceError IoError ε β}
    {o : Option (Except ε β)} :
    Fallible.Traces (ask q convert >>= f) tr o ↔
      (tr = [] ∧ o = none) ∨ ∃ answer rest, tr = ⟨q, answer⟩ :: rest ∧
        ((∃ e, convert answer = .error e ∧ rest = [] ∧ o = some (.error e)) ∨
          ∃ a, convert answer = .ok a ∧ Fallible.Traces (f a) rest o) := by
  rw [Fallible.traces_bind_iff]
  simp only [traces_ask_iff, reduceCtorEq, and_true, and_false, exists_false, or_false, false_or,
    Option.some.injEq]
  constructor
  · rintro (⟨rfl, rfl⟩ | ⟨e, rfl, answer, rfl, he⟩ | ⟨a, first, rest, rfl, ⟨answer, rfl, ha⟩, h⟩)
    · exact .inl ⟨rfl, rfl⟩
    · exact .inr ⟨answer, [], rfl, .inl ⟨e, he.symm, rfl, rfl⟩⟩
    · exact .inr ⟨answer, rest, rfl, .inr ⟨a, ha.symm, h⟩⟩
  · rintro (⟨rfl, rfl⟩ | ⟨answer, rest, rfl, ⟨e, he, rfl, rfl⟩ | ⟨a, ha, h⟩⟩)
    · exact .inl ⟨rfl, rfl⟩
    · exact .inr (.inl ⟨e, rfl, answer, rfl, he.symm⟩)
    · exact .inr (.inr ⟨a, [⟨q, answer⟩], rest, rfl, ⟨answer, rfl, ha.symm⟩, h⟩)

theorem codeText_ne_panicked (issuer : Option (List Char)) (calculation : Calculation) :
    codeText kind issuer calculation ≠ .error .panicked := by
  rw [codeText]
  split
  · rw [Oath.steamCode_eq]
    simp only [okOr, Except.ok_bind]
    split <;> simp
  · rw [decimal]
    intro h
    rcases Except.bind_eq_error_iff.mp h with h | ⟨digits, -, h⟩
    · obtain ⟨-, h⟩ := okOr_eq_error_iff.mp h
      cases h
    · obtain ⟨-, h⟩ := okOr_eq_error_iff.mp h
      cases h

theorem challengeOf_due {period : UInt32} (time : UInt64) {algorithm : Algorithm}
    (hkind : kindOf entry = some kind) (halgorithm : algorithmOf entry = .ok algorithm)
    (hperiod : kind = .totp → 0 < period ∧ period = (parseName entry.name.bytes .totp).period) :
    ∃ challenge, challengeOf kind time period = .ok challenge ∧
      Due entry time ⟨entry.name, kind, algorithm⟩ challenge := by
  cases kind with
  | hotp => exact ⟨none, rfl, rfl, hkind, halgorithm, nofun, fun _ => rfl⟩
  | totp =>
    obtain ⟨hpos, hown⟩ := hperiod rfl
    subst hown
    refine ⟨some (BigEndian.encode 8
      (time.toNat / (parseName entry.name.bytes .totp).period.toNat)), ?_, rfl, hkind, halgorithm,
      fun _ => ⟨hpos, rfl⟩, nofun⟩
    rw [challengeOf, totpChallenge, if_pos hpos]
    rfl

/-- A calculation is asked for at most once, as it is due, and its failure is the result. -/
theorem traces_calculateOne {period : UInt32} {time : UInt64} {o : Option (Except CodeError Calculation)}
    (hkind : kindOf entry = some kind)
    (hperiod : kind = .totp → 0 < period ∧ period = (parseName entry.name.bytes .totp).period)
    (h : Fallible.Traces (calculateOne crates entry kind period time false) tr o) :
    (tr = [] ∧ (o = none ∨ ∃ text, algorithmOf entry = .error (.message text) ∧
        o = some (.error (.message text)))) ∨
      ∃ credential challenge answer, tr = [⟨.calculate credential challenge .truncated, answer⟩] ∧
        Due entry time credential challenge ∧ credential.kind = kind ∧
        o = some (Except.mapError (fun error => .message (crates.describeCalculation error kind)) answer) := by
  rw [calculateOne] at h
  rcases Fallible.traces_orThrow_bind_iff.mp h with ⟨e, he, rfl, rfl⟩ | ⟨algorithm, halgorithm, h⟩
  · cases e with
    | message text => exact .inl ⟨rfl, .inr ⟨text, he, rfl⟩⟩
    | panicked =>
      rw [algorithmOf] at he
      split at he <;> cases he
  · obtain ⟨challenge, hchallenge, hdue⟩ := challengeOf_due time hkind halgorithm hperiod
    rw [hchallenge] at h
    rcases Fallible.traces_orThrow_bind_iff.mp h with ⟨e, he, -⟩ | ⟨challenge', he, h⟩
    · cases he
    · cases he
      rcases traces_ask_iff.mp h with ⟨rfl, rfl⟩ | ⟨answer, rfl, rfl⟩
      · exact .inl ⟨rfl, .inl rfl⟩
      · exact .inr ⟨_, challenge, answer, rfl, hdue, rfl, rfl⟩

/-- How the code of an entry ends, and the events before it: a HOTP account among
several matches is not calculated, and every other one is calculated as it is
due, after a notice and the time, unless the entry or the clock is unusable. -/
inductive CodeEnds (crates : Crates DeviceError) (entry : Entry) (oneMatch : Bool) :
    List (Event (Answer DeviceError IoError)) → Except CodeError (List Char) → Prop where
  | placeholder : kindOf entry = some .hotp → oneMatch = false →
      CodeEnds crates entry oneMatch [] (.ok "[HOTP Account]".toList)
  | unsupported : kindOf entry = none →
      CodeEnds crates entry oneMatch [] (.error (.message "unsupported credential type octet".toList))
  | zeroPeriod : kindOf entry = some .totp → (parseName entry.name.bytes .totp).period = 0 →
      CodeEnds crates entry oneMatch []
        (.error (.message "the credential has an invalid zero TOTP period".toList))
  | clock (text : List Char) : CodeEnds crates entry oneMatch [⟨.notice text, ()⟩, ⟨.now, none⟩]
      (.error (.message "system clock is before the Unix epoch".toList))
  | algorithm (text : List Char) (time : UInt64) {reason : List Char} :
      algorithmOf entry = .error (.message reason) →
      CodeEnds crates entry oneMatch [⟨.notice text, ()⟩, ⟨.now, some time⟩] (.error (.message reason))
  | failed (text : List Char) {time : UInt64} {credential : CredentialRef}
      {challenge : Option Bytes} (error : DeviceError) (hdue : Due entry time credential challenge)
      (hhotp : credential.kind = .hotp → oneMatch = true) :
      CodeEnds crates entry oneMatch [⟨.notice text, ()⟩, ⟨.now, some time⟩,
        ⟨.calculate credential challenge .truncated, .error error⟩]
        (.error (.message (crates.describeCalculation error credential.kind)))
  | calculated (text : List Char) {time : UInt64} {credential : CredentialRef}
      {challenge : Option Bytes} (calculation : Calculation)
      (hdue : Due entry time credential challenge)
      (hhotp : credential.kind = .hotp → oneMatch = true) :
      CodeEnds crates entry oneMatch [⟨.notice text, ()⟩, ⟨.now, some time⟩,
        ⟨.calculate credential challenge .truncated, .ok calculation⟩]
        (codeText credential.kind (parseName entry.name.bytes credential.kind).issuer calculation)

/-- A code that is stopped has asked for nothing but a notice and the time. -/
inductive CodeRun (crates : Crates DeviceError) (entry : Entry) (oneMatch : Bool)
    (tr : List (Event (Answer DeviceError IoError))) : Option (Except CodeError (List Char)) → Prop where
  | stopped : (∀ event ∈ tr, event.request.prints = false ∧ event.request.calculates = false) →
      CodeRun crates entry oneMatch tr none
  | ended {r : Except CodeError (List Char)} : CodeEnds crates entry oneMatch tr r →
      CodeRun crates entry oneMatch tr (some r)

/-- The closure of `accounts_code` reads the time right before the calculation. -/
theorem traces_calculate {text : List Char} {period : UInt32} {o : Option (Except CodeError (List Char))}
    (hkind : kindOf entry = some kind) (hhotp : kind = .hotp → oneMatch = true)
    (hperiod : kind = .totp → 0 < period ∧ period = (parseName entry.name.bytes .totp).period)
    (h : Fallible.Traces (do
      let calculation ← (do
        let now ← now
        calculateOne crates entry kind period now false)
      orThrow (codeText kind (parseName entry.name.bytes kind).issuer calculation)) tr o) :
    CodeRun crates entry oneMatch (⟨.notice text, ()⟩ :: tr) o := by
  rw [Fallible.bind_assoc] at h
  rcases traces_ask_bind_iff.mp h with ⟨rfl, rfl⟩ | ⟨answer, rest, rfl, ⟨e, he, rfl, rfl⟩ | ⟨time, ht, hrest⟩⟩
  · exact .stopped (by simp [Request.prints, Request.calculates])
  · obtain ⟨rfl, rfl⟩ := okOr_eq_error_iff.mp he
    exact .ended (.clock text)
  have hanswer : answer = some time := okOr_eq_ok_iff.mp ht
  subst hanswer
  -- The calculation is stopped, fails, or hands over to the formatting.
  rcases Fallible.traces_bind_iff.mp hrest with
    ⟨rfl, hc⟩ | ⟨e, rfl, hc⟩ | ⟨c, before, after, rfl, hc, htext⟩
  · rcases traces_calculateOne hkind hperiod hc with ⟨rfl, -⟩ | ⟨_, _, _, -, -, -, hnone⟩
    · exact .stopped (by simp [Request.prints, Request.calculates])
    · cases hnone
  · rcases traces_calculateOne hkind hperiod hc with
      ⟨rfl, ho | ⟨reason, halgorithm, ho⟩⟩ | ⟨credential, challenge, result, rfl, hdue, rfl, ho⟩
    · cases ho
    · cases ho
      exact .ended (.algorithm text time halgorithm)
    · cases result with
      | error error =>
        cases ho
        exact .ended (.failed text error hdue hhotp)
      | ok calculation => cases ho
  · obtain ⟨rfl, rfl⟩ := Fallible.traces_orThrow_iff.mp htext
    rcases traces_calculateOne hkind hperiod hc with
      ⟨rfl, ho | ⟨reason, halgorithm, ho⟩⟩ | ⟨credential, challenge, result, rfl, hdue, rfl, ho⟩
    · cases ho
    · cases ho
    · cases result with
      | error error => cases ho
      | ok calculation =>
        cases ho
        exact .ended (.calculated text c hdue hhotp)

theorem codeRun (o : Option (Except CodeError (List Char)))
    (h : Fallible.Traces (entryCode crates oneMatch entry) tr o) :
    CodeRun crates entry oneMatch tr o := by
  rw [entryCode, accountCode] at h
  rcases Fallible.traces_orThrow_bind_iff.mp h with ⟨e, he, rfl, rfl⟩ | ⟨kind, hkind, h⟩
  · obtain ⟨hnone, rfl⟩ := okOr_eq_error_iff.mp he
    exact .ended (.unsupported hnone)
  rw [okOr_eq_ok_iff] at hkind
  split at h
  · rename_i hplaceholder
    obtain ⟨rfl, rfl⟩ := Fallible.traces_pure_iff.mp h
    exact .ended (.placeholder (hplaceholder.1 ▸ hkind) (by simpa using hplaceholder.2))
  rename_i hotp
  rcases Fallible.traces_orThrow_bind_iff.mp h with ⟨e, he, rfl, rfl⟩ | ⟨u, hperiod, h⟩
  · obtain ⟨⟨rfl, hzero⟩, rfl⟩ := refuse_eq_error_iff.mp he
    exact .ended (.zeroPeriod hkind hzero)
  rw [refuse_eq_ok_iff] at hperiod
  have hown : kind = .totp → 0 < (parseName entry.name.bytes kind).period ∧
      (parseName entry.name.bytes kind).period = (parseName entry.name.bytes .totp).period := by
    rintro rfl
    exact ⟨UInt32.pos_iff_ne_zero.mpr fun hzero => hperiod ⟨rfl, hzero⟩, rfl⟩
  have hhotp : kind = .hotp → oneMatch = true := by
    intro hkind'
    simpa [hkind'] using hotp
  rcases traces_ask_bind_iff.mp h with ⟨rfl, rfl⟩ | ⟨answer, rest, rfl, ⟨e, he, -⟩ | ⟨u, -, h⟩⟩
  · exact .stopped (by simp)
  · cases he
  · exact traces_calculate hkind hhotp hown h

/-- A code prints nothing itself. -/
theorem CodeRun.silent {o : Option (Except CodeError (List Char))} (h : CodeRun crates entry oneMatch tr o) :
    ∀ event ∈ tr, event.request.prints = false := by
  cases h with
  | stopped hnone => exact fun event hevent => (hnone event hevent).1
  | ended hends => cases hends <;> simp [Request.prints]

theorem CodeRun.neverPanics {o : Option (Except CodeError (List Char))}
    (h : CodeRun crates entry oneMatch tr o) : o ≠ some (.error .panicked) := by
  cases h with
  | stopped hnone => simp
  | @ended r hends =>
    intro ho
    cases ho
    generalize hr : (Except.error CodeError.panicked : Except CodeError (List Char)) = r at hends
    cases hends with
    | calculated text calculation hdue hhotp => exact codeText_ne_panicked _ _ hr.symm
    | _ => cases hr

/-- It asks for no calculation, or for one at its end. -/
theorem CodeRun.calculation {o : Option (Except CodeError (List Char))}
    (h : CodeRun crates entry oneMatch tr o) :
    (∀ event ∈ tr, event.request.calculates = false) ∨
    ∃ text time credential challenge answer,
      tr = [⟨.notice text, ()⟩, ⟨.now, some time⟩, ⟨.calculate credential challenge .truncated, answer⟩] ∧
      Due entry time credential challenge ∧ (credential.kind = .hotp → oneMatch = true) ∧
      ((∃ e, answer = .error e) → ∃ e, o = some (.error e)) := by
  cases h with
  | stopped hnone => exact .inl fun event hevent => (hnone event hevent).2
  | ended hends =>
    cases hends with
    | failed text error hdue hhotp =>
      exact .inr ⟨text, _, _, _, _, rfl, hdue, hhotp, fun _ => ⟨_, rfl⟩⟩
    | calculated text calculation hdue hhotp =>
      refine .inr ⟨text, _, _, _, _, rfl, hdue, hhotp, ?_⟩
      rintro ⟨e, he⟩
      cases he
    | _ => exact .inl (by simp [Request.calculates])

theorem CodeRun.ends {r : Except CodeError (List Char)} (h : CodeRun crates entry oneMatch tr (some r)) :
    CodeEnds crates entry oneMatch tr r := by
  cases h with
  | ended hends => exact hends

end Code

section Rows

variable {crates : Crates DeviceError} {single oneMatch : Bool} {longest : Nat} {rows : List Row}
  {tr : List (Event (Answer DeviceError IoError))} {o : Option (Except (Failure IoError) Unit)}

/-- A row whose code was calculated but that was not written and flushed. -/
inductive Unpublished (line : List Char) :
    List (Event (Answer DeviceError IoError)) → Option (Except (Failure IoError) Unit) → Prop where
  | unwritten : Unpublished line [] none
  | writeFailed (e : IoError) : Unpublished line [⟨.write line, .error e⟩] (some (.error (.output e)))
  | unflushed : Unpublished line [⟨.write line, .ok ()⟩] none
  | flushFailed (e : IoError) :
      Unpublished line [⟨.write line, .ok ()⟩, ⟨.flush, .error e⟩] (some (.error (.output e)))

/-- The traces of the loop: published rows, and then the end or a row that is
not published. -/
inductive RowsRun (crates : Crates DeviceError) (single oneMatch : Bool) (longest : Nat) :
    List Row → List (Event (Answer DeviceError IoError)) → Option (Except (Failure IoError) Unit) →
      Prop where
  | finished : RowsRun crates single oneMatch longest [] [] (some (.ok ()))
  | published {name : List Char} {entry : Entry} {rows : List Row}
      {evs tr : List (Event (Answer DeviceError IoError))} {code : List Char}
      {o : Option (Except (Failure IoError) Unit)} (hcode : CodeRun crates entry oneMatch evs (some (.ok code)))
      (hrest : RowsRun crates single oneMatch longest rows tr o) :
      RowsRun crates single oneMatch longest ((name, entry) :: rows)
        (evs ++ ⟨.write (line single longest name code), .ok ()⟩ :: ⟨.flush, .ok ()⟩ :: tr) o
  | stopped {name : List Char} {entry : Entry} {rows : List Row}
      {evs : List (Event (Answer DeviceError IoError))} (hcode : CodeRun crates entry oneMatch evs none) :
      RowsRun crates single oneMatch longest ((name, entry) :: rows) evs none
  | failed {name : List Char} {entry : Entry} {rows : List Row}
      {evs : List (Event (Answer DeviceError IoError))} {e : CodeError}
      (hcode : CodeRun crates entry oneMatch evs (some (.error e))) :
      RowsRun crates single oneMatch longest ((name, entry) :: rows) evs (some (.error (inRow name e)))
  | unpublished {name : List Char} {entry : Entry} {rows : List Row}
      {evs tail : List (Event (Answer DeviceError IoError))} {code : List Char}
      {o : Option (Except (Failure IoError) Unit)} (hcode : CodeRun crates entry oneMatch evs (some (.ok code)))
      (htail : Unpublished (line single longest name code) tail o) :
      RowsRun crates single oneMatch longest ((name, entry) :: rows) (evs ++ tail) o

/-- Every trace of the loop is of this form. -/
theorem rowsRun {calculate : Entry → Codes DeviceError IoError CodeError (List Char)}
    (hcalculate : ∀ entry evs r, Fallible.Traces (calculate entry) evs r → CodeRun crates entry oneMatch evs r)
    (h : Fallible.Traces (writeRows single longest calculate rows) tr o) :
    RowsRun crates single oneMatch longest rows tr o := by
  induction rows generalizing tr with
  | nil =>
    obtain ⟨rfl, rfl⟩ := Fallible.traces_pure_iff.mp h
    exact .finished
  | cons row rows ih =>
    obtain ⟨name, entry⟩ := row
    rcases Fallible.traces_bind_iff.mp h with ⟨rfl, hc⟩ | ⟨e, rfl, hc⟩ | ⟨code, evs, rest, rfl, hc, hrest⟩
    · obtain ⟨r, hr, hinner⟩ := Fallible.traces_mapError_iff.mp hc
      cases r with
      | none => exact .stopped (hcalculate _ _ _ hinner)
      | some r => cases hr
    · obtain ⟨r, hr, hinner⟩ := Fallible.traces_mapError_iff.mp hc
      rcases r with _ | e | code
      · cases hr
      · cases hr
        exact .failed (hcalculate _ _ _ hinner)
      · cases hr
    · obtain ⟨r, hr, hinner⟩ := Fallible.traces_mapError_iff.mp hc
      rcases r with _ | e | code
      · cases hr
      · cases hr
      · cases hr
        have hcode := hcalculate _ _ _ hinner
        rcases traces_ask_bind_iff.mp hrest with ⟨rfl, rfl⟩ | ⟨answer, rest, rfl, hanswer⟩
        · exact .unpublished hcode .unwritten
        rcases hanswer with ⟨e, he, rfl, rfl⟩ | ⟨u, hu, hflush⟩
        · rcases answer with e | u
          · cases he
            exact .unpublished hcode (.writeFailed e)
          · cases he
        rcases answer with e | u
        · cases hu
        rcases traces_ask_bind_iff.mp hflush with ⟨rfl, rfl⟩ | ⟨answer, rest, rfl, hanswer⟩
        · exact .unpublished hcode .unflushed
        rcases hanswer with ⟨e, he, rfl, rfl⟩ | ⟨u, hu, hnext⟩
        · rcases answer with e | u
          · cases he
            exact .unpublished hcode (.flushFailed e)
          · cases he
        rcases answer with e | u
        · cases hu
        exact .published hcode (ih hnext)

def calculated (tr : List (Event (Answer DeviceError IoError))) : List Name :=
  tr.filterMap fun event =>
    match event.request with
    | .calculate credential _ _ => some credential.name
    | _ => none

def outputs (tr : List (Event (Answer DeviceError IoError))) :
    List (Event (Answer DeviceError IoError)) :=
  tr.filter fun event => event.request.prints

variable (DeviceError IoError) in
/-- Rows with their codes, each written and flushed. -/
def printed (single : Bool) (longest : Nat) (rows : List Row) (codes : List (List Char)) :
    List (Event (Answer DeviceError IoError)) :=
  (rows.zip codes).flatMap fun (row, code) =>
    [⟨.write (line single longest row.1 code), .ok ()⟩, ⟨.flush, .ok ()⟩]

def Failed : Event (Answer DeviceError IoError) → Prop
  | ⟨.calculate .., answer⟩ => ∃ e, answer = .error e
  | ⟨.write _, answer⟩ => ∃ e, answer = .error e
  | ⟨.flush, answer⟩ => ∃ e, answer = .error e
  | _ => False

section Code

variable {entry : Entry} {evs : List (Event (Answer DeviceError IoError))}
  {r : Option (Except CodeError (List Char))}

theorem CodeRun.calculated_sublist (h : CodeRun crates entry oneMatch evs r) :
    (calculated evs).Sublist [entry.name] := by
  rcases h.calculation with hnone | ⟨text, time, credential, challenge, answer, rfl, hdue, -, -⟩
  · have hempty : calculated evs = [] := by
      rw [calculated, List.filterMap_eq_nil_iff]
      intro event hevent
      have := hnone event hevent
      split
      · rename_i heq
        rw [heq] at this
        cases this
      · rfl
    rw [hempty]
    exact List.nil_sublist _
  · rw [← hdue.name]
    exact List.Sublist.refl _

theorem CodeRun.outputs_nil (h : CodeRun crates entry oneMatch evs r) : outputs evs = [] := by
  rw [outputs, List.filter_eq_nil_iff]
  intro event hevent
  rw [h.silent event hevent]
  exact Bool.false_ne_true

end Code

theorem calculated_append (first second : List (Event (Answer DeviceError IoError))) :
    calculated (first ++ second) = calculated first ++ calculated second := List.filterMap_append

theorem outputs_append (first second : List (Event (Answer DeviceError IoError))) :
    outputs (first ++ second) = outputs first ++ outputs second := List.filter_append _ _

theorem Unpublished.no_calculation {line : List Char} (h : Unpublished line tr o) :
    ∀ event ∈ tr, event.request.calculates = false := by
  cases h <;> simp [Request.calculates]

theorem Unpublished.calculated_nil {line : List Char} (h : Unpublished line tr o) :
    calculated tr = [] := by
  cases h <;> rfl

/-- Every row is calculated at most once, in the order of the rows. -/
theorem RowsRun.once (h : RowsRun crates single oneMatch longest rows tr o) :
    (calculated tr).Sublist (rows.map fun row => row.2.name) := by
  induction h with
  | finished => exact List.Sublist.refl _
  | published hcode hrest ih =>
    rw [calculated_append]
    exact hcode.calculated_sublist.append ih
  | stopped hcode =>
    exact hcode.calculated_sublist.trans (List.singleton_sublist.mpr List.mem_cons_self)
  | failed hcode =>
    exact hcode.calculated_sublist.trans (List.singleton_sublist.mpr List.mem_cons_self)
  | unpublished hcode htail =>
    rw [calculated_append, htail.calculated_nil, List.append_nil]
    exact hcode.calculated_sublist.trans (List.singleton_sublist.mpr List.mem_cons_self)

/-- Rows that are printed one after the other: each is calculated, and its code
is written and flushed before the next one. -/
inductive Printed (crates : Crates DeviceError) (single oneMatch : Bool) (longest : Nat) :
    List Row → List (Event (Answer DeviceError IoError)) → Prop where
  | nil : Printed crates single oneMatch longest [] []
  | cons {row : Row} {rows : List Row} {evs tr : List (Event (Answer DeviceError IoError))}
      {code : List Char} (hcode : CodeEnds crates row.2 oneMatch evs (.ok code))
      (hrest : Printed crates single oneMatch longest rows tr) :
      Printed crates single oneMatch longest (row :: rows)
        (evs ++ ⟨.write (line single longest row.1 code), .ok ()⟩ :: ⟨.flush, .ok ()⟩ :: tr)

/-- What happens to the rows that are not printed: there is none and the loop
returns, or it ends in the first of them. -/
inductive Pending (crates : Crates DeviceError) (single oneMatch : Bool) (longest : Nat) :
    List Row → List (Event (Answer DeviceError IoError)) → Option (Except (Failure IoError) Unit) →
      Prop where
  | returned : Pending crates single oneMatch longest [] [] (some (.ok ()))
  | stopped {row : Row} {rows : List Row} {evs : List (Event (Answer DeviceError IoError))}
      (hcode : CodeRun crates row.2 oneMatch evs none) :
      Pending crates single oneMatch longest (row :: rows) evs none
  | failed {row : Row} {rows : List Row} {evs : List (Event (Answer DeviceError IoError))}
      {e : CodeError} (hcode : CodeEnds crates row.2 oneMatch evs (.error e)) :
      Pending crates single oneMatch longest (row :: rows) evs (some (.error (inRow row.1 e)))
  | unpublished {row : Row} {rows : List Row} {evs tail : List (Event (Answer DeviceError IoError))}
      {code : List Char} {o : Option (Except (Failure IoError) Unit)}
      (hcode : CodeEnds crates row.2 oneMatch evs (.ok code))
      (htail : Unpublished (line single longest row.1 code) tail o) :
      Pending crates single oneMatch longest (row :: rows) (evs ++ tail) o

/-- The first rows are printed, and the loop returns only behind the last one. -/
theorem RowsRun.order (h : RowsRun crates single oneMatch longest rows tr o) :
    ∃ done rest front tail, rows = done ++ rest ∧ tr = front ++ tail ∧
      Printed crates single oneMatch longest done front ∧ Pending crates single oneMatch longest rest tail o := by
  induction h with
  | finished => exact ⟨[], [], [], [], rfl, rfl, .nil, .returned⟩
  | @published name entry rows evs tr code o hcode hrest ih =>
    obtain ⟨done, rest, front, tail, rfl, rfl, hfront, htail⟩ := ih
    refine ⟨(name, entry) :: done, rest, _, tail, rfl, ?_, .cons hcode.ends hfront, htail⟩
    simp only [List.append_assoc, List.cons_append]
  | @stopped name entry rows evs hcode =>
    exact ⟨[], _, [], evs, rfl, rfl, .nil, .stopped hcode⟩
  | @failed name entry rows evs e hcode =>
    exact ⟨[], _, [], evs, rfl, rfl, .nil, .failed hcode.ends⟩
  | unpublished hcode htail =>
    exact ⟨[], _, [], _, rfl, rfl, .nil, .unpublished hcode.ends htail⟩

theorem RowsRun.neverPanics (h : RowsRun crates single oneMatch longest rows tr o) :
    o ≠ some (.error .panicked) := by
  induction h with
  | finished => simp
  | published hcode hrest ih => exact ih
  | stopped hcode => simp
  | @failed name entry rows evs e hcode =>
    cases e with
    | message text => simp [inRow]
    | panicked => exact absurd rfl hcode.neverPanics
  | unpublished hcode htail => cases htail <;> simp

/-- The calculation of a row when the rows before it are printed. -/
structure Turn (single oneMatch : Bool) (longest : Nat) (rows : List Row)
    (pre : List (Event (Answer DeviceError IoError))) (credential : CredentialRef)
    (challenge : Option Bytes) (format : Format) : Prop where
  truncated : format = .truncated
  hotp : credential.kind = .hotp → oneMatch = true
  place : ∃ before row after codes time earlier, rows = before ++ row :: after ∧
    pre = earlier ++ [⟨.now, some time⟩] ∧ Due row.2 time credential challenge ∧
    codes.length = before.length ∧
    outputs pre = printed DeviceError IoError single longest before codes

theorem CodeRun.turn {name : List Char} {entry : Entry} {r : Option (Except CodeError (List Char))}
    {pre post : List (Event (Answer DeviceError IoError))} {credential : CredentialRef}
    {challenge : Option Bytes} {format : Format} {answer : Except DeviceError Calculation}
    (h : CodeRun crates entry oneMatch (pre ++ ⟨.calculate credential challenge format, answer⟩ :: post) r) :
    Turn single oneMatch longest ((name, entry) :: rows) pre credential challenge format ∧ post = [] ∧
      ((∃ e, answer = .error e) → ∃ e, r = some (.error e)) := by
  rcases h.calculation with hnone | ⟨text, time, credential', challenge', answer', heq, hdue, hhotp, hfailed⟩
  · have := hnone _ (List.mem_append_right pre List.mem_cons_self)
    cases this
  · rcases pre with _ | ⟨first, _ | ⟨second, _ | ⟨third, pre⟩⟩⟩
    · cases heq
    · cases heq
    · cases heq
      refine ⟨⟨rfl, hhotp, [], (name, entry), rows, [], time, [⟨.notice text, ()⟩], rfl, rfl, hdue, rfl, rfl⟩,
        rfl, hfailed⟩
    · simp at heq

theorem CodeRun.stops {entry : Entry} {r : Option (Except CodeError (List Char))}
    {pre post : List (Event (Answer DeviceError IoError))} {event : Event (Answer DeviceError IoError)}
    (h : CodeRun crates entry oneMatch (pre ++ event :: post) r) (hfailed : Failed event) :
    post = [] ∧ ∃ e, r = some (.error e) := by
  have hsilent := h.silent event (List.mem_append_right pre List.mem_cons_self)
  obtain ⟨request, answer⟩ := event
  cases request with
  | calculate credential challenge format =>
    have hturn : Turn true oneMatch 0 [([], entry)] pre credential challenge format ∧ post = [] ∧
        ((∃ e, answer = .error e) → ∃ e, r = some (.error e)) := h.turn
    obtain ⟨-, hpost, herror⟩ := hturn
    exact ⟨hpost, herror hfailed⟩
  | write line => cases hsilent
  | flush => cases hsilent
  | list => exact absurd hfailed id
  | now => exact absurd hfailed id
  | notice text => exact absurd hfailed id

/-- The rows before a calculation are printed. -/
theorem RowsRun.turn {pre post : List (Event (Answer DeviceError IoError))} {credential : CredentialRef}
    {challenge : Option Bytes} {format : Format} {answer : Except DeviceError Calculation}
    (h : RowsRun crates single oneMatch longest rows tr o)
    (htr : tr = pre ++ ⟨.calculate credential challenge format, answer⟩ :: post) :
    Turn single oneMatch longest rows pre credential challenge format := by
  induction h generalizing pre with
  | finished => simp at htr
  | @published name entry rows evs tr code o hcode hrest ih =>
    rcases split_append htr.symm with ⟨more, rfl, -⟩ | ⟨more, rfl, hmore⟩
    · exact hcode.turn.1
    · rcases more with _ | ⟨first, _ | ⟨second, more⟩⟩
      · cases hmore
      · cases hmore
      · cases hmore
        obtain ⟨hformat, hhotp, before, row, after, codes, time, earlier, hrows, hpre, hdue, hcodes, houts⟩ :=
          ih rfl
        refine ⟨hformat, hhotp, (name, entry) :: before, row, after, code :: codes, time,
          evs ++ ⟨.write (line single longest name code), .ok ()⟩ :: ⟨.flush, .ok ()⟩ :: earlier,
          ?_, ?_, hdue, ?_, ?_⟩
        · rw [hrows, List.cons_append]
        · rw [hpre, List.append_assoc, List.cons_append, List.cons_append]
        · rw [List.length_cons, List.length_cons, hcodes]
        · rw [outputs_append, hcode.outputs_nil, List.nil_append]
          change _ :: _ :: outputs more = _ :: _ :: printed DeviceError IoError single longest before codes
          rw [houts]
  | stopped hcode =>
    subst htr
    exact hcode.turn.1
  | failed hcode =>
    subst htr
    exact hcode.turn.1
  | unpublished hcode htail =>
    rcases split_append htr.symm with ⟨more, rfl, -⟩ | ⟨more, rfl, hmore⟩
    · exact hcode.turn.1
    · have := htail.no_calculation _ (hmore ▸ List.mem_append_right more List.mem_cons_self)
      cases this

theorem Unpublished.stops {line : List Char} {pre post : List (Event (Answer DeviceError IoError))}
    {event : Event (Answer DeviceError IoError)} (h : Unpublished line tr o)
    (htr : tr = pre ++ event :: post) (hfailed : Failed event) :
    post = [] ∧ ∃ e, o = some (.error e) := by
  cases h with
  | unwritten => simp at htr
  | writeFailed e =>
    rcases pre with _ | ⟨first, pre⟩
    · cases htr
      exact ⟨rfl, _, rfl⟩
    · simp at htr
  | unflushed =>
    rcases pre with _ | ⟨first, pre⟩
    · cases htr
      obtain ⟨e, he⟩ := hfailed
      cases he
    · simp at htr
  | flushFailed e =>
    rcases pre with _ | ⟨first, _ | ⟨second, pre⟩⟩
    · cases htr
      obtain ⟨e, he⟩ := hfailed
      cases he
    · cases htr
      exact ⟨rfl, _, rfl⟩
    · simp at htr

/-- After a failed calculation, write or flush there is nothing but the error. -/
theorem RowsRun.stops {pre post : List (Event (Answer DeviceError IoError))}
    {event : Event (Answer DeviceError IoError)} (h : RowsRun crates single oneMatch longest rows tr o)
    (htr : tr = pre ++ event :: post) (hfailed : Failed event) :
    post = [] ∧ ∃ e, o = some (.error e) := by
  induction h generalizing pre with
  | finished => simp at htr
  | @published name entry rows evs tr code o hcode hrest ih =>
    rcases split_append htr.symm with ⟨more, rfl, -⟩ | ⟨more, rfl, hmore⟩
    · obtain ⟨-, e, he⟩ := hcode.stops hfailed
      cases he
    · rcases more with _ | ⟨first, _ | ⟨second, more⟩⟩
      · cases hmore
        obtain ⟨e, he⟩ := hfailed
        cases he
      · cases hmore
        obtain ⟨e, he⟩ := hfailed
        cases he
      · cases hmore
        exact ih rfl
  | stopped hcode =>
    subst htr
    obtain ⟨-, e, he⟩ := hcode.stops hfailed
    cases he
  | failed hcode =>
    subst htr
    exact ⟨(hcode.stops hfailed).1, _, rfl⟩
  | unpublished hcode htail =>
    rcases split_append htr.symm with ⟨more, rfl, -⟩ | ⟨more, rfl, hmore⟩
    · obtain ⟨-, e, he⟩ := hcode.stops hfailed
      cases he
    · exact htail.stops hmore hfailed

end Rows

section Command

variable {crates : Crates DeviceError} {tr : List (Event (Answer DeviceError IoError))}

theorem sortedRows_perm (entries : List Entry) :
    (sortedRows crates entries).Perm (entries.map fun entry => (displayName entry, entry)) :=
  List.mergeSort_perm _ _

/-- The rows are in the order of their lower-cased names. -/
theorem sortedRows_pairwise (entries : List Entry) :
    (sortedRows crates entries).Pairwise fun a b => crates.lowercase a.1 ≤ crates.lowercase b.1 := by
  have htrans : ∀ a b c : Row, decide (crates.lowercase a.1 ≤ crates.lowercase b.1) = true →
      decide (crates.lowercase b.1 ≤ crates.lowercase c.1) = true →
      decide (crates.lowercase a.1 ≤ crates.lowercase c.1) = true := by
    intro a b c hab hbc
    rw [decide_eq_true_eq] at hab hbc ⊢
    exact le_trans hab hbc
  have htotal : ∀ a b : Row, (decide (crates.lowercase a.1 ≤ crates.lowercase b.1) ||
      decide (crates.lowercase b.1 ≤ crates.lowercase a.1)) = true := by
    intro a b
    rw [Bool.or_eq_true, decide_eq_true_eq, decide_eq_true_eq]
    exact le_total _ _
  have hsorted := List.pairwise_mergeSort htrans htotal
    (entries.map fun entry => (displayName entry, entry))
  simp only [decide_eq_true_eq] at hsorted
  exact hsorted

/-- What the command does with the entries that match. `rows` is the order of
its output. -/
structure CodesRun (crates : Crates DeviceError) (hits : List Entry) (single : Bool)
    (tr : List (Event (Answer DeviceError IoError))) (o : Option (Except (Failure IoError) Unit)) :
    Prop where
  neverPanics : o ≠ some (.error .panicked)
  /-- Without the single match that is asked for, nothing is calculated. -/
  refused : single = true → hits.length ≠ 1 → tr = [] ∧ ∃ text, o = some (.error (.message text))
  rows : (sortedRows crates hits).Perm (hits.map fun entry => (displayName entry, entry)) ∧
    (sortedRows crates hits).Pairwise fun a b => crates.lowercase a.1 ≤ crates.lowercase b.1
  once : (calculated tr).Sublist ((sortedRows crates hits).map fun row => row.2.name)
  turn : ∀ pre credential challenge format answer post,
    tr = pre ++ ⟨.calculate credential challenge format, answer⟩ :: post →
    Turn single (hits.length = 1) (longestName (sortedRows crates hits)) (sortedRows crates hits) pre
      credential challenge format
  /-- Otherwise the rows are printed in their order, each with the code of its
  own calculation; all of them when the command returns. -/
  order : (single = true → hits.length = 1) → ∃ done rest front tail,
    sortedRows crates hits = done ++ rest ∧ tr = front ++ tail ∧
    Printed crates single (hits.length = 1) (longestName (sortedRows crates hits)) done front ∧
    Pending crates single (hits.length = 1) (longestName (sortedRows crates hits)) rest tail o
  stops : ∀ pre event post, tr = pre ++ event :: post → Failed event →
    post = [] ∧ ∃ e, o = some (.error e)

/-- The single match that is asked for does not exist. -/
theorem CodesRun.of_refused {hits : List Entry} {single : Bool} {text : List Char}
    (hsingle : single = true) (hhits : hits.length ≠ 1) :
    @CodesRun DeviceError IoError crates hits single [] (some (.error (.message text))) where
  neverPanics := by simp
  refused _ _ := ⟨rfl, text, rfl⟩
  rows := ⟨sortedRows_perm hits, sortedRows_pairwise hits⟩
  once := List.nil_sublist _
  turn := by
    intro pre credential challenge format answer post htr
    simp at htr
  order hone := absurd (hone hsingle) hhits
  stops := by
    intro pre event post htr
    simp at htr

theorem CodesRun.of_rowsRun {hits : List Entry} {single : Bool}
    {o : Option (Except (Failure IoError) Unit)} (hone : single = true → hits.length = 1)
    (h : RowsRun crates single (hits.length = 1) (longestName (sortedRows crates hits))
      (sortedRows crates hits) tr o) : CodesRun crates hits single tr o where
  neverPanics := h.neverPanics
  refused hsingle hhits := absurd (hone hsingle) hhits
  rows := ⟨sortedRows_perm hits, sortedRows_pairwise hits⟩
  once := h.once
  turn := fun _ _ _ _ _ _ htr => h.turn htr
  order _ := h.order
  stops := fun _ _ _ htr => h.stops htr

/-- `accounts_code` lists the credentials and then, for every behaviour of the
device and the output: calculates each match at most once, as it is due, HOTP
only as the single match, when the rows before it are written and flushed;
writes the rows in the order of their lower-cased names, each with the code of
its calculation, and returns behind the last of them; and after a failure does
nothing more. -/
theorem accountsCode_runs (crates : Crates DeviceError) (query : List Char) (single showHidden : Bool)
    (tr : List (Event (Answer DeviceError IoError))) (o : Option (Except (Failure IoError) Unit))
    (h : Fallible.Traces (accountsCode crates query single showHidden) tr o) :
    (tr = [] ∧ o = none) ∨
      (∃ error, tr = [⟨.list, .error error⟩] ∧
        o = some (.error (.message (crates.describeOath error)))) ∨
      ∃ entries rest, tr = ⟨.list, .ok entries⟩ :: rest ∧
        CodesRun crates (search crates.lowercase entries query showHidden) single rest o := by
  rcases traces_ask_bind_iff.mp h with ⟨rfl, rfl⟩ | ⟨answer, rest, rfl, hanswer⟩
  · exact .inl ⟨rfl, rfl⟩
  rcases hanswer with ⟨e, he, rfl, rfl⟩ | ⟨entries, hentries, hrest⟩
  · rcases answer with error | entries
    · cases he
      exact .inr (.inl ⟨error, rfl, rfl⟩)
    · cases he
  rcases answer with error | listed
  · cases hentries
  have hlisted : listed = entries := Except.ok.inj hentries
  subst hlisted
  refine .inr (.inr ⟨listed, rest, rfl, ?_⟩)
  dsimp only at hrest
  split at hrest
  · rename_i hrefused
    obtain ⟨rfl, rfl⟩ := Fallible.traces_throw_iff.mp hrest
    exact .of_refused hrefused.1 hrefused.2
  · rename_i hmatch
    have hone : single = true →
        (search crates.lowercase listed query showHidden).length = 1 := by
      intro hsingle
      by_contra hhits
      exact hmatch ⟨hsingle, hhits⟩
    split at hrest
    · rename_i hnone
      obtain ⟨rfl, rfl⟩ := Fallible.traces_pure_iff.mp hrest
      rw [hnone] at hone ⊢
      have hrows : sortedRows crates [] = [] := by
        rw [sortedRows, List.map_nil, List.mergeSort_nil]
      exact .of_rowsRun hone (hrows ▸ .finished)
    · exact .of_rowsRun hone (rowsRun (fun entry evs r => codeRun r) hrest)

end Command

namespace Fixture

def alpha : Entry := ⟨⟨[0x61, 0x6c, 0x70, 0x68, 0x61], by decide, by decide⟩, 0x21⟩
def beta : Entry := ⟨⟨[0x62, 0x65, 0x74, 0x61], by decide, by decide⟩, 0x21⟩

def crates : Crates (List Char) where
  lowercase := List.map Char.toLower
  describeOath error := error
  describeCalculation error _ := error

/-- The device is disconnected after the first code. -/
def oracle : (q : Request) → Option (Answer (List Char) Unit q)
  | .list => some (.ok [beta, alpha])
  | .now => some (some 59)
  | .notice _ => some ()
  | .calculate credential challenge _ => some <|
    if credential.name = alpha.name ∧ challenge = some [0, 0, 0, 0, 0, 0, 0, 1] then
      .ok ⟨.truncated [0, 1, 0xe2, 0x40], some [0x31, 0x32, 0x33, 0x34, 0x35, 0x36]⟩
    else .error "device disconnected".toList
  | .write _ => some (.ok ())
  | .flush => some (.ok ())

def run : List (Event (Answer (List Char) Unit)) × Option (Except (Failure Unit) Unit) :=
  Prog.against oracle (accountsCode crates ['A'] false false)

theorem sortedRows_swaps : sortedRows crates [beta, alpha] =
    [("alpha".toList, alpha), ("beta".toList, beta)] := by
  have hbeta : displayName beta = "beta".toList := by decide
  have halpha : displayName alpha = "alpha".toList := by decide
  have hearlier : crates.lowercase "alpha".toList < crates.lowercase "beta".toList := by
    decide
  rw [sortedRows, List.map_cons, List.map_cons, List.map_nil, hbeta, halpha]
  simpa [List.mergeSort, List.merge] using hearlier

/-- The run behind the list of the device. -/
theorem run_eq : run =
    (⟨.list, .ok [beta, alpha]⟩ ::
        ((writeRows false 5 (entryCode crates false)
          [("alpha".toList, alpha), ("beta".toList, beta)]).against oracle).1,
      ((writeRows false 5 (entryCode crates false)
          [("alpha".toList, alpha), ("beta".toList, beta)]).against oracle).2) := by
  have h : run = (⟨.list, .ok [beta, alpha]⟩ ::
      ((writeAccountCodes crates [beta, alpha] false
        (entryCode crates false)).against oracle).1,
      ((writeAccountCodes crates [beta, alpha] false
        (entryCode crates false)).against oracle).2) := rfl
  rw [h, writeAccountCodes, sortedRows_swaps]
  rfl

end Fixture

/-- The code of the first row survives the failure of the second. -/
theorem accountsCode_runs_test :
    Fixture.run.1.map (fun event => event.request) =
        [.list, .notice "alpha: touch your CanoKey if it flashes...".toList, .now,
          .calculate ⟨Fixture.alpha.name, .totp, .sha1⟩ (some [0, 0, 0, 0, 0, 0, 0, 1]) .truncated,
          .write "alpha  123456\n".toList, .flush,
          .notice "beta: touch your CanoKey if it flashes...".toList, .now,
          .calculate ⟨Fixture.beta.name, .totp, .sha1⟩ (some [0, 0, 0, 0, 0, 0, 0, 1]) .truncated] ∧
      Fixture.run.2 = some (.error (.message "beta: device disconnected".toList)) ∧
      CodesRun Fixture.crates [Fixture.beta, Fixture.alpha] false Fixture.run.1.tail Fixture.run.2 := by
  refine ⟨by rw [Fixture.run_eq]; decide, by rw [Fixture.run_eq]; decide, ?_⟩
  have hlist : Fixture.run.1.head? = some ⟨.list, .ok [Fixture.beta, Fixture.alpha]⟩ := rfl
  rcases accountsCode_runs Fixture.crates ['A'] false false Fixture.run.1 Fixture.run.2
    (Trace.against Fixture.oracle _) with ⟨h, -⟩ | ⟨error, h, -⟩ | ⟨entries, rest, h, hrun⟩
  · rw [h] at hlist
    cases hlist
  · rw [h] at hlist
    cases hlist
  · rw [h] at hlist ⊢
    cases hlist
    exact hrun

end AccountCodes
