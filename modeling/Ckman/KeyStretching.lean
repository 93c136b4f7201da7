import Ckman.Pkcs12Calls
import Ckman.PrivateKeyFile

/-!
# Key stretching

The parsers of private key files with their password-based key derivations, and
the conversions of scrypt parameters, as requests. They return what the parsers
return, and the requests of a run show what was derived and how.
-/
namespace Pkcs12

open Keys (EncryptionScheme ScryptParams)

/-- The iteration count of a scheme with an iterated key derivation. -/
def schemeIterations : EncryptionScheme → Option Nat
  | .pbes2 (.pbkdf2 params) _ => some params.iterationCount
  | .pbes2 (.scrypt _) _ | .pbes1 _ => none

/-- A cost that the conversion of scrypt parameters is defined for. -/
def Convertible (params : ScryptParams) : Prop :=
  2 ≤ params.costParameter ∧ ∃ k, params.costParameter = 2 ^ k

/-- A scheme whose parameters are in the domain of its key derivation. -/
def Derivable : EncryptionScheme → Prop
  | .pbes1 _ => False
  | .pbes2 (.pbkdf2 params) _ => 1 ≤ params.iterationCount
  | .pbes2 (.scrypt params) _ => Convertible params

namespace Call

/-- The call derives a key from a password. -/
def derives : Call → Bool
  | .macKey .. | .decrypt .. | .decryptKey .. => true
  | _ => false

def stretches : Call → Bool
  | .scryptParams _ | .macKey .. | .decrypt .. | .decryptKey .. => true
  | _ => false

def scheme : Call → Option EncryptionScheme
  | .decrypt scheme _ _ => some scheme
  | .decryptKey encrypted _ => some encrypted.encryptionAlgorithm
  | _ => none

/-- The iteration count that the key derivation of a call is invoked with. -/
def iterations : Call → Option Nat
  | .macKey _ _ _ iterations _ => some iterations
  | q => q.scheme.bind schemeIterations

/-- The call is in the domain of the function that it calls, where that stretches keys. -/
def InDomain : Call → Prop
  | .scryptParams params => Convertible params
  | .macKey _ _ _ iterations _ => 1 ≤ iterations
  | q => ∀ scheme ∈ q.scheme, Derivable scheme

/-- A call that stretches no key has nothing to do with an encryption scheme. -/
theorem quiet {q : Call} (h : q.stretches = false) :
    q.derives = false ∧ q.scheme = none ∧ q.iterations = none ∧ q.InDomain := by
  cases q with
  | scryptParams | macKey | decrypt | decryptKey => cases h
  | pfx | authSafe | hmac | contentInfos | octets | encryptedData | encryptionScheme | safeBags | bagDer
  | encryptedKey | certBag => exact ⟨rfl, rfl, rfl, fun _ hscheme => by cases hscheme⟩

end Call

end Pkcs12

namespace Stretching

open Host Interaction
open Pem (Base64 KeyError pemDecode)
open Keys (ImportedKey EncryptionScheme EncryptedPrivateKeyInfo ScryptParams fromPkcs8 fromPkcs1
  fromSec1 privateKeyLabel encryptedLabel rsaLabel ecLabel)
open Pkcs12 (Crates MacDigest Call Convertible Derivable)
open Pkcs12.Calls (Calling call fetch orElse macKey hmacVerify converts checkScrypt
  checkEncryptionScheme parsePfx result result_bind result_orThrow result_orElse result_fetch result_ite
  result_checkEncryptionScheme result_parsePfx)

variable {Secret Point : Type}

section Program

variable (crates : Crates Secret Point) [DecidableEq Point]

def keyFromPfx (input : Bytes) (password : Option Bytes) : Calling ImportedKey := do
  let data ← parsePfx crates input password
  orElse data.key .encoding

def decryptPkcs8 (der : Bytes) (password : Option Bytes) : Calling ImportedKey := do
  let encrypted ← orElse (crates.encryptedPrivateKeyInfo der) .encoding
  checkEncryptionScheme encrypted.encryptionAlgorithm
  let password ← orElse password .password
  let decrypted ← fetch (.decryptKey encrypted password) .password
  orThrow (fromPkcs8 crates.toCrates decrypted)

/-- `match first { Err(KeyError::Encoding) => next, other => other }` -/
def orEncoding (first next : Calling ImportedKey) : Calling ImportedKey :=
  Prog.bind first fun
    | .error .encoding => next
    | other => .pure other

def parseUnlabelled (der : Bytes) (password : Option Bytes) : Calling ImportedKey :=
  orEncoding (orThrow (fromPkcs8 crates.toCrates der)) <|
    orEncoding (decryptPkcs8 crates der password) <|
      orEncoding (orThrow (Keys.orEncoding (fromPkcs1 crates.toCrates der) (fromSec1 crates.toCrates der)))
        (keyFromPfx crates der password)

/-- `parse_private_key` with its key derivations. -/
def parsePrivateKey (base64 : Base64) (input : Bytes) (password : Option Bytes) :
    Calling ImportedKey := do
  let (label, der) ← orThrow (pemDecode base64 input [privateKeyLabel, encryptedLabel, rsaLabel, ecLabel])
  if label = encryptedLabel then decryptPkcs8 crates der password
  else if label = rsaLabel then orThrow (fromPkcs1 crates.toCrates der)
  else if label = ecLabel then orThrow (fromSec1 crates.toCrates der)
  else parseUnlabelled crates der password

end Program

section Result

variable {crates : Crates Secret Point} [DecidableEq Point]

@[simp] theorem result_decryptPkcs8 (der : Bytes) (password : Option Bytes) :
    result crates (decryptPkcs8 crates der password) =
      Keys.decryptPkcs8 crates.toCrates der password := by
  simp only [decryptPkcs8, result_bind, result_orThrow, result_orElse, result_fetch,
    result_checkEncryptionScheme]
  rfl

omit [DecidableEq Point] in
@[simp] theorem result_orEncoding (first next : Calling ImportedKey) :
    result crates (orEncoding first next) =
      Keys.orEncoding (result crates first) (result crates next) := by
  refine (Prog.eval_bind crates.answer first _).trans ?_
  change Prog.eval crates.answer _ = Keys.orEncoding (Prog.eval crates.answer first) _
  cases Prog.eval crates.answer first with
  | ok key => rfl
  | error e => cases e <;> rfl

/-- The program with requests is the parser. -/
theorem result_parsePrivateKey (base64 : Base64) (input : Bytes) (password : Option Bytes) :
    result crates (parsePrivateKey crates base64 input password) =
      Keys.parsePrivateKey base64 crates input password := by
  simp only [parsePrivateKey, parseUnlabelled, keyFromPfx, result_bind, result_orThrow, result_ite,
    result_orEncoding, result_decryptPkcs8, result_parsePfx, result_orElse]
  rfl

end Result

section Requests

variable {crates : Crates Secret Point} {α β : Type} {P : Call → Prop}

variable (crates) in
def requests (p : Calling α) : List Call := Prog.requests crates.answer p

variable (crates) in
/-- A call with the property is made in that run. -/
def Asks (P : Call → Prop) (p : Calling α) : Prop := ∃ q ∈ requests crates p, P q

@[simp] theorem asks_bind {p : Calling α} {f : α → Calling β} :
    Asks crates P (p >>= f) ↔
      Asks crates P p ∨ ∃ a, result crates p = .ok a ∧ Asks crates P (f a) := by
  constructor
  · rintro ⟨q, hq, hP⟩
    obtain hq | ⟨a, ha, hq⟩ := Fallible.mem_requests_bind.mp hq
    · exact .inl ⟨q, hq, hP⟩
    · exact .inr ⟨a, ha, q, hq, hP⟩
  · rintro (⟨q, hq, hP⟩ | ⟨a, ha, q, hq, hP⟩)
    · exact ⟨q, Fallible.mem_requests_bind.mpr (.inl hq), hP⟩
    · exact ⟨q, Fallible.mem_requests_bind.mpr (.inr ⟨a, ha, hq⟩), hP⟩

@[simp] theorem asks_orThrow (r : Except KeyError α) : ¬ Asks crates P (orThrow r) := by
  rintro ⟨q, hq, -⟩
  cases hq

@[simp] theorem asks_pure (a : α) : ¬ Asks crates P (pure a : Calling α) := asks_orThrow (.ok a)

@[simp] theorem asks_orElse (o : Option α) (error : KeyError) : ¬ Asks crates P (orElse o error) :=
  asks_orThrow _

@[simp] theorem asks_call (q : Call) : Asks crates P (call q) ↔ P q := by
  constructor
  · rintro ⟨q', hq, hP⟩
    obtain rfl := List.mem_singleton.mp hq
    exact hP
  · exact fun hP => ⟨q, List.mem_singleton_self q, hP⟩

@[simp] theorem asks_fetch {q : Call} {error : KeyError} {h : q.Answer = Option α} :
    Asks crates P (fetch q error h) ↔ P q := by
  simp only [fetch, asks_bind, asks_call, asks_orElse, and_false, exists_false, or_false]

@[simp] theorem asks_macKey (digest : MacDigest) (material salt : Bytes) (iterations outLen : Nat) :
    Asks crates P (macKey digest material salt iterations outLen) ↔
      P (.macKey digest material salt iterations outLen) := asks_call _

@[simp] theorem asks_hmacVerify (digest : MacDigest) (key data expected : Bytes) :
    Asks crates P (hmacVerify digest key data expected) ↔ P (.hmac digest key data expected) := asks_call _

@[simp] theorem asks_converts (params : ScryptParams) :
    Asks crates P (converts params) ↔ P (.scryptParams params) := asks_call _

@[simp] theorem asks_ite (c : Prop) [Decidable c] (p p' : Calling α) :
    Asks crates P (if c then p else p') ↔ if c then Asks crates P p else Asks crates P p' := by
  split_ifs <;> rfl

theorem asks_foldlM {step : α → β → Calling α} {step' : α → β → Except KeyError α}
    (h : ∀ s a, result crates (step s a) = step' s a) {items : List β} {s : α} :
    Asks crates P (items.foldlM step s) ↔
      ∃ before item after t, items = before ++ item :: after ∧ before.foldlM step' s = .ok t ∧
        Asks crates P (step t item) := by
  constructor
  · rintro ⟨q, hq, hP⟩
    obtain ⟨before, item, after, t, hitems, hbefore, hq⟩ := (Fallible.mem_requests_foldlM h).mp hq
    exact ⟨before, item, after, t, hitems, hbefore, q, hq, hP⟩
  · rintro ⟨before, item, after, t, hitems, hbefore, q, hq, hP⟩
    exact ⟨q, (Fallible.mem_requests_foldlM h).mpr ⟨before, item, after, t, hitems, hbefore, hq⟩, hP⟩

/-- The second parser runs when the first one does not know the encoding. -/
@[simp] theorem asks_orEncoding {first next : Calling ImportedKey} :
    Asks crates P (orEncoding first next) ↔ Asks crates P first ∨
      result crates first = .error .encoding ∧ Asks crates P next := by
  have hsplit : requests crates (orEncoding first next) = requests crates first ++
      Prog.requests crates.answer (match result crates first with
        | .error .encoding => next
        | other => Prog.pure other) := Prog.requests_bind crates.answer first _
  have hnone : ∀ r : Except KeyError ImportedKey, Prog.requests crates.answer
      (Prog.pure r : Prog Call.Answer (Except KeyError ImportedKey)) = [] := fun _ => rfl
  simp only [Asks, hsplit, List.mem_append, or_and_right, exists_or]
  refine or_congr_right ?_
  cases result crates first with
  | ok key => simp [hnone]
  | error e => cases e <;> simp [hnone, requests]

theorem convertible_of_not {params : ScryptParams} (h : ¬ (params.costParameter < 2 ∨
    2 ^ Nat.log2 params.costParameter ≠ params.costParameter)) : Convertible params := by
  rw [not_or, not_not] at h
  exact ⟨by omega, _, h.2.symm⟩

theorem derivable_of_check {scheme : EncryptionScheme}
    (h : Keys.checkEncryptionScheme crates.toCrates scheme = .ok ()) : Derivable scheme := by
  cases scheme with
  | pbes1 parameters => cases h
  | pbes2 kdf encryption =>
    obtain ⟨_, -, h⟩ := Except.bind_eq_ok_iff.mp h
    cases kdf with
    | pbkdf2 params => exact Nat.one_le_iff_ne_zero.mpr (refuse_eq_ok_iff.mp h)
    | scrypt params =>
      obtain ⟨_, hcost, -⟩ := Except.bind_eq_ok_iff.mp h
      exact convertible_of_not (refuse_eq_ok_iff.mp hcost)

/-- The check of a scheme converts scrypt parameters at most. -/
theorem asks_checkEncryptionScheme {scheme : EncryptionScheme}
    (h : Asks crates P (checkEncryptionScheme scheme)) :
    ∃ params, Convertible params ∧ P (.scryptParams params) := by
  cases scheme with
  | pbes1 parameters => exact absurd h (asks_orThrow _)
  | pbes2 kdf encryption =>
    simp only [checkEncryptionScheme, asks_bind, asks_orThrow, false_or] at h
    obtain ⟨_, -, h⟩ := h
    cases kdf with
    | pbkdf2 params => exact absurd h (asks_orThrow _)
    | scrypt params =>
      simp only [checkScrypt, asks_bind, asks_orThrow, asks_converts, result_orThrow,
        refuse_eq_ok_iff, and_false, exists_false, or_false, false_or] at h
      obtain ⟨_, hcost, hP⟩ := h
      exact ⟨params, convertible_of_not hcost, hP⟩

end Requests

end Stretching
