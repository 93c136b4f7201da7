import Ckman.OathUri

/-!
# Adding a credential from a URI

`accounts_uri` parses the URI, adapts counter and digits to the device, and
`add_credential` stores the credential under the name that `format_id` writes.
Reading that name back is the only way to find issuer, account and period again.
-/
namespace Oath

open Host
open Text

/-- The messages of `UriError`. -/
def UriError.message : UriError → String
  | scheme => "not an otpauth:// URI"
  | kind => "missing or unsupported OATH type (expected totp or hotp)"
  | missingName => "missing account name in the URI label"
  | missingSecret => "missing or empty secret parameter"
  | secret => "invalid base32 secret: invalid base32 encoding"
  | percentEncoding => "invalid percent-encoding"
  | algorithm => "unsupported algorithm (expected SHA1, SHA256 or SHA512)"
  | digits => "invalid digits parameter"
  | period => "invalid period parameter"
  | duplicateParameter parameter =>
    "duplicate " ++ String.ofList parameter.name ++ " parameter"
  | counter => "missing or invalid counter parameter"

structure Credential where
  name : Name
  kind : Kind
  algorithm : Algorithm
  digits : UInt8
  secret : Bytes
  requireTouch : Bool
  increasing : Bool
  initialCounter : UInt32
  deriving DecidableEq, Repr

/-- The URI counter is the next moving factor, and the device stores the
previous one. -/
def uriInitialCounter (kind : Kind) (counter : UInt32) : Except String UInt32 :=
  match kind with
  | .hotp =>
    if counter = 0 then
      .error ("HOTP URI counter=0 is unsupported: CanoKey increments before calculating; " ++
        "a nonzero next counter is required")
    else .ok (counter - 1)
  | .totp =>
    if counter ≠ 0 then .error "counter is only supported for HOTP accounts" else .ok 0

/-- Firmware does not silently replace an existing name. `listed` is what
listing the device's credentials returns. -/
def checkNewName (force : Bool) (listed : Except String (List Entry)) (id : List Char) :
    Except String Unit :=
  if force then .ok ()
  else do
    let entries ← listed
    refuse (∃ entry ∈ entries, entry.name.bytes = utf8 id)
      ("an account called '" ++ String.ofList id ++ "' already exists; delete it first")

/-- `add_credential` up to the request that it sends. -/
def addCredential (issuer : Option (List Char)) (name : List Char) (kind : Kind)
    (algorithm : Algorithm) (digits : UInt8) (period counter : UInt32) (secret : Bytes)
    (touch force : Bool) (listed : Except String (List Entry)) : Except String Credential := do
  refuse (kind = .totp ∧ period = 0) "TOTP period must be at least one second"
  refuse (kind = .totp ∧ counter ≠ 0) "counter is only supported for HOTP accounts"
  refuse (¬ (4 ≤ digits ∧ digits ≤ 8)) "digits must be between 4 and 8"
  refuse (¬ (1 ≤ secret.length ∧ secret.length ≤ 64)) "secret must be between 1 and 64 bytes"
  let id := formatId issuer name kind period
  let stored ← okOr (Name.fromBytes (utf8 id)) "name must be between 1 and 64 bytes"
  checkNewName force listed id
  pure ⟨stored, kind, algorithm, digits, secret, touch, false, counter⟩

/-- Steam issues 5-digit URIs for what is a 6-digit computation. -/
def steamDigits (parsed : OtpAuth) : UInt8 :=
  if parsed.digits = 5 ∧ parsed.issuer = some ['S', 't', 'e', 'a', 'm'] then 6 else parsed.digits

/-- `accounts_uri` for a URI that was given or entered. -/
def accountsUri (text : List Char) (touch force : Bool) (listed : Except String (List Entry)) :
    Except String Credential := do
  let parsed ← (parse text).mapError UriError.message
  let counter ← uriInitialCounter parsed.kind parsed.counter
  addCredential parsed.issuer parsed.account parsed.kind parsed.algorithm (steamDigits parsed)
    parsed.period counter parsed.secret touch force listed

/-- The stored name is the formatted one. -/
theorem addCredential_eq_ok {issuer : Option (List Char)} {name : List Char} {kind : Kind}
    {algorithm : Algorithm} {digits : UInt8} {period counter : UInt32} {secret : Bytes}
    {touch force : Bool} {listed : Except String (List Entry)} {credential : Credential}
    (h : addCredential issuer name kind algorithm digits period counter secret touch force listed =
      .ok credential) :
    credential.name.bytes = utf8 (formatId issuer name kind period) ∧ credential.kind = kind := by
  simp only [addCredential, Except.bind_eq_ok_iff, okOr_eq_ok_iff] at h
  obtain ⟨⟨⟩, -, ⟨⟩, -, ⟨⟩, -, ⟨⟩, -, stored, hs, ⟨⟩, -, h⟩ := h
  cases h
  exact ⟨Name.bytes_of_fromBytes hs, rfl⟩

theorem accountsUri_eq_ok {text : List Char} {touch force : Bool}
    {listed : Except String (List Entry)} {parsed : OtpAuth} {credential : Credential}
    (hp : parse text = .ok parsed) (h : accountsUri text touch force listed = .ok credential) :
    credential.name.bytes = utf8 (formatId parsed.issuer parsed.account parsed.kind parsed.period) ∧
      credential.kind = parsed.kind := by
  rw [accountsUri, hp] at h
  simp only [Except.mapError, Except.ok_bind, Except.bind_eq_ok_iff] at h
  obtain ⟨counter, -, h⟩ := h
  exact addCredential_eq_ok h

/-- A TOTP credential added from a URI reads back with the URI's period. Issuer
and account read back exactly when the name convention can tell them apart. -/
theorem accountsUri_reads_back {text : List Char} {touch force : Bool}
    {listed : Except String (List Entry)} {parsed : OtpAuth} {credential : Credential}
    (hp : parse text = .ok parsed) (h : accountsUri text touch force listed = .ok credential) :
    let stored := parseName credential.name.bytes credential.kind
    credential.kind = parsed.kind ∧
    (parsed.kind = .totp → stored.period = parsed.period) ∧
    (stored.issuer = parsed.issuer.filter (· ≠ []) ∧ stored.account = parsed.account ↔
      Recoverable parsed.issuer parsed.account) := by
  obtain ⟨hname, hkind⟩ := accountsUri_eq_ok hp h
  simp only [hname, hkind, parseName_formatId, true_and]
  constructor
  · intro ht
    rw [ht]
  · rw [← splitIssuer_iff, Prod.ext_iff]

namespace UriFixture

/-- `otpauth://totp/a?secret=MFRGGZDF&issuer=A:B`. -/
def colonUri : List Char :=
  uriBody ['t', 'o', 't', 'p'] ['a']
    (some [secret, ['i', 's', 's', 'u', 'e', 'r', '=', 'A', ':', 'B']])

/-- What is stored for a URI of issuer, account and the default parameters. -/
def stored (name : Name) : Credential :=
  ⟨name, .totp, .sha1, 6, [97, 98, 99, 100, 101], false, false, 0⟩

def plainName : Name := ⟨utf8 ['F', 'o', 'o', ':', 'a'], by decide, by decide⟩

def colonName : Name := ⟨utf8 ['A', ':', 'B', ':', 'a'], by decide, by decide⟩

end UriFixture

open UriFixture in
/-- `otpauth://totp/a?secret=MFRGGZDF&issuer=Foo` reads back. -/
theorem accountsUri_reads_back_plain :
    (parseName plainName.bytes .totp).period = 30 ∧
      (parseName plainName.bytes .totp).issuer = some ['F', 'o', 'o'] := by
  have h := @accountsUri_reads_back spelling.text false false (.ok []) account (stored plainName)
    (by decide) (by decide)
  exact ⟨h.2.1 rfl, (h.2.2.mpr (by decide)).1⟩

open UriFixture in
/-- An issuer with a colon reads back as the part before it. -/
theorem accountsUri_colon_issuer :
    parse colonUri = .ok { account with issuer := some ['A', ':', 'B'] } ∧
    accountsUri colonUri false false (.ok []) = .ok (stored colonName) ∧
    (parseName colonName.bytes .totp).issuer = some ['A'] ∧
    (parseName colonName.bytes .totp).account = ['B', ':', 'a'] := by
  decide

end Oath
