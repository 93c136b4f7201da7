import Ckman.Host
import Ckman.Text
import Mathlib.Data.List.Infix

/-!
# Credential names

`parse_name` and `format_id` read and write the shared display convention
`[period/][issuer:]account`, and `accounts_rename` moves a stored credential to
a new name under it. The prefixes can also occur inside an issuer or account.
-/
namespace Oath

open Host
open Text

inductive Kind where
  | hotp | totp
  deriving DecidableEq, Repr

def defaultPeriod : UInt32 := 30

structure ParsedName where
  issuer : Option (List Char)
  account : List Char
  period : UInt32
  deriving DecidableEq, Repr

/-- `!head.is_empty() && head.bytes().all(|b| b.is_ascii_digit())`. -/
def isNumeric (head : List Char) : Bool := head ≠ [] ∧ head.all Char.isDigit

/-- The optional `period/` prefix of a TOTP name. -/
def splitPeriod (text : List Char) : UInt32 × List Char :=
  match splitOnce '/' text with
  | some (head, tail) =>
    if isNumeric head then
      match parseUnsigned (2 ^ 32 - 1) head with
      | some parsed => (UInt32.ofNat parsed, tail)
      | none => (defaultPeriod, text)
    else (defaultPeriod, text)
  | none => (defaultPeriod, text)

/-- The optional `issuer:` prefix. -/
def splitIssuer (rest : List Char) : Option (List Char) × List Char :=
  if rest.head? = some ':' then (none, rest)
  else
    match splitOnce ':' rest with
    | some (head, tail) => (some head, tail)
    | none => (none, rest)

def parseName (raw : Bytes) (kind : Kind) : ParsedName :=
  let text := fromUtf8Lossy raw
  let (period, rest) := match kind with
    | .totp => splitPeriod text
    | .hotp => (0, text)
  let (issuer, account) := splitIssuer rest
  ⟨issuer, account, period⟩

def issuerAccount (issuer : Option (List Char)) (account : List Char) : List Char :=
  match issuer.filter (· ≠ []) with
  | some issuer => issuer ++ ':' :: account
  | none => account

/-- A numeric prefix that belongs to the issuer or account itself. -/
def ambiguous (id : List Char) : Bool :=
  match splitOnce '/' id with
  | some (head, _) => isNumeric head
  | none => false

/-- Format the on-device credential name for the shared convention. -/
def formatId (issuer : Option (List Char)) (account : List Char) (kind : Kind)
    (period : UInt32) : List Char :=
  let id := issuerAccount issuer account
  if kind = .totp ∧ (period ≠ defaultPeriod ∨ ambiguous id) then
    decimal period.toNat ++ '/' :: id
  else id

/-- A credential name of the device, between 1 and 64 bytes. -/
structure Name where
  bytes : Bytes
  nonempty : 1 ≤ bytes.length
  fits : bytes.length ≤ 64
  deriving DecidableEq, Repr

/-- `Name::from_bytes`. -/
def Name.fromBytes (bytes : Bytes) : Option Name :=
  if h : 1 ≤ bytes.length ∧ bytes.length ≤ 64 then some ⟨bytes, h.1, h.2⟩ else none

theorem Name.bytes_of_fromBytes {bytes : Bytes} {name : Name}
    (h : Name.fromBytes bytes = some name) : name.bytes = bytes := by
  rw [Name.fromBytes] at h
  split_ifs at h
  rw [← Option.some.inj h]

structure Entry where
  name : Name
  algorithmType : UInt8
  deriving DecidableEq, Repr

/-- Credential type decoded from the high nibble of the algorithm/type octet. -/
def kindOf (entry : Entry) : Option Kind :=
  match entry.algorithmType >>> 4 with
  | 1 => some .hotp
  | 2 => some .totp
  | _ => none

def displayName (entry : Entry) : List Char := fromUtf8Lossy entry.name.bytes

/-- The loop of `search`; `lowercase` is `str::to_lowercase`. -/
def searchLoop (lowercase : List Char → List Char) (query : List Char) (showHidden : Bool)
    (hits : List Entry) : List Entry → List Entry
  | [] => hits
  | entry :: entries =>
    let parsed := parseName entry.name.bytes ((kindOf entry).getD .totp)
    if !showHidden ∧ parsed.issuer = some "_hidden".toList then
      searchLoop lowercase query showHidden hits entries
    -- Only raw byte equality may override the other substring matches.
    else if entry.name.bytes = utf8 query then [entry]
    else if lowercase query <:+: lowercase (displayName entry) then
      searchLoop lowercase query showHidden (hits ++ [entry]) entries
    else searchLoop lowercase query showHidden hits entries

def search (lowercase : List Char → List Char) (entries : List Entry) (query : List Char)
    (showHidden : Bool) : List Entry :=
  searchLoop lowercase query showHidden [] entries

def multipleHits (hits : List Entry) : String :=
  hits.foldl (fun message hit => message ++ "\n  " ++ String.ofList (displayName hit))
    "multiple matches, make the query more specific:"

/-- `name.split_once(':')` of the new name. -/
def newIssuerAccount (name : List Char) : Option (List Char) × List Char :=
  match splitOnce ':' name with
  | some (issuer, account) => (some issuer, account)
  | none => (none, name)

/-- The prompt's answer, which `force` replaces. -/
def confirmed (force : Bool) (answer : Except String Bool) : Except String Bool :=
  if force then .ok true else answer

/-- `accounts_rename` from the listed entries on: the old and new names that it
sends to the device. `answer` is what the confirmation prompt returned. -/
def accountsRename (lowercase : List Char → List Char) (entries : List Entry)
    (query name : List Char) (force : Bool) (answer : Except String Bool) :
    Except String (Name × Name) := do
  match search lowercase entries query true with
  | [] => throw "no matches, nothing to be done"
  | [entry] =>
    let kind ← okOr (kindOf entry) "unsupported credential type octet"
    let parsed := parseName entry.name.bytes kind
    let (issuer, account) := newIssuerAccount name
    let newId := formatId issuer account kind parsed.period
    refuse (∃ other ∈ entries, other.name.bytes = utf8 newId)
      ("another account with ID " ++ String.ofList newId ++ " already exists on this CanoKey")
    let approved ← confirmed force answer
    refuse (approved = false) "rename aborted"
    -- `Name::from_bytes` on the bytes of a name gives the name back.
    let new ← okOr (Name.fromBytes (utf8 newId)) "name must be between 1 and 64 bytes"
    pure (entry.name, new)
  | hits => throw (multipleHits hits)

theorem splitPeriod_prefixed (period : UInt32) (id : List Char) :
    splitPeriod (decimal period.toNat ++ '/' :: id) = (period, id) := by
  have hslash : '/' ∉ decimal period.toNat := by
    intro h
    exact absurd (isDigit_of_mem_decimal h) (by decide)
  have hnumeric : isNumeric (decimal period.toNat) := by
    simp only [isNumeric, decide_eq_true_eq, List.all_eq_true]
    exact ⟨decimal_ne_nil _, fun c hc => isDigit_of_mem_decimal hc⟩
  have hfits : period.toNat ≤ 2 ^ 32 - 1 := Nat.le_sub_one_of_lt period.toNat_lt
  simp only [splitPeriod, splitOnce_append hslash, if_pos hnumeric, parseUnsigned_decimal hfits,
    UInt32.ofNat_toNat]

theorem splitPeriod_unambiguous {id : List Char} (h : ambiguous id = false) :
    splitPeriod id = (defaultPeriod, id) := by
  rw [ambiguous] at h
  rw [splitPeriod]
  cases hs : splitOnce '/' id with
  | none => rfl
  | some parts =>
    simp only [hs] at h
    simp only [h, Bool.false_eq_true, if_false]

/-- The period that a TOTP name is formatted with is read back, and what is left
is the name without it. -/
theorem splitPeriod_formatId (issuer : Option (List Char)) (account : List Char)
    (period : UInt32) :
    splitPeriod (formatId issuer account .totp period) = (period, issuerAccount issuer account) := by
  by_cases h : period ≠ defaultPeriod ∨ ambiguous (issuerAccount issuer account)
  · simp only [formatId, true_and, if_pos h, splitPeriod_prefixed]
  · obtain ⟨hp, ha⟩ := not_or.mp h
    obtain rfl : period = defaultPeriod := not_not.mp hp
    simp only [formatId, true_and, if_neg h]
    exact splitPeriod_unambiguous (Bool.not_eq_true _ ▸ ha)

theorem formatId_hotp (issuer : Option (List Char)) (account : List Char) (period : UInt32) :
    formatId issuer account .hotp period = issuerAccount issuer account := by
  simp [formatId]

/-- The name that the device stores is read as the period, when it has one, and
then the issuer and account. -/
theorem parseName_formatId (issuer : Option (List Char)) (account : List Char) (kind : Kind)
    (period : UInt32) :
    parseName (utf8 (formatId issuer account kind period)) kind =
      ⟨(splitIssuer (issuerAccount issuer account)).1,
        (splitIssuer (issuerAccount issuer account)).2,
        match kind with | .totp => period | .hotp => 0⟩ := by
  cases kind with
  | totp => simp only [parseName, fromUtf8Lossy_utf8, splitPeriod_formatId]
  | hotp => simp only [parseName, fromUtf8Lossy_utf8, formatId_hotp]

/-- The issuers and accounts that the convention can tell apart. -/
def Recoverable (issuer : Option (List Char)) (account : List Char) : Prop :=
  match issuer.filter (· ≠ []) with
  | some issuer => ':' ∉ issuer
  | none => ':' ∉ account ∨ account.head? = some ':'

instance (issuer : Option (List Char)) (account : List Char) :
    Decidable (Recoverable issuer account) :=
  match h : issuer.filter (· ≠ []) with
  | some i => decidable_of_iff (':' ∉ i) (by simp only [Recoverable, h])
  | none => decidable_of_iff (':' ∉ account ∨ account.head? = some ':')
      (by simp only [Recoverable, h])

theorem splitIssuer_append {issuer : List Char} (hne : issuer ≠ []) (hc : ':' ∉ issuer)
    (account : List Char) : splitIssuer (issuer ++ ':' :: account) = (some issuer, account) := by
  have hhead : (issuer ++ ':' :: account).head? ≠ some ':' := by
    cases issuer with
    | nil => exact absurd rfl hne
    | cons c cs =>
      intro h
      obtain rfl : c = ':' := by simpa using h
      exact hc List.mem_cons_self
  rw [splitIssuer, if_neg hhead, splitOnce_append hc]

/-- An issuer is read without colons. -/
theorem not_mem_of_splitIssuer {rest issuer account : List Char}
    (h : splitIssuer rest = (some issuer, account)) : ':' ∉ issuer := by
  rw [splitIssuer] at h
  split_ifs at h
  · cases h
  · cases hs : splitOnce ':' rest with
    | none => simp [hs] at h
    | some parts =>
      simp only [hs, Prod.mk.injEq, Option.some.injEq] at h
      obtain ⟨rfl, rfl⟩ := h
      exact (splitOnce_eq_some_iff.mp hs).2

/-- The rest of a name has no issuer when no colon can end one. -/
theorem splitIssuer_eq_none_iff {rest : List Char} :
    splitIssuer rest = (none, rest) ↔ ':' ∉ rest ∨ rest.head? = some ':' := by
  rw [splitIssuer]
  by_cases hh : rest.head? = some ':'
  · simp [hh]
  · rw [if_neg hh]
    cases hs : splitOnce ':' rest with
    | none => simp [splitOnce_eq_none_iff.mp hs]
    | some parts =>
      obtain ⟨heq, -⟩ := splitOnce_eq_some_iff.mp hs
      have hmem : ':' ∈ rest := by
        rw [heq]
        exact List.mem_append_right _ List.mem_cons_self
      simp [hmem, hh]

theorem issuerAccount_some {issuer : List Char} (hne : issuer ≠ []) (account : List Char) :
    issuerAccount (some issuer) account = issuer ++ ':' :: account := by
  have hf : (some issuer).filter (· ≠ []) = some issuer :=
    Option.filter_eq_some_iff.mpr ⟨rfl, by simpa using hne⟩
  rw [issuerAccount, hf]

/-- Issuer and account together are the whole rest. -/
theorem issuerAccount_splitIssuer (rest : List Char) :
    issuerAccount (splitIssuer rest).1 (splitIssuer rest).2 = rest := by
  rw [splitIssuer]
  by_cases hh : rest.head? = some ':'
  · rw [if_pos hh]
    rfl
  · rw [if_neg hh]
    cases hs : splitOnce ':' rest with
    | none => rfl
    | some parts =>
      obtain ⟨heq, -⟩ := splitOnce_eq_some_iff.mp hs
      have hne : parts.1 ≠ [] := by
        rintro hnil
        rw [hnil, List.nil_append] at heq
        exact hh (by rw [heq]; rfl)
      rw [issuerAccount_some hne, ← heq]

/-- Issuer and account are recovered exactly when the convention can tell them
apart. -/
theorem splitIssuer_iff (issuer : Option (List Char)) (account : List Char) :
    splitIssuer (issuerAccount issuer account) = (issuer.filter (· ≠ []), account) ↔
      Recoverable issuer account := by
  cases hi : issuer.filter (· ≠ []) with
  | none =>
    simp only [issuerAccount, Recoverable, hi]
    exact splitIssuer_eq_none_iff
  | some i =>
    have hne : i ≠ [] := by
      have := (Option.filter_eq_some_iff.mp hi).2
      simpa using this
    simp only [issuerAccount, Recoverable, hi]
    exact ⟨not_mem_of_splitIssuer, fun hc => splitIssuer_append hne hc account⟩

theorem searchLoop_subset (lowercase : List Char → List Char) (query : List Char)
    (showHidden : Bool) (entries : List Entry) : ∀ (hits : List Entry) (entry : Entry),
      entry ∈ searchLoop lowercase query showHidden hits entries →
        entry ∈ hits ∨ entry ∈ entries := by
  induction entries with
  | nil =>
    intro hits entry h
    exact .inl h
  | cons e entries ih =>
    intro hits entry h
    have later : ∀ hits, entry ∈ searchLoop lowercase query showHidden hits entries →
        entry ∈ hits ∨ entry ∈ e :: entries := by
      intro hits h
      exact (ih hits entry h).imp id (List.mem_cons_of_mem e)
    simp only [searchLoop] at h
    split_ifs at h with hhidden hexact hpart
    · exact later hits h
    · exact .inr (List.mem_singleton.mp h ▸ List.mem_cons_self)
    · rcases later _ h with hm | hm
      · rcases List.mem_append.mp hm with hm | hm
        · exact .inl hm
        · exact .inr (List.mem_singleton.mp hm ▸ List.mem_cons_self)
      · exact .inr hm
    · exact later hits h

/-- What a rename that reaches the device does: the old name is one of the
listed ones, and the new name is formatted with the period that the old has. -/
theorem accountsRename_eq_ok {lowercase : List Char → List Char} {entries : List Entry}
    {query name : List Char} {force : Bool} {answer : Except String Bool} {old new : Name}
    (h : accountsRename lowercase entries query name force answer = .ok (old, new)) :
    ∃ entry ∈ entries, entry.name = old ∧ ∃ kind, kindOf entry = some kind ∧
      new.bytes = utf8 (formatId (newIssuerAccount name).1 (newIssuerAccount name).2 kind
        (parseName old.bytes kind).period) := by
  rw [accountsRename] at h
  have hsub : ∀ entry ∈ search lowercase entries query true, entry ∈ entries := by
    intro entry he
    exact (searchLoop_subset lowercase query true entries [] entry he).resolve_left (by simp)
  rcases hs : search lowercase entries query true with _ | ⟨entry, _ | ⟨other, rest⟩⟩
  · simp [hs] at h
  · rw [hs] at h hsub
    simp only [Except.bind_eq_ok_iff, okOr_eq_ok_iff, refuse_eq_ok_iff] at h
    obtain ⟨kind, hk, ⟨⟩, -, approved, -, ⟨⟩, -, n, hn, heq⟩ := h
    obtain ⟨rfl, rfl⟩ : entry.name = old ∧ n = new := by
      simpa only [pure, Except.pure, Except.ok.injEq, Prod.mk.injEq] using heq
    refine ⟨entry, hsub entry List.mem_cons_self, rfl, kind, hk, ?_⟩
    exact Name.bytes_of_fromBytes hn
  · simp [hs] at h

/-- The name convention. A TOTP name gives back the period it was formatted
with; names of either kind give back an issuer and account that the convention
can tell apart; every character of an HOTP name belongs to the issuer and
account; and a rename keeps the period, whatever the stored name is. -/
theorem name_convention :
    (∀ issuer account period,
      (parseName (utf8 (formatId issuer account .totp period)) .totp).period = period) ∧
    (∀ kind issuer account period, Recoverable issuer account →
      (parseName (utf8 (formatId issuer account kind period)) kind).issuer =
          issuer.filter (· ≠ []) ∧
        (parseName (utf8 (formatId issuer account kind period)) kind).account = account) ∧
    (∀ raw, (parseName raw .hotp).period = 0 ∧
      issuerAccount (parseName raw .hotp).issuer (parseName raw .hotp).account =
        fromUtf8Lossy raw) ∧
    ∀ lowercase entries query name force answer old new,
      accountsRename lowercase entries query name force answer = .ok (old, new) →
      ∃ entry ∈ entries, entry.name = old ∧ ∃ kind, kindOf entry = some kind ∧
        (parseName new.bytes kind).period = (parseName old.bytes kind).period := by
  refine ⟨?_, ?_, ?_, ?_⟩
  · intro issuer account period
    rw [parseName_formatId]
  · intro kind issuer account period h
    rw [parseName_formatId, (splitIssuer_iff issuer account).mpr h]
    exact ⟨rfl, rfl⟩
  · intro raw
    exact ⟨rfl, issuerAccount_splitIssuer (fromUtf8Lossy raw)⟩
  · intro lowercase entries query name force answer old new h
    obtain ⟨entry, hmem, rfl, kind, hk, hnew⟩ := accountsRename_eq_ok h
    refine ⟨entry, hmem, rfl, kind, hk, ?_⟩
    rw [hnew, parseName_formatId]
    cases kind with
    | totp => rfl
    | hotp => rfl

def testEntry : Entry := ⟨⟨utf8 "60/Example:alice".toList, by decide, by decide⟩, 0x21⟩

/-- An account of issuer `60/Example`, and a rename of a 60-second credential. -/
theorem name_convention_numeric :
    (parseName (utf8 (formatId (some "60/Example".toList) "a:b".toList .totp 30)) .totp).issuer =
        some "60/Example".toList ∧
    ∃ entry ∈ [testEntry], entry.name = testEntry.name ∧ ∃ kind, kindOf entry = some kind ∧
      (parseName (utf8 "60/30/bob".toList) kind).period =
        (parseName testEntry.name.bytes kind).period :=
  ⟨(name_convention.2.1 .totp (some "60/Example".toList) "a:b".toList 30 (by decide)).1,
    name_convention.2.2.2 id [testEntry] "alice".toList "30/bob".toList true (.ok true)
      testEntry.name ⟨utf8 "60/30/bob".toList, by decide, by decide⟩ (by decide)⟩

end Oath
