import Ckman.OathName
import Ckman.Percent
import Mathlib.Data.List.Perm.Basic

/-!
# `otpauth` URIs

The parser of `otpauth://` URIs. It splits the raw text at `/`, `?`, `&` and
the first `=`, and decodes what lies between; the label is split at its colon
only after that, and parameters are told apart by their decoded names.
-/
namespace Oath

open Host
open Text

inductive Algorithm where
  | sha1 | sha256 | sha512
  deriving DecidableEq, Repr

/-- Credential data parsed from an `otpauth://` URI. -/
structure OtpAuth where
  kind : Kind
  issuer : Option (List Char)
  account : List Char
  secret : Bytes
  algorithm : Algorithm
  digits : UInt8
  period : UInt32
  counter : UInt32
  deriving DecidableEq, Repr

inductive Parameter where
  | secret | issuer | algorithm | digits | period | counter
  deriving DecidableEq, Repr

inductive UriError where
  | scheme
  | kind
  | missingName
  | missingSecret
  | secret
  | percentEncoding
  | algorithm
  | digits
  | period
  | duplicateParameter (parameter : Parameter)
  | counter
  deriving DecidableEq, Repr

def base32Value (byte : UInt8) : Option UInt8 :=
  if 65 ≤ byte ∧ byte ≤ 90 then some (byte - 65)
  else if 97 ≤ byte ∧ byte ≤ 122 then some (byte - 97)
  else if 50 ≤ byte ∧ byte ≤ 55 then some (byte - 50 + 26)
  else none

/-- The loop of `base32_decode`, with what it checks of the last bits. Bits that
are shifted out of the accumulator are lost. -/
def base32Loop (accumulator : UInt32) (bits : Nat) (output : Bytes) :
    Bytes → Except UriError Bytes
  | [] =>
    if 5 ≤ bits ∨ accumulator &&& ((1 <<< UInt32.ofNat bits) - 1) ≠ 0 then .error .secret
    else .ok output
  | byte :: rest =>
    -- Padding and spaces are ignored.
    if byte = 0x3d ∨ byte = 0x20 then base32Loop accumulator bits output rest
    else
      match base32Value byte with
      | none => .error .secret
      | some value =>
        let accumulator := (accumulator <<< 5) ||| value.toUInt32
        let bits := bits + 5
        if 8 ≤ bits then
          base32Loop accumulator (bits - 8)
            (output ++ [(accumulator >>> UInt32.ofNat (bits - 8)).toUInt8]) rest
        else base32Loop accumulator bits output rest

def base32Decode (input : List Char) : Except UriError Bytes := base32Loop 0 0 [] (utf8 input)

def Parameter.name : Parameter → List Char
  | secret => ['s', 'e', 'c', 'r', 'e', 't']
  | issuer => ['i', 's', 's', 'u', 'e', 'r']
  | algorithm => ['a', 'l', 'g', 'o', 'r', 'i', 't', 'h', 'm']
  | digits => ['d', 'i', 'g', 'i', 't', 's']
  | period => ['p', 'e', 'r', 'i', 'o', 'd']
  | counter => ['c', 'o', 'u', 'n', 't', 'e', 'r']

/-- `PARAMETERS`. -/
def parameters : List Parameter := [.secret, .issuer, .algorithm, .digits, .period, .counter]

def Parameter.ofName (key : List Char) : Option Parameter := parameters.find? (·.name = key)

structure Fields where
  secret : Option Bytes
  issuer : Option (List Char)
  algorithm : Algorithm
  digits : UInt8
  period : UInt32
  counter : Option UInt32
  deriving DecidableEq, Repr

inductive Update where
  | secret (bytes : Bytes)
  | issuer (text : List Char)
  | algorithm (algorithm : Algorithm)
  | digits (digits : UInt8)
  | period (period : UInt32)
  | counter (counter : UInt32)
  deriving DecidableEq, Repr

namespace Update

def parameter : Update → Parameter
  | secret _ => .secret
  | issuer _ => .issuer
  | algorithm _ => .algorithm
  | digits _ => .digits
  | period _ => .period
  | counter _ => .counter

def apply : Update → Fields → Fields
  | secret bytes, s => { s with secret := some bytes }
  | issuer text, s => { s with issuer := some text }
  | algorithm a, s => { s with algorithm := a }
  | digits n, s => { s with digits := n }
  | period n, s => { s with period := n }
  | counter n, s => { s with counter := some n }

end Update

/-- `percent_decode`. -/
def percentDecode (input : List Char) : Except UriError (List Char) :=
  okOr (Percent.decode input) .percentEncoding

def algorithmOf (name : List Char) : Option Algorithm :=
  if name = ['S', 'H', 'A', '1'] then some .sha1
  else if name = ['S', 'H', 'A', '2', '5', '6'] then some .sha256
  else if name = ['S', 'H', 'A', '5', '1', '2'] then some .sha512
  else none

/-- The branch of the `match` on a decoded parameter name. -/
def Parameter.read (value : List Char) : Parameter → Except UriError Update
  | .secret => (base32Decode value).map .secret
  | .issuer => .ok (.issuer value)
  | .algorithm => (okOr (algorithmOf (value.map Char.toUpper)) .algorithm).map .algorithm
  | .digits => do
    let digits ← okOr (parseUnsigned (2 ^ 8 - 1) value) .digits
    refuse (¬ (4 ≤ digits ∧ digits ≤ 8)) .digits
    pure (.digits (UInt8.ofNat digits))
  | .period => do
    let period ← okOr (parseUnsigned (2 ^ 32 - 1) value) .period
    refuse (period = 0) .period
    pure (.period (UInt32.ofNat period))
  | .counter => do
    let counter ← okOr (parseUnsigned (2 ^ 32 - 1) value) .counter
    pure (.counter (UInt32.ofNat counter))

/-- The query loop's variables; `seen` is the array of flags. -/
structure Scan where
  fields : Fields
  seen : Parameter → Bool

def Scan.assign (s : Scan) (parameter : Parameter) (value : List Char) : Except UriError Scan := do
  refuse (s.seen parameter = true) (.duplicateParameter parameter)
  let update ← parameter.read value
  pure ⟨update.apply s.fields, Function.update s.seen parameter true⟩

/-- `pair.split_once('=').unwrap_or((pair, ""))`. -/
def keyValue (pair : List Char) : List Char × List Char := (splitOnce '=' pair).getD (pair, [])

def Scan.pair (s : Scan) (pair : List Char) : Except UriError Scan :=
  if pair = [] then .ok s
  else do
    let key ← percentDecode (keyValue pair).1
    let value ← percentDecode (keyValue pair).2
    match Parameter.ofName key with
    | none => .ok s
    | some parameter => s.assign parameter value

def Scan.start (labelIssuer : Option (List Char)) : Scan :=
  ⟨⟨none, labelIssuer, .sha1, 6, 30, none⟩, fun _ => false⟩

/-- HOTP needs a counter, TOTP has none unless the query gives one. -/
def initialCounter (kind : Kind) : Option UInt32 → Except UriError UInt32
  | some counter => .ok counter
  | none => if kind = .hotp then .error .counter else .ok 0

/-- The checks of the returned value, in the order of its fields. -/
def finish (kind : Kind) (account : List Char) (s : Fields) : Except UriError OtpAuth := do
  let secret ← okOr (s.secret.filter (· ≠ [])) .missingSecret
  let counter ← initialCounter kind s.counter
  pure ⟨kind, s.issuer, account, secret, s.algorithm, s.digits, s.period, counter⟩

def kindOfName (name : List Char) : Option Kind :=
  if name = ['t', 'o', 't', 'p'] then some .totp
  else if name = ['h', 'o', 't', 'p'] then some .hotp
  else none

/-- The decoded label as `[issuer:]account`. -/
def splitLabel (label : List Char) : Option (List Char) × List Char :=
  match splitOnce ':' label with
  | some (issuer, account) => (some issuer, account)
  | none => (none, label)

def parseParts (kind : Kind) (label : List Char) (pairs : List (List Char)) :
    Except UriError OtpAuth := do
  let label ← percentDecode label
  let (issuer, account) := splitLabel label
  refuse (account = []) .missingName
  let scan ← pairs.foldlM Scan.pair (Scan.start issuer)
  finish kind account scan.fields

def scheme : List Char := ['o', 't', 'p', 'a', 'u', 't', 'h', ':', '/', '/']

/-- Parse an `otpauth://totp/...` or `otpauth://hotp/...` URI. -/
def parse (uri : List Char) : Except UriError OtpAuth := do
  let rest ← okOr ((trim uri).dropPrefix? scheme) .scheme
  let (kind, rest) ← okOr (splitOnce '/' rest) .kind
  let kind ← okOr (kindOfName kind) .kind
  let (label, query) := (splitOnce '?' rest).getD (rest, [])
  parseParts kind label (query.splitOn '&')

structure OtpAuth.WellFormed (a : OtpAuth) : Prop where
  digits : 4 ≤ a.digits.toNat ∧ a.digits.toNat ≤ 8
  period : 1 ≤ a.period.toNat
  secret : a.secret ≠ []
  account : a.account ≠ []

structure Fields.Checked (s : Fields) : Prop where
  digits : 4 ≤ s.digits.toNat ∧ s.digits.toNat ≤ 8
  period : 1 ≤ s.period.toNat

def Update.Allowed : Update → Prop
  | digits n => 4 ≤ n.toNat ∧ n.toNat ≤ 8
  | period n => 1 ≤ n.toNat
  | _ => True

theorem Update.Allowed.checked {u : Update} (h : u.Allowed) {s : Fields} (hs : s.Checked) :
    (u.apply s).Checked := by
  cases u with
  | digits n => exact ⟨h, hs.period⟩
  | period n => exact ⟨hs.digits, h⟩
  | _ => exact ⟨hs.digits, hs.period⟩

/-- A parameter assigns an allowed value to its own field. -/
theorem Parameter.read_eq_ok {parameter : Parameter} {value : List Char} {update : Update}
    (h : parameter.read value = .ok update) :
    update.parameter = parameter ∧ update.Allowed := by
  cases parameter with
  | secret =>
    obtain ⟨bytes, -, rfl⟩ := Except.map_eq_ok_iff.mp h
    exact ⟨rfl, trivial⟩
  | issuer =>
    cases h
    exact ⟨rfl, trivial⟩
  | algorithm =>
    obtain ⟨a, -, rfl⟩ := Except.map_eq_ok_iff.mp h
    exact ⟨rfl, trivial⟩
  | digits =>
    simp only [Parameter.read, Except.bind_eq_ok_iff, refuse_eq_ok_iff, not_not] at h
    obtain ⟨n, -, ⟨⟩, hn, h⟩ := h
    cases h
    refine ⟨rfl, ?_⟩
    rw [Update.Allowed, UInt8.toNat_ofNat', Nat.mod_eq_of_lt (by omega)]
    exact hn
  | period =>
    simp only [Parameter.read, Except.bind_eq_ok_iff, refuse_eq_ok_iff, okOr_eq_ok_iff] at h
    obtain ⟨n, hparse, ⟨⟩, hn, h⟩ := h
    cases h
    have := parseUnsigned_le hparse
    refine ⟨rfl, ?_⟩
    rw [Update.Allowed, UInt32.toNat_ofNat', Nat.mod_eq_of_lt (by omega)]
    omega
  | counter =>
    simp only [Parameter.read, Except.bind_eq_ok_iff] at h
    obtain ⟨n, -, h⟩ := h
    cases h
    exact ⟨rfl, trivial⟩

/-- What a pair assigns, whatever the loop has seen before it. -/
def assignment (pair : List Char) : Except UriError (Option Update) :=
  if pair = [] then .ok none
  else do
    let key ← percentDecode (keyValue pair).1
    let value ← percentDecode (keyValue pair).2
    match Parameter.ofName key with
    | none => .ok none
    | some parameter => (parameter.read value).map some

/-- An assignment is made to a field that was not assigned before. -/
def Scan.Assigns (s : Scan) (update : Update) (t : Scan) : Prop :=
  s.seen update.parameter = false ∧
    t = ⟨update.apply s.fields, Function.update s.seen update.parameter true⟩

theorem Scan.assign_eq_ok_iff {s t : Scan} {parameter : Parameter} {value : List Char} :
    s.assign parameter value = .ok t ↔
      ∃ update, parameter.read value = .ok update ∧ s.Assigns update t := by
  simp only [Scan.assign, Except.bind_eq_ok_iff, refuse_eq_ok_iff, Bool.not_eq_true, Assigns]
  constructor
  · rintro ⟨⟨⟩, hs, update, hr, h⟩
    cases h
    obtain rfl := (Parameter.read_eq_ok hr).1
    exact ⟨update, hr, hs, rfl⟩
  · rintro ⟨update, hr, hs, rfl⟩
    obtain rfl := (Parameter.read_eq_ok hr).1
    exact ⟨⟨⟩, hs, update, hr, rfl⟩

/-- What one turn does: nothing for an unknown name or an empty pair, and one
assignment otherwise. -/
theorem Scan.pair_eq_ok_iff {s t : Scan} {pair : List Char} :
    s.pair pair = .ok t ↔ (assignment pair = .ok none ∧ t = s) ∨
      ∃ update, assignment pair = .ok (some update) ∧ s.Assigns update t := by
  rw [Scan.pair, assignment]
  by_cases hp : pair = []
  · simp [hp, eq_comm]
  · rw [if_neg hp, if_neg hp]
    rcases percentDecode (keyValue pair).1 with e | key
    · simp
    rcases percentDecode (keyValue pair).2 with e | value
    · simp
    simp only [Except.ok_bind]
    cases Parameter.ofName key with
    | none => simp [eq_comm]
    | some parameter =>
      simp only [Scan.assign_eq_ok_iff, Except.map_eq_ok_iff, Option.some.injEq, reduceCtorEq,
        and_false, exists_false, false_and, false_or, exists_eq_right]

/-- A pair assigns allowed values only. -/
theorem allowed_of_assignment {pair : List Char} {update : Update}
    (h : assignment pair = .ok (some update)) : update.Allowed := by
  rw [assignment] at h
  split_ifs at h
  · cases h
  · simp only [Except.bind_eq_ok_iff] at h
    obtain ⟨key, -, value, -, h⟩ := h
    cases ho : Parameter.ofName key with
    | none => simp [ho] at h
    | some parameter =>
      simp only [ho, Except.map_eq_ok_iff, Option.some.injEq, exists_eq_right] at h
      exact (Parameter.read_eq_ok h).2

theorem Scan.pair_checked {s t : Scan} {pair : List Char} (h : s.pair pair = .ok t)
    (hs : s.fields.Checked) : t.fields.Checked := by
  rcases Scan.pair_eq_ok_iff.mp h with ⟨-, rfl⟩ | ⟨update, hu, -, rfl⟩
  · exact hs
  · exact (allowed_of_assignment hu).checked hs

theorem finish_eq_ok {kind : Kind} {account : List Char} {s : Fields} {a : OtpAuth}
    (h : finish kind account s = .ok a) :
    a.kind = kind ∧ a.issuer = s.issuer ∧ a.account = account ∧ a.digits = s.digits ∧
      a.period = s.period ∧ a.secret ≠ [] := by
  simp only [finish, Except.bind_eq_ok_iff, okOr_eq_ok_iff, Option.filter_eq_some_iff] at h
  obtain ⟨secret, ⟨-, hs⟩, counter, -, h⟩ := h
  cases h
  exact ⟨rfl, rfl, rfl, rfl, rfl, by simpa using hs⟩

/-- An accepted result is well-formed, and its account is the decoded label's. -/
theorem parseParts_eq_ok {kind : Kind} {label : List Char} {pairs : List (List Char)} {a : OtpAuth}
    (h : parseParts kind label pairs = .ok a) : a.kind = kind ∧ a.WellFormed := by
  simp only [parseParts, Except.bind_eq_ok_iff, refuse_eq_ok_iff] at h
  obtain ⟨text, -, ⟨⟩, haccount, scan, hscan, h⟩ := h
  obtain ⟨hkind, -, hacc, hdigits, hperiod, hsecret⟩ := finish_eq_ok h
  have hstart : (Scan.start (splitLabel text).1).fields.Checked :=
    ⟨show 4 ≤ (6 : UInt8).toNat ∧ (6 : UInt8).toNat ≤ 8 by decide,
      show 1 ≤ (30 : UInt32).toNat by decide⟩
  have hchecked : scan.fields.Checked :=
    Except.foldlM_preserves (fun _ _ _ _ h hs => Scan.pair_checked h hs) hscan hstart
  refine ⟨hkind, ?_, ?_, hsecret, ?_⟩
  · rw [hdigits]
    exact hchecked.digits
  · rw [hperiod]
    exact hchecked.period
  · rw [hacc]
    exact haccount

theorem Update.apply_comm {u v : Update} (h : u.parameter ≠ v.parameter) (s : Fields) :
    u.apply (v.apply s) = v.apply (u.apply s) := by
  cases u <;> cases v <;> first | rfl | exact absurd rfl h

/-- Two assignments one after the other are to different fields. -/
theorem Scan.Assigns.swap {s t u : Scan} {v w : Update} (hv : s.Assigns v t)
    (hw : t.Assigns w u) : ∃ t', s.Assigns w t' ∧ t'.Assigns v u := by
  obtain ⟨hsv, rfl⟩ := hv
  obtain ⟨hsw, rfl⟩ := hw
  have hsw : Function.update s.seen v.parameter true w.parameter = false := hsw
  have hne : v.parameter ≠ w.parameter := by
    intro heq
    rw [← heq, Function.update_self] at hsw
    cases hsw
  rw [Function.update_of_ne hne.symm] at hsw
  refine ⟨_, ⟨hsw, rfl⟩, ?_, ?_⟩
  · show Function.update s.seen w.parameter true v.parameter = false
    rw [Function.update_of_ne hne]
    exact hsv
  · simp only [Update.apply_comm hne, Function.update_comm hne]

/-- Two turns that both succeed succeed in the other order, with the same
effect: they assign different fields. -/
theorem Scan.pair_swap {s t u : Scan} {p q : List Char} (hp : s.pair p = .ok t)
    (hq : t.pair q = .ok u) : ∃ t', s.pair q = .ok t' ∧ t'.pair p = .ok u := by
  simp only [Scan.pair_eq_ok_iff] at hp hq ⊢
  rcases hp with ⟨hp, rfl⟩ | ⟨v, hp, hv⟩
  · exact ⟨u, hq, .inl ⟨hp, rfl⟩⟩
  · rcases hq with ⟨hq, rfl⟩ | ⟨w, hq, hw⟩
    · exact ⟨s, .inl ⟨hq, rfl⟩, .inr ⟨v, hp, hv⟩⟩
    · obtain ⟨t', hw', hv'⟩ := hv.swap hw
      exact ⟨t', .inr ⟨w, hq, hw'⟩, .inr ⟨v, hp, hv'⟩⟩

/-- A loop whose turns may be swapped accepts every order of its input. -/
theorem foldlM_perm {ε σ α : Type} {step : σ → α → Except ε σ}
    (swap : ∀ s t u a b, step s a = .ok t → step t b = .ok u →
      ∃ t', step s b = .ok t' ∧ step t' a = .ok u)
    {xs ys : List α} (h : xs.Perm ys) : ∀ s u : σ,
      xs.foldlM step s = .ok u → ys.foldlM step s = .ok u := by
  induction h with
  | nil =>
    intro s u hu
    exact hu
  | cons a _ ih =>
    intro s u hu
    rw [List.foldlM_cons, Except.bind_eq_ok_iff] at hu ⊢
    obtain ⟨t, ht, hu⟩ := hu
    exact ⟨t, ht, ih t u hu⟩
  | swap a b xs =>
    intro s u hu
    simp only [List.foldlM_cons, Except.bind_eq_ok_iff] at hu ⊢
    obtain ⟨t, ht, v, hv, hu⟩ := hu
    obtain ⟨t', ht', hv'⟩ := swap s t v b a ht hv
    exact ⟨t', ht', v, hv', hu⟩
  | trans _ _ ih₁ ih₂ =>
    intro s u hu
    exact ih₂ s u (ih₁ s u hu)

def queryText : Option (List (List Char)) → List Char
  | none => []
  | some pairs => '?' :: ['&'].intercalate pairs

def uriBody (kind label : List Char) (query : Option (List (List Char))) : List Char :=
  scheme ++ (kind ++ '/' :: (label ++ queryText query))

structure Spelling where
  lead : List Char
  kind : List Char
  label : List Char
  query : Option (List (List Char))
  trail : List Char
  leadSpace : ∀ c ∈ lead, isWhitespace c
  trailSpace : ∀ c ∈ trail, isWhitespace c
  kindPlain : '/' ∉ kind
  labelPlain : '?' ∉ label
  queryPlain : ∀ pairs ∈ query, pairs ≠ [] ∧ ∀ pair ∈ pairs, '&' ∉ pair
  trimmed : Trimmed (uriBody kind label query)

namespace Spelling

def text (s : Spelling) : List Char := s.lead ++ (uriBody s.kind s.label s.query ++ s.trail)

/-- The parameters; without a question mark there is one empty parameter. -/
def pairs (s : Spelling) : List (List Char) := s.query.getD [[]]

end Spelling

theorem dropPrefix_scheme (rest : List Char) : (scheme ++ rest).dropPrefix? scheme = some rest :=
  List.dropPrefix?_eq_some_iff.mpr ⟨scheme, rfl, beq_self_eq_true scheme⟩

theorem splitOnce_queryText (s : Spelling) : ∃ query,
    (splitOnce '?' (s.label ++ queryText s.query)).getD (s.label ++ queryText s.query, []) =
      (s.label, query) ∧ query.splitOn '&' = s.pairs := by
  cases hq : s.query with
  | none =>
    have hnone : splitOnce '?' s.label = none := splitOnce_eq_none_iff.mpr s.labelPlain
    refine ⟨[], ?_, ?_⟩
    · rw [queryText, List.append_nil, hnone, Option.getD_none]
    · rw [Spelling.pairs, hq, Option.getD_none, List.splitOn_nil]
  | some pairs =>
    obtain ⟨hne, hplain⟩ := s.queryPlain pairs hq
    refine ⟨['&'].intercalate pairs, ?_, ?_⟩
    · rw [queryText, splitOnce_append s.labelPlain, Option.getD_some]
    · rw [List.splitOn_intercalate '&' hplain hne, Spelling.pairs, hq, Option.getD_some]

/-- The parser finds the parts. -/
theorem parse_text (s : Spelling) :
    parse s.text = (okOr (kindOfName s.kind) .kind >>= fun kind =>
      parseParts kind s.label s.pairs) := by
  have htrim : trim s.text = uriBody s.kind s.label s.query :=
    trim_surrounded s.leadSpace s.trimmed s.trailSpace
  obtain ⟨query, hsplit, hpairs⟩ := splitOnce_queryText s
  rw [parse, htrim, uriBody, dropPrefix_scheme]
  simp only [okOr, Except.ok_bind, splitOnce_append s.kindPlain, hsplit, hpairs]

/-- Every accepted text has such parts. -/
theorem exists_spelling {uri : List Char} {a : OtpAuth} (h : parse uri = .ok a) :
    ∃ s : Spelling, s.text = uri := by
  obtain ⟨lead, trail, huri, hlead, htrail, htrim⟩ := exists_trim uri
  simp only [parse, Except.bind_eq_ok_iff, okOr_eq_ok_iff, List.dropPrefix?_eq_some_iff] at h
  obtain ⟨rest, ⟨p, hrest, hp⟩, ⟨kind, tail⟩, hkind, -⟩ := h
  obtain rfl : p = scheme := eq_of_beq hp
  obtain ⟨rfl, hplain⟩ := splitOnce_eq_some_iff.mp hkind
  cases hs : splitOnce '?' tail with
  | none =>
    have hbody : trim uri = uriBody kind tail none := by
      rw [hrest, uriBody, queryText, List.append_nil]
    rw [hbody] at huri htrim
    exact ⟨⟨lead, kind, tail, none, trail, hlead, htrail, hplain, splitOnce_eq_none_iff.mp hs,
      by simp, htrim⟩, huri.symm⟩
  | some parts =>
    obtain ⟨hsplit, hlabel⟩ := splitOnce_eq_some_iff.mp hs
    have hbody : trim uri = uriBody kind parts.1 (some (parts.2.splitOn '&')) := by
      rw [hrest, uriBody, queryText, List.intercalate_splitOn, hsplit]
    rw [hbody] at huri htrim
    refine ⟨⟨lead, kind, parts.1, some (parts.2.splitOn '&'), trail, hlead, htrail, hplain, hlabel,
      ?_, htrim⟩, huri.symm⟩
    rintro pairs ⟨rfl⟩
    exact ⟨List.splitOn_ne_nil _ _, fun pair hpair => not_mem_of_mem_splitOn hpair⟩

/-- A parameter with some characters of its name and value encoded; the first
equals sign stays. -/
inductive EncodesPair : List Char → List Char → Prop where
  | bare {p q : List Char} : '=' ∉ p → Percent.Encodes p q → EncodesPair p q
  | assigned {k l v w : List Char} : '=' ∉ k → Percent.Encodes k l → Percent.Encodes v w →
      EncodesPair (k ++ '=' :: v) (l ++ '=' :: w)

theorem keyValue_bare {p : List Char} (h : '=' ∉ p) : keyValue p = (p, []) := by
  rw [keyValue, splitOnce_eq_none_iff.mpr h, Option.getD_none]

theorem keyValue_assigned {k : List Char} (h : '=' ∉ k) (v : List Char) :
    keyValue (k ++ '=' :: v) = (k, v) := by
  rw [keyValue, splitOnce_append h, Option.getD_some]

/-- The loop does the same turn for an encoded parameter. -/
theorem EncodesPair.pair_eq {p q : List Char} (h : EncodesPair p q) (s : Scan) :
    s.pair q = s.pair p := by
  have equals : Percent.digitValue '=' = none := by decide
  cases h with
  | bare hp hq =>
    have hn := hq.not_mem (by decide) equals hp
    simp only [Scan.pair, keyValue_bare hp, keyValue_bare hn, percentDecode, hq.decode_eq,
      hq.eq_nil_iff]
  | assigned hk hl hw =>
    have hn := hl.not_mem (by decide) equals hk
    simp only [Scan.pair, keyValue_assigned hk, keyValue_assigned hn, percentDecode, hl.decode_eq,
      hw.decode_eq, List.append_eq_nil_iff, reduceCtorEq, and_false, if_false]

theorem EncodesPair.not_mem {p q : List Char} (h : EncodesPair p q) (hp : '&' ∉ p) : '&' ∉ q := by
  have ampersand : Percent.digitValue '&' = none := by decide
  cases h with
  | bare _ hq => exact hq.not_mem (by decide) ampersand hp
  | assigned _ hl hw =>
    simp only [List.mem_append, List.mem_cons, not_or] at hp ⊢
    exact ⟨hl.not_mem (by decide) ampersand hp.1, hp.2.1, hw.not_mem (by decide) ampersand hp.2.2⟩

theorem foldlM_encodes {ps qs : List (List Char)} (h : List.Forall₂ EncodesPair ps qs) :
    ∀ s : Scan, qs.foldlM Scan.pair s = ps.foldlM Scan.pair s := by
  induction h with
  | nil => exact fun _ => rfl
  | cons hp _ ih =>
    intro s
    simp only [List.foldlM_cons, hp.pair_eq, ih]

/-- The query with its parameters in another order that puts no white space at
the end, and with some characters encoded. -/
inductive Respells : Option (List (List Char)) → Option (List (List Char)) → Prop where
  | absent : Respells none none
  | present {ps qs rs : List (List Char)} : ps.Perm qs → EndsVisible (['&'].intercalate qs) →
      List.Forall₂ EncodesPair qs rs → Respells (some ps) (some rs)

theorem Respells.foldlM_eq_ok_iff {query query' : Option (List (List Char))}
    (h : Respells query query') (s t : Scan) :
    (query'.getD [[]]).foldlM Scan.pair s = .ok t ↔
      (query.getD [[]]).foldlM Scan.pair s = .ok t := by
  cases h with
  | absent => exact Iff.rfl
  | present hperm _ henc =>
    have swap := fun s t u a b => @Scan.pair_swap s t u a b
    simp only [Option.getD_some, foldlM_encodes henc]
    exact ⟨foldlM_perm swap hperm.symm s t, foldlM_perm swap hperm s t⟩

theorem parseParts_respells {kind : Kind} {label label' : List Char}
    {query query' : Option (List (List Char))} (hl : Percent.Encodes label label')
    (hq : Respells query query') (a : OtpAuth) :
    parseParts kind label' (query'.getD [[]]) = .ok a ↔
      parseParts kind label (query.getD [[]]) = .ok a := by
  simp only [parseParts, percentDecode, hl.decode_eq, Except.bind_eq_ok_iff, hq.foldlM_eq_ok_iff]

theorem trimmed_uriBody_iff {kind label : List Char} {query : Option (List (List Char))} :
    Trimmed (uriBody kind label query) ↔ EndsVisible (label ++ queryText query) := by
  have slash : ¬ isWhitespace '/' := by decide
  have hhead : ∀ c ∈ (uriBody kind label query).head?, ¬ isWhitespace c := by
    rintro c ⟨rfl⟩
    decide
  rw [Trimmed, uriBody, ← List.append_assoc, endsVisible_append_cons _ slash]
  exact ⟨fun h => h.2, fun h => ⟨by rwa [uriBody, ← List.append_assoc] at hhead, h⟩⟩

theorem EncodesPair.endsVisible {p q : List Char} (h : EncodesPair p q) (hp : EndsVisible p) :
    EndsVisible q := by
  have equals : ¬ isWhitespace '=' := by decide
  cases h with
  | bare _ hq => exact hq.endsVisible hp
  | assigned _ _ hw =>
    rw [endsVisible_append_cons _ equals] at hp ⊢
    exact hw.endsVisible hp

theorem endsVisible_intercalate {ps qs : List (List Char)}
    (h : List.Forall₂ EncodesPair ps qs) (hp : EndsVisible (['&'].intercalate ps)) :
    EndsVisible (['&'].intercalate qs) := by
  have ampersand : ¬ isWhitespace '&' := by decide
  induction h with
  | nil => exact hp
  | @cons p q ps qs hpq hrest ih =>
    cases hrest with
    | nil =>
      rw [List.intercalate_singleton] at hp ⊢
      exact hpq.endsVisible hp
    | cons _ _ =>
      rw [List.intercalate_cons_cons, List.append_assoc, List.singleton_append,
        endsVisible_append_cons _ ampersand] at hp ⊢
      exact ih hp

theorem Respells.endsVisible {label label' : List Char} {query query' : Option (List (List Char))}
    (hl : Percent.Encodes label label') (h : Respells query query')
    (hs : EndsVisible (label ++ queryText query)) :
    EndsVisible (label' ++ queryText query') := by
  have question : ¬ isWhitespace '?' := by decide
  cases h with
  | absent =>
    rw [queryText, List.append_nil] at hs ⊢
    exact hl.endsVisible hs
  | present _ hq henc =>
    rw [queryText, endsVisible_append_cons _ question]
    exact endsVisible_intercalate henc hq

theorem not_mem_of_forall₂ {ps qs : List (List Char)} (h : List.Forall₂ EncodesPair ps qs)
    (hp : ∀ p ∈ ps, '&' ∉ p) : ∀ q ∈ qs, '&' ∉ q := by
  induction h with
  | nil => exact hp
  | cons hpq _ ih =>
    rw [List.forall_mem_cons] at hp ⊢
    exact ⟨hpq.not_mem hp.1, ih hp.2⟩

/-- The parts of a respelled URI. -/
theorem Spelling.exists_respelled (s : Spelling) {label' : List Char}
    {query' : Option (List (List Char))} (hl : Percent.Encodes s.label label')
    (hq : Respells s.query query') : ∃ t : Spelling, t.kind = s.kind ∧ t.label = label' ∧
      t.query = query' ∧ t.text = s.lead ++ (uriBody s.kind label' query' ++ s.trail) := by
  have htrim : Trimmed (uriBody s.kind label' query') :=
    trimmed_uriBody_iff.mpr (hq.endsVisible hl (trimmed_uriBody_iff.mp s.trimmed))
  have hplain : ∀ pairs ∈ query', pairs ≠ [] ∧ ∀ pair ∈ pairs, '&' ∉ pair := by
    intro pairs hpairs
    cases hquery : s.query with
    | none =>
      rw [hquery] at hq
      cases hq
      cases hpairs
    | some ps =>
      obtain ⟨hne, hpl⟩ := s.queryPlain ps hquery
      rw [hquery] at hq
      cases hq with
      | @present _ qs rs hperm _ henc =>
        obtain rfl : rs = pairs := Option.some.inj hpairs
        refine ⟨?_, ?_⟩
        · rintro rfl
          cases henc
          exact hne hperm.eq_nil
        · exact not_mem_of_forall₂ henc fun q hmem => hpl q (hperm.mem_iff.mpr hmem)
  exact ⟨⟨s.lead, s.kind, label', query', s.trail, s.leadSpace, s.trailSpace, s.kindPlain,
    hl.not_mem (by decide) (by decide) s.labelPlain, hplain, htrim⟩, rfl, rfl, rfl, rfl⟩

theorem parse_respelled (s : Spelling) {label' : List Char}
    {query' : Option (List (List Char))} (hl : Percent.Encodes s.label label')
    (hq : Respells s.query query') (a : OtpAuth) :
    parse (s.lead ++ (uriBody s.kind label' query' ++ s.trail)) = .ok a ↔ parse s.text = .ok a := by
  obtain ⟨t, hkind, hlabel, hquery, ht⟩ := s.exists_respelled hl hq
  rw [← ht, parse_text, parse_text, hkind]
  simp only [Except.bind_eq_ok_iff, hlabel, Spelling.pairs, hquery, parseParts_respells hl hq]

theorem ofName_name (parameter : Parameter) : Parameter.ofName parameter.name = some parameter := by
  cases parameter <;> decide

/-- A turn for a named parameter assigns it. -/
theorem Scan.pair_named {s t : Scan} {pair : List Char} {parameter : Parameter}
    (hk : percentDecode (keyValue pair).1 = .ok parameter.name) (h : s.pair pair = .ok t) :
    s.seen parameter = false ∧ t.seen parameter = true := by
  have hne : pair ≠ [] := by
    rintro rfl
    have hnil : percentDecode (keyValue []).1 = .ok [] := by decide
    rw [hnil] at hk
    cases parameter <;> cases hk
  rw [Scan.pair, if_neg hne, hk, Except.ok_bind, Except.bind_eq_ok_iff] at h
  obtain ⟨value, -, h⟩ := h
  rw [ofName_name] at h
  obtain ⟨update, hr, hs, rfl⟩ := Scan.assign_eq_ok_iff.mp h
  obtain rfl := (Parameter.read_eq_ok hr).1
  exact ⟨hs, Function.update_self ..⟩

/-- Flags stay set. -/
theorem Scan.pair_seen {s t : Scan} {pair : List Char} (parameter : Parameter)
    (h : s.pair pair = .ok t) (hs : s.seen parameter = true) : t.seen parameter = true := by
  rcases Scan.pair_eq_ok_iff.mp h with ⟨-, rfl⟩ | ⟨update, -, -, rfl⟩
  · exact hs
  · by_cases hp : parameter = update.parameter
    · subst hp
      exact Function.update_self ..
    · show Function.update s.seen update.parameter true parameter = true
      rw [Function.update_of_ne hp]
      exact hs

theorem foldlM_repeated {parameter : Parameter} {xs ys zs : List (List Char)} {p q : List Char}
    (hp : percentDecode (keyValue p).1 = .ok parameter.name)
    (hq : percentDecode (keyValue q).1 = .ok parameter.name) (s t : Scan) :
    (xs ++ p :: (ys ++ q :: zs)).foldlM Scan.pair s ≠ .ok t := by
  intro h
  simp only [List.foldlM_append, List.foldlM_cons, Except.bind_eq_ok_iff] at h
  obtain ⟨s₁, -, s₂, h₂, s₃, h₃, s₄, h₄, -⟩ := h
  have hset := (Scan.pair_named hp h₂).2
  have hkept : s₃.seen parameter = true :=
    Except.foldlM_preserves (fun _ _ _ _ h => Scan.pair_seen parameter h) h₃ hset
  rw [(Scan.pair_named hq h₄).1] at hkept
  cases hkept

/-- Accepted results are well-formed, and accepted texts are spelled from parts.
Reordering the parameters so that no white space comes to the end, and encoding
characters of the label, the names and the values, changes neither acceptance
nor the result; percent signs, the separators and the boundary white space stay.
A parameter that is given twice, however its name is encoded, is refused. -/
theorem parse_spellings :
    (∀ uri a, parse uri = .ok a → a.WellFormed ∧ ∃ s : Spelling, s.text = uri) ∧
    (∀ (s : Spelling) (label' : List Char) (query' : Option (List (List Char))),
      Percent.Encodes s.label label' → Respells s.query query' → ∀ a,
        parse (s.lead ++ (uriBody s.kind label' query' ++ s.trail)) = .ok a ↔
          parse s.text = .ok a) ∧
    ∀ (s : Spelling) (parameter : Parameter) (xs ys zs : List (List Char)) (p q : List Char),
      s.pairs = xs ++ p :: (ys ++ q :: zs) →
      percentDecode (keyValue p).1 = .ok parameter.name →
      percentDecode (keyValue q).1 = .ok parameter.name → ∀ a, parse s.text ≠ .ok a := by
  refine ⟨?_, ?_, ?_⟩
  · intro uri a h
    obtain ⟨s, hs⟩ := exists_spelling h
    refine ⟨?_, s, hs⟩
    rw [← hs, parse_text, Except.bind_eq_ok_iff] at h
    obtain ⟨kind, -, h⟩ := h
    exact (parseParts_eq_ok h).2
  · intro s label' query' hl hq a
    exact parse_respelled s hl hq a
  · intro s parameter xs ys zs p q hpairs hp hq a h
    simp only [parse_text, parseParts, Except.bind_eq_ok_iff] at h
    obtain ⟨kind, -, label, -, ⟨⟩, -, scan, hscan, -⟩ := h
    rw [hpairs] at hscan
    exact foldlM_repeated hp hq _ _ hscan

namespace UriFixture

def secretValue : List Char := ['M', 'F', 'R', 'G', 'G', 'Z', 'D', 'F']
def secret : List Char := ['s', 'e', 'c', 'r', 'e', 't', '='] ++ secretValue
def issuer : List Char := ['i', 's', 's', 'u', 'e', 'r', '=', 'F', 'o', 'o']

def encoded : List Char := ['s', '%', '6', '5', 'c', 'r', 'e', 't', '='] ++ secretValue

def account : OtpAuth :=
  ⟨.totp, some ['F', 'o', 'o'], ['a'], [97, 98, 99, 100, 101], .sha1, 6, 30, 0⟩

/-- `otpauth://totp/a?secret=MFRGGZDF&issuer=Foo`. -/
def spelling : Spelling where
  lead := []
  kind := ['t', 'o', 't', 'p']
  label := ['a']
  query := some [secret, issuer]
  trail := []
  leadSpace := by simp
  trailSpace := by simp
  kindPlain := by decide
  labelPlain := by decide
  queryPlain := by
    rintro pairs ⟨rfl⟩
    exact ⟨by decide, by decide⟩
  trimmed := trimmed_uriBody_iff.mpr (endsVisible_of_getLast? (c := 'o') rfl (by decide))

def repeated : Spelling where
  lead := []
  kind := ['t', 'o', 't', 'p']
  label := ['a']
  query := some [secret, issuer, encoded]
  trail := []
  leadSpace := by simp
  trailSpace := by simp
  kindPlain := by decide
  labelPlain := by decide
  queryPlain := by
    rintro pairs ⟨rfl⟩
    exact ⟨by decide, by decide⟩
  trimmed := trimmed_uriBody_iff.mpr (endsVisible_of_getLast? (c := 'F') rfl (by decide))

end UriFixture

open UriFixture in
/-- The credential is the same in `otpauth://totp/%61?issuer=Foo&s%65cret=MFRGGZDF`,
and a second secret is refused under that name as well. -/
theorem parse_spellings_encoded : account.WellFormed ∧
    parse (spelling.lead ++ (uriBody spelling.kind ['%', '6', '1'] (some [issuer, encoded]) ++
      spelling.trail)) = .ok account ∧ parse repeated.text ≠ .ok account := by
  have hparse : parse spelling.text = .ok account := by decide
  have ha : Percent.Escapes (String.utf8EncodeChar 'a') ['%', '6', '1'] :=
    .cons (h := 6) (l := 1) (by decide) (by decide) .nil
  have he : Percent.Escapes (String.utf8EncodeChar 'e') ['%', '6', '5'] :=
    .cons (h := 6) (l := 5) (by decide) (by decide) .nil
  have hlabel : Percent.Encodes spelling.label ['%', '6', '1'] := .encoded (by decide) ha .nil
  have hsecret : EncodesPair secret encoded :=
    .assigned (k := ['s', 'e', 'c', 'r', 'e', 't']) (by decide)
      (.plain (by decide) (.encoded (by decide) he (.refl (by decide)))) (.refl (by decide))
  have hquery : Respells spelling.query (some [issuer, encoded]) :=
    .present (.swap issuer secret []) (endsVisible_of_getLast? (c := 'F') rfl (by decide))
      (.cons (.assigned (k := ['i', 's', 's', 'u', 'e', 'r']) (by decide) (.refl (by decide))
        (.refl (by decide))) (.cons hsecret .nil))
  exact ⟨(parse_spellings.1 _ _ hparse).1,
    (parse_spellings.2.1 spelling _ _ hlabel hquery account).mpr hparse,
    parse_spellings.2.2 repeated .secret [] [issuer] [] secret encoded rfl (by decide) (by decide)
      account⟩

open UriFixture in
/-- A trailing space of a value is trimmed when its parameter comes last, and
encoding a percent sign that starts no escape makes a refused label acceptable. -/
theorem parse_reordered_space :
    (parse (uriBody ['t', 'o', 't', 'p'] ['a'] (some [issuer ++ [' '], secret]))).map
        OtpAuth.issuer = .ok (some ['F', 'o', 'o', ' ']) ∧
    (parse (uriBody ['t', 'o', 't', 'p'] ['a'] (some [secret, issuer ++ [' ']]))).map
        OtpAuth.issuer = .ok (some ['F', 'o', 'o']) ∧
    parse (uriBody ['t', 'o', 't', 'p'] ['a', '%'] (some [secret])) = .error .percentEncoding ∧
    (parse (uriBody ['t', 'o', 't', 'p'] ['a', '%', '2', '5'] (some [secret]))).map
        OtpAuth.account = .ok ['a', '%'] := by
  decide

end Oath
