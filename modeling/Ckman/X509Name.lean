import Ckman.Host

/-!
# X.501 names from RFC 4514 strings

The subject parser of the X.509 module. The `der` and `const-oid` crates are
not part of the repository, so what the parser calls in them is a parameter;
the facts about them that proofs rely on are fields of `Der.Documented`.
-/
namespace X509

open Host

structure Oid where
  arcs : List Nat
  deriving DecidableEq, Repr

/-- The dotted-decimal form, which is what `to_string` returns. -/
def Oid.dotted (oid : Oid) : String := ".".intercalate (oid.arcs.map toString)

inductive Tag where
  | utf8String | printableString | ia5String
  | other (number : Nat)
  deriving DecidableEq, Repr

/-- An ASN.1 value with its tag, `der::asn1::Any`. -/
structure Any where
  tag : Tag
  value : Bytes
  deriving DecidableEq, Repr

structure AttributeTypeAndValue where
  oid : Oid
  value : Any
  deriving DecidableEq, Repr

/-- A set of attributes, in the order that `SetOfVec` keeps. -/
abbrev RelativeDistinguishedName := List AttributeTypeAndValue

abbrev Name := List RelativeDistinguishedName

inductive X509Error where
  | rfc4514 (message : String)
  | der (message : String)
  deriving DecidableEq, Repr

inductive StringKind where
  | utf8 | printable | ia5
  deriving DecidableEq, Repr

def StringKind.tag : StringKind → Tag
  | .utf8 => .utf8String
  | .printable => .printableString
  | .ia5 => .ia5String

structure Der where
  /-- `ObjectIdentifier::new`. -/
  oid : String → Except String Oid
  /-- `Any::from_der`. -/
  anyFromDer : Bytes → Except String Any
  /-- A string reference of this kind, then `Any::encode_from`. -/
  encodeText : StringKind → String → Except String Any
  /-- `Any::decode_as` for a string reference of this kind. -/
  decodeText : StringKind → Any → Except String String
  /-- `SetOfVec::insert`. -/
  insert : RelativeDistinguishedName → AttributeTypeAndValue →
    Except String RelativeDistinguishedName

/-- `der` of the source: keep the text of a DER error. -/
def derError {α : Type} (r : Except String α) : Except X509Error α := r.mapError .der

def nameAttributes : List (String × String) := [
  ("CN", "2.5.4.3"),
  ("L", "2.5.4.7"),
  ("ST", "2.5.4.8"),
  ("O", "2.5.4.10"),
  ("OU", "2.5.4.11"),
  ("C", "2.5.4.6"),
  ("STREET", "2.5.4.9"),
  ("DC", "0.9.2342.19200300.100.1.25"),
  ("UID", "0.9.2342.19200300.100.1.1"),
  ("serialNumber", "2.5.4.5"),
  ("emailAddress", "1.2.840.113549.1.9.1")]

def eqIgnoreAsciiCase (a b : List Char) : Bool := a.map Char.toLower = b.map Char.toLower

def attributeOid (key : List Char) : String :=
  match nameAttributes.find? (fun entry => eqIgnoreAsciiCase entry.1.toList key) with
  | some (_, oid) => oid
  | none => String.ofList key

/-- The bytes that one backslash protects. -/
def escapable : Bytes := [0x5c, 0x22, 0x23, 0x2b, 0x2c, 0x3b, 0x3c, 0x3e, 0x20, 0x3d]

/-- The bytes that never stand unescaped in a value. -/
def mustEscape : Bytes := [0x22, 0x3b, 0x3c, 0x3e, 0x00]

/-- The `while` loop of `subject_value` from one byte on; `first` marks index 0. -/
def unescape (first : Bool) : Bytes → Except X509Error Bytes
  | [] => .ok []
  | byte :: rest =>
    if byte = 0x5c then
      match rest with
      | [] => .error (.rfc4514 "trailing backslash")
      | escaped :: rest =>
        if escaped ∈ escapable then do
          let decoded ← unescape false rest
          pure (escaped :: decoded)
        else
          match rest with
          | [] => .error (.rfc4514 "truncated hex escape")
          | lo :: rest =>
            match hexValue escaped, hexValue lo with
            | some h, some l => do
              let decoded ← unescape false rest
              pure ((16 * h + l) :: decoded)
            | _, _ => .error (.rfc4514 "invalid hex escape")
    else if byte ∈ mustEscape ∨ (byte = 0x20 ∧ (first = true ∨ rest = [])) then
      .error (.rfc4514 "special or boundary character must be escaped")
    else do
      let decoded ← unescape false rest
      pure (byte :: decoded)

def textKind (oid : Oid) : StringKind :=
  if oid.dotted = "2.5.4.6" ∨ oid.dotted = "2.5.4.5" then .printable
  else if oid.dotted = "0.9.2342.19200300.100.1.25" ∨ oid.dotted = "1.2.840.113549.1.9.1" then .ia5
  else .utf8

def encodedValue (der : Der) (oid : Oid) (value : List Char) : Except X509Error Any :=
  match value with
  | '#' :: hex =>
    let hex := asBytes (String.ofList hex)
    if hex = [] ∨ hex.length % 2 ≠ 0 ∨ ¬ hex.all (fun b => (hexValue b).isSome) then
      .error (.rfc4514 "invalid hexadecimal DER attribute value")
    else
      match hexPairs hex with
      | none => .error (.rfc4514 "invalid hexadecimal DER attribute value")
      | some bytes =>
        match der.anyFromDer bytes with
        | .error _ => .error (.rfc4514 "invalid DER attribute value")
        | .ok any => .ok any
  | _ => do
    let decoded ← unescape true (asBytes (String.ofList value))
    match Text.fromUtf8 decoded with
    | none => .error (.rfc4514 "invalid UTF-8 data")
    | some text => derError (der.encodeText (textKind oid) (String.ofList text))

/-- The contents of a supported string type must be valid for it. -/
def checkContents (der : Der) (encoded : Any) : Except X509Error Unit :=
  match encoded.tag with
  | .utf8String => do
    let _ ← derError (der.decodeText .utf8 encoded)
  | .printableString => do
    let _ ← derError (der.decodeText .printable encoded)
  | .ia5String => do
    let _ ← derError (der.decodeText .ia5 encoded)
  | .other _ => pure ()

/-- Hexadecimal input must obey the same fixed attribute types as text. -/
def checkType (der : Der) (oid : Oid) (encoded : Any) : Except X509Error Unit :=
  if oid.dotted = "2.5.4.6" then do
    let country ← derError (der.decodeText .printable encoded)
    if (asBytes country).length ≠ 2 then
      throw (.rfc4514 "country must contain two characters")
  else if oid.dotted = "2.5.4.5" then do
    let _ ← derError (der.decodeText .printable encoded)
  else if oid.dotted = "0.9.2342.19200300.100.1.25" ∨ oid.dotted = "1.2.840.113549.1.9.1" then do
    let _ ← derError (der.decodeText .ia5 encoded)
  else pure ()

def subjectValue (der : Der) (oid : Oid) (value : List Char) : Except X509Error Any := do
  let encoded ← encodedValue der oid value
  checkContents der encoded
  checkType der oid encoded
  pure encoded

/-- One attribute of the string, added to the RDN that is being read. -/
def addAttribute (der : Der) (part : List Char) (attributes : RelativeDistinguishedName) :
    Except X509Error RelativeDistinguishedName :=
  match Text.splitOnce '=' part with
  | none => .error (.rfc4514 "missing '=' in attribute")
  | some (key, value) =>
    match der.oid (attributeOid key) with
    | .error _ => .error (.rfc4514 "unsupported attribute")
    | .ok oid => do
      let value ← subjectValue der oid value
      derError (der.insert attributes ⟨oid, value⟩)

/-- The loop over the characters; the end of the string counts as a comma.
`part` is the slice that starts after the last separator. -/
def rdnLoop (der : Der) : List Char → Bool → List Char → RelativeDistinguishedName → Name →
    Except X509Error Name
  | [], true, _, _, _ => .error (.rfc4514 "trailing backslash")
  | [], false, part, attributes, rdns => do
    let attributes ← addAttribute der part attributes
    pure (rdns ++ [attributes])
  | c :: rest, true, part, attributes, rdns => rdnLoop der rest false (part ++ [c]) attributes rdns
  | c :: rest, false, part, attributes, rdns =>
    if c = '\\' then rdnLoop der rest true (part ++ [c]) attributes rdns
    else if c = ',' ∨ c = '+' then do
      let attributes ← addAttribute der part attributes
      if c = ',' then rdnLoop der rest false [] [] (rdns ++ [attributes])
      else rdnLoop der rest false [] attributes rdns
    else rdnLoop der rest false (part ++ [c]) attributes rdns

def parseRfc4514 (der : Der) (value : String) : Except X509Error Name := do
  let rdns ← rdnLoop der value.toList false [] [] []
  pure rdns.reverse

def commonName : Oid := ⟨[2, 5, 4, 3]⟩

def attributeOids : List Oid := [
  commonName, ⟨[2, 5, 4, 7]⟩, ⟨[2, 5, 4, 8]⟩, ⟨[2, 5, 4, 10]⟩, ⟨[2, 5, 4, 11]⟩, ⟨[2, 5, 4, 6]⟩,
  ⟨[2, 5, 4, 9]⟩, ⟨[0, 9, 2342, 19200300, 100, 1, 25]⟩, ⟨[0, 9, 2342, 19200300, 100, 1, 1]⟩,
  ⟨[2, 5, 4, 5]⟩, ⟨[1, 2, 840, 113549, 1, 9, 1]⟩]

/-- The longest length that the DER crate encodes. -/
def derLengthLimit : Nat := 2 ^ 28

structure Der.Documented (der : Der) : Prop where
  /-- The dotted form of an identifier is read back. -/
  oid : ∀ oid ∈ attributeOids, der.oid oid.dotted = .ok oid
  /-- Any text below the length limit is a UTF8String. -/
  encodeUtf8 : ∀ text, (asBytes text).length < derLengthLimit →
    der.encodeText .utf8 text = .ok ⟨.utf8String, asBytes text⟩
  decodeUtf8 : ∀ text, (asBytes text).length < derLengthLimit →
    der.decodeText .utf8 ⟨.utf8String, asBytes text⟩ = .ok text
  /-- A first element is never a duplicate. -/
  insert_nil : ∀ a, der.insert [] a = .ok [a]

/-- A character that stands for itself anywhere in a value. -/
def Plain (c : Char) : Prop :=
  c.toNat < 128 ∧ c ≠ '\\' ∧ c ≠ ',' ∧ c ≠ '+' ∧ c ≠ '"' ∧ c ≠ ';' ∧ c ≠ '<' ∧ c ≠ '>' ∧ c ≠ '\x00'

instance (c : Char) : Decidable (Plain c) := inferInstanceAs (Decidable (_ ∧ _))

theorem fromUtf8_asBytes (text : String) : Text.fromUtf8 (asBytes text) = some text.toList := by
  rw [asBytes_eq, Text.fromUtf8_utf8]

theorem toUInt8_inj_ascii {c d : Char} (hc : c.toNat < 128) (hd : d.toNat < 128)
    (h : c.toUInt8 = d.toUInt8) : c = d := by
  by_contra hne
  have hmem : c.toUInt8 ∈ String.utf8EncodeChar c := by
    rw [Text.utf8EncodeChar_of_lt hc]
    exact List.mem_singleton_self _
  exact Text.ne_of_mem_utf8EncodeChar hd hne hmem h

/-- A plain character is none of the bytes that need an escape. -/
theorem Plain.byte {c : Char} (h : Plain c) : c.toUInt8 ≠ 0x5c ∧ c.toUInt8 ∉ mustEscape := by
  obtain ⟨hc, h₁, -, -, h₂, h₃, h₄, h₅, h₆⟩ := h
  have hne : ∀ d : Char, d.toNat < 128 → c ≠ d → c.toUInt8 ≠ d.toUInt8 :=
    fun d hd hcd he => hcd (toUInt8_inj_ascii hc hd he)
  refine ⟨hne '\\' (by decide) h₁, ?_⟩
  simp only [mustEscape, List.mem_cons, List.not_mem_nil, or_false, not_or]
  exact ⟨hne '"' (by decide) h₂, hne ';' (by decide) h₃, hne '<' (by decide) h₄,
    hne '>' (by decide) h₅, hne '\x00' (by decide) h₆⟩

/-- Bytes that need no escape are the value they stand for. -/
theorem unescape_plain {bytes : Bytes} (first : Bool)
    (hplain : ∀ b ∈ bytes, b ≠ 0x5c ∧ b ∉ mustEscape)
    (hfirst : first = true → bytes.head? ≠ some 0x20) (hlast : bytes.getLast? ≠ some 0x20) :
    unescape first bytes = .ok bytes := by
  induction bytes generalizing first with
  | nil => rfl
  | cons b bytes ih =>
    obtain ⟨hslash, hspecial⟩ := hplain b (by simp)
    have hspace : ¬ (b = 0x20 ∧ (first = true ∨ bytes = [])) := by
      rintro ⟨rfl, hf | rfl⟩
      · exact hfirst hf rfl
      · exact hlast rfl
    have hrest : bytes.getLast? ≠ some 0x20 := by
      intro h
      apply hlast
      rw [List.getLast?_cons, h]
      rfl
    have htail := ih false (fun d hd => hplain d (List.mem_cons_of_mem b hd)) (by simp) hrest
    rw [unescape.eq_def]
    simp only [if_neg hslash, if_neg (not_or.mpr ⟨hspecial, hspace⟩), htail]
    rfl

/-- Without separators and backslashes the whole string is one attribute. -/
theorem rdnLoop_plain (der : Der) {cs : List Char}
    (h : ∀ c ∈ cs, c ≠ '\\' ∧ c ≠ ',' ∧ c ≠ '+') (part : List Char)
    (attributes : RelativeDistinguishedName) (rdns : Name) :
    rdnLoop der cs false part attributes rdns =
      (addAttribute der (part ++ cs) attributes).map (fun a => rdns ++ [a]) := by
  induction cs generalizing part with
  | nil =>
    rw [rdnLoop, List.append_nil]
    cases addAttribute der part attributes <;> rfl
  | cons c cs ih =>
    obtain ⟨hslash, hcomma, hplus⟩ := h c (by simp)
    rw [rdnLoop, if_neg hslash, if_neg (not_or.mpr ⟨hcomma, hplus⟩),
      ih (fun d hd => h d (List.mem_cons_of_mem c hd)), List.append_assoc, List.singleton_append]

/-- A plain common name parses to one RDN with that text as a UTF8String. -/
theorem parseRfc4514_commonName {der : Der} (hder : der.Documented) {cs : List Char}
    (hplain : ∀ c ∈ cs, Plain c) (hhead : cs.head? ≠ some ' ' ∧ cs.head? ≠ some '#')
    (hlast : cs.getLast? ≠ some ' ') (hlen : cs.length < derLengthLimit) :
    parseRfc4514 der (String.ofList ('C' :: 'N' :: '=' :: cs)) =
      .ok [[⟨commonName, ⟨.utf8String, asBytes (String.ofList cs)⟩⟩]] := by
  have hascii : ∀ c ∈ cs, c.toNat < 128 := fun c hc => (hplain c hc).1
  have hbytes := asBytes_ascii hascii
  have hsize : (asBytes (String.ofList cs)).length < derLengthLimit := by
    rw [hbytes, List.length_map]
    exact hlen
  have hsep : ∀ c ∈ 'C' :: 'N' :: '=' :: cs, c ≠ '\\' ∧ c ≠ ',' ∧ c ≠ '+' := by
    intro c hc
    simp only [List.mem_cons] at hc
    rcases hc with rfl | rfl | rfl | hc
    · decide
    · decide
    · decide
    · obtain ⟨-, h₁, h₂, h₃, -⟩ := hplain c hc
      exact ⟨h₁, h₂, h₃⟩
  have hdotted : commonName.dotted = "2.5.4.3" := by decide
  have hoid : der.oid (attributeOid ['C', 'N']) = .ok commonName := by
    have hkey : attributeOid ['C', 'N'] = commonName.dotted := by decide
    rw [hkey]
    exact hder.oid commonName (by decide)
  have hkind : textKind commonName = .utf8 := by
    rw [textKind, hdotted]
    decide
  have hspace : ∀ c ∈ cs, c.toUInt8 = 0x20 → c = ' ' :=
    fun c hc h => toUInt8_inj_ascii (hascii c hc) (by decide) h
  have hunescape : unescape true (asBytes (String.ofList cs)) = .ok (asBytes (String.ofList cs)) := by
    rw [hbytes]
    refine unescape_plain true ?_ ?_ ?_
    · intro b hb
      obtain ⟨c, hc, rfl⟩ := List.mem_map.mp hb
      exact (hplain c hc).byte
    · intro _ h
      rw [List.head?_map, Option.map_eq_some_iff] at h
      obtain ⟨c, hc, hb⟩ := h
      exact hhead.1 (by rw [hc, hspace c (List.mem_of_mem_head? hc) hb])
    · intro h
      rw [List.getLast?_map, Option.map_eq_some_iff] at h
      obtain ⟨c, hc, hb⟩ := h
      exact hlast (by rw [hc, hspace c (List.mem_of_getLast? hc) hb])
  have hencoded : encodedValue der commonName cs = .ok ⟨.utf8String, asBytes (String.ofList cs)⟩ := by
    rw [encodedValue.eq_def]
    split
    · exact absurd rfl hhead.2
    · rw [hunescape, hkind]
      simp only [Except.ok_bind, fromUtf8_asBytes, String.ofList_toList, hder.encodeUtf8 _ hsize]
      rfl
  have hvalue : subjectValue der commonName cs = .ok ⟨.utf8String, asBytes (String.ofList cs)⟩ := by
    have hcontents : checkContents der ⟨.utf8String, asBytes (String.ofList cs)⟩ = .ok () := by
      simp only [checkContents, hder.decodeUtf8 _ hsize]
      rfl
    have htype : ∀ encoded, checkType der commonName encoded = .ok () := by
      intro encoded
      rw [checkType, hdotted]
      rfl
    rw [subjectValue, hencoded]
    simp only [Except.ok_bind, hcontents, htype]
    rfl
  have hsplit : Text.splitOnce '=' ('C' :: 'N' :: '=' :: cs) = some (['C', 'N'], cs) :=
    Text.splitOnce_eq_some_iff.mpr ⟨rfl, by decide⟩
  rw [parseRfc4514, String.toList_ofList, rdnLoop_plain der hsep, List.nil_append, addAttribute,
    hsplit]
  simp only [hoid, hvalue, Except.ok_bind, hder.insert_nil]
  rfl

/-- The DER crates on the inputs of this development: the identifiers of the
attribute table, the three string types and sets kept in insertion order. -/
def referenceDer : Der where
  oid text :=
    match attributeOids.find? (fun oid => oid.dotted = text) with
    | some oid => .ok oid
    | none => .error "malformed OID"
  anyFromDer _ := .error "unsupported ANY"
  encodeText kind text :=
    if (asBytes text).length < derLengthLimit then .ok ⟨kind.tag, asBytes text⟩
    else .error "length overflow"
  decodeText kind any :=
    if any.tag = kind.tag then
      match Text.fromUtf8 any.value with
      | some text => .ok (String.ofList text)
      | none => .error "malformed string"
    else .error "unexpected tag"
  insert set a := if a ∈ set then .error "duplicate" else .ok (set ++ [a])

theorem referenceDer_documented : referenceDer.Documented where
  oid := by decide
  encodeUtf8 text h := if_pos h
  decodeUtf8 text _ := by simp [referenceDer, StringKind.tag, fromUtf8_asBytes]
  insert_nil a := rfl

end X509
