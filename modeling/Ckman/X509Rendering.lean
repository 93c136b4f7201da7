import Ckman.Percent
import Ckman.X509Name
import Mathlib.Data.List.Forall2
import Mathlib.Data.List.Nodup
import Mathlib.Data.Nat.Digits.Defs

/-!
# Reading a rendered name back

RFC 4514 strings as a grammar: which strings stand for a given sequence of
RDNs, with every mixture of escapes. The parser returns exactly the name that
a string stands for.
-/
namespace X509

open Host
open Text

/-- The texts that a string type holds. -/
def StringKind.Accepts : StringKind → String → Prop
  | .utf8, _ => True
  | .printable, text =>
    ∀ c ∈ text.toList, c.isAlphanum ∨ c ∈ [' ', '\'', '(', ')', '+', ',', '-', '.', '/', ':', '=', '?']
  | .ia5, text => ∀ c ∈ text.toList, c.toNat < 128

def arcLength (arc : Nat) : Nat := max 1 (Nat.digits 128 arc).length

/-- The contents of an object identifier; its first two arcs share bytes. -/
def Oid.encodedLength (oid : Oid) : Nat :=
  match oid.arcs with
  | first :: second :: arcs => arcLength (40 * first + second) + (arcs.map arcLength).sum
  | _ => 0

def headerLength (length : Nat) : Nat :=
  if length < 128 then 2 else 2 + (Nat.digits 256 length).length

/-- The contents of the DER sequence of one attribute. -/
def AttributeTypeAndValue.encodedLength (a : AttributeTypeAndValue) : Nat :=
  headerLength a.oid.encodedLength + a.oid.encodedLength +
    headerLength a.value.value.length + a.value.value.length

def attributeOf (a : Oid × String) : AttributeTypeAndValue :=
  ⟨a.1, ⟨(textKind a.1).tag, Host.asBytes a.2⟩⟩

/-- A supported type, and a text that its string type can hold and encode. -/
structure ValidAttribute (der : Der) (a : Oid × String) : Prop where
  supported : der.oid a.1.dotted = .ok a.1
  accepts : (textKind a.1).Accepts a.2
  size : (attributeOf a).encodedLength < derLengthLimit
  country : a.1.dotted = "2.5.4.6" → (Host.asBytes a.2).length = 2

theorem ValidAttribute.length_lt {der : Der} {a : Oid × String} (h : ValidAttribute der a) :
    (Host.asBytes a.2).length < derLengthLimit := by
  have := h.size
  simp only [AttributeTypeAndValue.encodedLength, attributeOf] at this
  omega

/-- Documented behaviour of the DER crates for the string types and for sets:
an insertion fails only for a duplicate or for elements that cannot be encoded. -/
structure Der.DocumentedStrings (der : Der) : Prop where
  encodeText : ∀ (kind : StringKind) (text : String), kind.Accepts text →
    (Host.asBytes text).length < derLengthLimit →
    der.encodeText kind text = .ok ⟨kind.tag, Host.asBytes text⟩
  decodeText : ∀ (kind : StringKind) (text : String), kind.Accepts text →
    (Host.asBytes text).length < derLengthLimit →
    der.decodeText kind ⟨kind.tag, Host.asBytes text⟩ = .ok text
  insert : ∀ (set : RelativeDistinguishedName) (a : AttributeTypeAndValue), a ∉ set →
    (∀ b ∈ a :: set, b.encodedLength < derLengthLimit) →
    ∃ set', der.insert set a = .ok set' ∧ set'.Perm (a :: set)

inductive HexPairs : Bytes → List Char → Prop
  | nil : HexPairs [] []
  | cons {b h l : UInt8} {hi lo : Char} {bs : Bytes} {s : List Char} :
      Percent.digitValue hi = some h → Percent.digitValue lo = some l → b = 16 * h + l →
      HexPairs bs s → HexPairs (b :: bs) ('\\' :: hi :: lo :: s)

/-- The characters that a backslash alone protects. -/
def specials : List Char := ['\\', '"', '#', '+', ',', ';', '<', '>', ' ', '=']

/-- A character that may stand in a value as it is. -/
def Unreserved (c : Char) : Prop := c ∉ ['\\', ',', '+', '"', ';', '<', '>', '\x00']

instance (c : Char) : Decidable (Unreserved c) := inferInstanceAs (Decidable (_ ∉ _))

/-- The second text is a value that stands for the first; `first` marks its
start, where a space and a number sign have to be escaped. -/
inductive Renders : Bool → List Char → List Char → Prop
  | nil {first : Bool} : Renders first [] []
  | plain {first : Bool} {c : Char} {text s : List Char} : Unreserved c →
      (c = ' ' → first = false ∧ text ≠ []) → (c = '#' → first = false) →
      Renders false text s → Renders first (c :: text) (c :: s)
  | special {first : Bool} {c : Char} {text s : List Char} : c ∈ specials →
      Renders false text s → Renders first (c :: text) ('\\' :: c :: s)
  | hex {first : Bool} {c : Char} {text e s : List Char} :
      HexPairs (String.utf8EncodeChar c) e → Renders false text s →
      Renders first (c :: text) (e ++ s)

/-- The names of an attribute type: a short name of either case, if it has
one, and the dotted form. -/
inductive TypeKey (oid : Oid) : List Char → Prop
  | name {name : String} {key : List Char} : (name, oid.dotted) ∈ nameAttributes →
      eqIgnoreAsciiCase name.toList key → TypeKey oid key
  | dotted : TypeKey oid oid.dotted.toList

inductive RendersAttribute (a : Oid × String) : List Char → Prop
  | mk {key s : List Char} : TypeKey a.1 key → Renders true a.2.toList s →
      RendersAttribute a (key ++ '=' :: s)

inductive Joined {α : Type} (separator : Char) (one : α → List Char → Prop) :
    List α → List Char → Prop
  | single {x : α} {s : List Char} : one x s → Joined separator one [x] s
  | cons {x : α} {xs : List α} {s t : List Char} : one x s → Joined separator one xs t →
      Joined separator one (x :: xs) (s ++ separator :: t)

/-- The attributes of an RDN may be written in any order. -/
def RendersRdn (rdn : List (Oid × String)) (s : List Char) : Prop :=
  ∃ written, written.Perm rdn ∧ Joined '+' RendersAttribute written s

def RendersName (rdns : List (List (Oid × String))) (s : List Char) : Prop :=
  Joined ',' RendersRdn rdns s

theorem unescape_cons (first : Bool) {b : UInt8} {rest : Bytes} (hslash : b ≠ 0x5c)
    (hmust : b ∉ mustEscape) (hspace : b = 0x20 → first = false ∧ rest ≠ []) :
    unescape first (b :: rest) = (unescape false rest).map (b :: ·) := by
  have hboundary : ¬ (b = 0x20 ∧ (first = true ∨ rest = [])) := by
    rintro ⟨hb, hf⟩
    obtain ⟨hfirst, hrest⟩ := hspace hb
    rcases hf with hf | hf
    · rw [hfirst] at hf
      cases hf
    · exact hrest hf
  rw [unescape.eq_def]
  simp only [if_neg hslash, if_neg (not_or.mpr ⟨hmust, hboundary⟩)]
  cases unescape false rest <;> rfl

theorem unescape_bytes {bs : Bytes} (hne : bs ≠ [])
    (h : ∀ b ∈ bs, b ≠ 0x5c ∧ b ∉ mustEscape ∧ b ≠ 0x20) (first : Bool) (rest : Bytes) :
    unescape first (bs ++ rest) = (unescape false rest).map (bs ++ ·) := by
  induction bs generalizing first with
  | nil => exact absurd rfl hne
  | cons b bs ih =>
    obtain ⟨hslash, hmust, hspace⟩ := h b List.mem_cons_self
    rw [List.cons_append, unescape_cons first hslash hmust fun hb => absurd hb hspace]
    cases bs with
    | nil => rfl
    | cons c cs =>
      rw [ih (List.cons_ne_nil c cs) (fun d hd => h d (List.mem_cons_of_mem b hd)) false]
      cases unescape false rest <;> rfl

theorem unescape_special (first : Bool) {b : UInt8} (hb : b ∈ escapable) (rest : Bytes) :
    unescape first (0x5c :: b :: rest) = (unescape false rest).map (b :: ·) := by
  rw [unescape.eq_def]
  simp only [if_pos hb, if_true]
  cases unescape false rest <;> rfl

theorem unescape_pair (first : Bool) {hi lo h l : UInt8} (hh : hexValue hi = some h)
    (hl : hexValue lo = some l) (rest : Bytes) :
    unescape first (0x5c :: hi :: lo :: rest) = (unescape false rest).map ((16 * h + l) :: ·) := by
  have hdigit : ∀ b ∈ escapable, hexValue b = none := forall_mem_of_all (by decide)
  have hnot : hi ∉ escapable := by
    intro hmem
    rw [hdigit hi hmem] at hh
    cases hh
  rw [unescape.eq_def]
  simp only [if_neg hnot, hh, hl, if_true]
  cases unescape false rest <;> rfl

theorem unescape_hexPairs {bs : Bytes} {e : List Char} (h : HexPairs bs e) (hne : bs ≠ [])
    (first : Bool) (rest : Bytes) :
    unescape first (utf8 e ++ rest) = (unescape false rest).map (bs ++ ·) := by
  induction h generalizing first with
  | nil => exact absurd rfl hne
  | @cons b h l hi lo bs s hhi hlo hb hs ih =>
    obtain ⟨ehi, vhi⟩ := Percent.digitValue_eq_some hhi
    obtain ⟨elo, vlo⟩ := Percent.digitValue_eq_some hlo
    have hbytes : utf8 ('\\' :: hi :: lo :: s) = 0x5c :: hi.toUInt8 :: lo.toUInt8 :: utf8 s := by
      rw [utf8_cons, utf8_cons, utf8_cons, ehi, elo]
      rfl
    rw [hbytes, List.cons_append, List.cons_append, List.cons_append,
      unescape_pair first vhi vlo, ← hb]
    cases hs with
    | nil => rfl
    | cons hhi' hlo' hb' hs' =>
      rw [ih (List.cons_ne_nil _ _) false]
      cases unescape false rest <;> rfl

/-- A backslash protects a special character as its one byte. -/
theorem utf8EncodeChar_special {c : Char} (h : c ∈ specials) :
    String.utf8EncodeChar c = [c.toUInt8] ∧ c.toUInt8 ∈ escapable := by
  have hall : ∀ d ∈ specials, String.utf8EncodeChar d = [d.toUInt8] ∧ d.toUInt8 ∈ escapable :=
    forall_mem_of_all (by decide)
  exact hall c h

/-- The bytes of an unreserved character need no escape; only a space has the
byte of a space. -/
theorem Unreserved.byte {c : Char} (h : Unreserved c) {b : UInt8}
    (hb : b ∈ String.utf8EncodeChar c) :
    b ≠ 0x5c ∧ b ∉ mustEscape ∧ (c ≠ ' ' → b ≠ 0x20) := by
  simp only [Unreserved, List.mem_cons, List.not_mem_nil, or_false, not_or] at h
  obtain ⟨hslash, -, -, hquote, hsemi, hlt, hgt, hnul⟩ := h
  refine ⟨ne_of_mem_utf8EncodeChar (d := '\\') (by decide) hslash hb, ?_,
    fun hspace => ne_of_mem_utf8EncodeChar (d := ' ') (by decide) hspace hb⟩
  simp only [mustEscape, List.mem_cons, List.not_mem_nil, or_false, not_or]
  exact ⟨ne_of_mem_utf8EncodeChar (d := '"') (by decide) hquote hb,
    ne_of_mem_utf8EncodeChar (d := ';') (by decide) hsemi hb,
    ne_of_mem_utf8EncodeChar (d := '<') (by decide) hlt hb,
    ne_of_mem_utf8EncodeChar (d := '>') (by decide) hgt hb,
    ne_of_mem_utf8EncodeChar (d := '\x00') (by decide) hnul hb⟩

/-- Nothing stands for the empty text but itself. -/
theorem Renders.ne_nil {first : Bool} {text s : List Char} (h : Renders first text s)
    (hne : text ≠ []) : s ≠ [] := by
  cases h with
  | nil => exact absurd rfl hne
  | plain => exact List.cons_ne_nil _ _
  | special => exact List.cons_ne_nil _ _
  | @hex first c text e s he _ =>
    cases hc : String.utf8EncodeChar c with
    | nil => exact absurd hc String.utf8EncodeChar_ne_nil
    | cons b bs =>
      rw [hc] at he
      cases he
      exact List.cons_ne_nil _ _

theorem utf8_ne_nil {s : List Char} (h : s ≠ []) : utf8 s ≠ [] := by
  cases s with
  | nil => exact absurd rfl h
  | cons c s =>
    rw [utf8_cons]
    intro hnil
    exact String.utf8EncodeChar_ne_nil (List.append_eq_nil_iff.mp hnil).1

/-- The bytes of a value decode to the bytes of the text it stands for. -/
theorem Renders.unescape_eq {first : Bool} {text s : List Char} (h : Renders first text s) :
    unescape first (utf8 s) = .ok (utf8 text) := by
  induction h with
  | nil => rfl
  | @plain first c text s hc hspace _ hs ih =>
    rw [utf8_cons]
    by_cases hsp : c = ' '
    · obtain ⟨hfirst, htext⟩ := hspace hsp
      subst hsp
      have hmust : (0x20 : UInt8) ∉ mustEscape := by decide
      have hone : String.utf8EncodeChar ' ' = [0x20] := by decide
      rw [hone, List.singleton_append, unescape_cons first (by decide) hmust
        (fun _ => ⟨hfirst, utf8_ne_nil (hs.ne_nil htext)⟩), ih, utf8_cons, hone]
      rfl
    · have hbytes : ∀ b ∈ String.utf8EncodeChar c, b ≠ 0x5c ∧ b ∉ mustEscape ∧ b ≠ 0x20 := by
        intro b hb
        obtain ⟨hslash, hmust, hne⟩ := hc.byte hb
        exact ⟨hslash, hmust, hne hsp⟩
      rw [unescape_bytes String.utf8EncodeChar_ne_nil hbytes, ih]
      rfl
  | @special first c text s hc hs ih =>
    obtain ⟨hone, hesc⟩ := utf8EncodeChar_special hc
    have hbytes : utf8 ('\\' :: c :: s) = 0x5c :: c.toUInt8 :: utf8 s := by
      rw [utf8_cons, utf8_cons, hone]
      rfl
    rw [hbytes, unescape_special first hesc, ih, utf8_cons, hone]
    rfl
  | @hex first c text e s he hs ih =>
    rw [utf8_append, unescape_hexPairs he String.utf8EncodeChar_ne_nil, ih]
    rfl

/-- A value that stands for a text is never taken for hexadecimal DER. -/
theorem Renders.not_hash {text s : List Char} (h : Renders true text s) (hex : List Char) :
    s ≠ '#' :: hex := by
  rintro rfl
  generalize hs : '#' :: hex = s at h
  cases h with
  | nil => cases hs
  | plain _ _ hhash _ =>
    cases hs
    cases hhash rfl
  | special => cases hs
  | @hex _ c _ e _ he _ =>
    cases hc : String.utf8EncodeChar c with
    | nil => exact absurd hc String.utf8EncodeChar_ne_nil
    | cons b bs =>
      rw [hc] at he
      cases he
      cases hs

/-- No short name has a separator or a special character in it. -/
theorem nameAttributes_chars : ∀ entry ∈ nameAttributes,
    ∀ c ∈ ['\\', ',', '+', '='], c ∉ entry.1.toList.map Char.toLower := by
  have hall : ∀ entry ∈ nameAttributes, (['\\', ',', '+', '='].all fun c =>
      c ∉ entry.1.toList.map Char.toLower) = true := by decide
  exact fun entry hentry => forall_mem_of_all (hall entry hentry)

/-- Names that differ in case only have one identifier. -/
theorem nameAttributes_functional : ∀ entry ∈ nameAttributes, ∀ other ∈ nameAttributes,
    eqIgnoreAsciiCase entry.1.toList other.1.toList → entry.2 = other.2 := by
  decide

theorem nameAttributes_alpha : ∀ entry ∈ nameAttributes,
    (entry.1.toList.map Char.toLower).any Char.isAlpha := by
  decide

theorem attributeOid_name {name oid : String} (hmem : (name, oid) ∈ nameAttributes)
    {key : List Char} (hkey : eqIgnoreAsciiCase name.toList key) : attributeOid key = oid := by
  rw [attributeOid]
  cases hf : nameAttributes.find? (fun entry => eqIgnoreAsciiCase entry.1.toList key) with
  | none =>
    rw [List.find?_eq_none] at hf
    exact absurd hkey (hf (name, oid) hmem)
  | some entry =>
    have hentry := List.find?_some (p := fun e : String × String =>
      eqIgnoreAsciiCase e.1.toList key) hf
    have hsame : eqIgnoreAsciiCase entry.1.toList name.toList := by
      rw [eqIgnoreAsciiCase, decide_eq_true_eq] at hentry hkey ⊢
      rw [hentry, hkey]
    exact nameAttributes_functional entry (List.mem_of_find?_eq_some hf) (name, oid) hmem hsame

/-- The characters of the dotted form. -/
theorem Oid.mem_dotted {oid : Oid} {c : Char} (h : c ∈ oid.dotted.toList) :
    c.isDigit ∨ c = '.' := by
  rw [Oid.dotted, String.toList_intercalate] at h
  rcases mem_intercalate h with h | ⟨digits, hdigits, h⟩
  · exact .inr (List.mem_singleton.mp h)
  · rw [List.map_map, List.mem_map] at hdigits
    obtain ⟨n, -, rfl⟩ := hdigits
    have hd : c ∈ decimal n := by
      rw [Function.comp_apply, Nat.toString_eq_repr, Nat.toList_repr] at h
      exact h
    exact .inl (isDigit_of_mem_decimal hd)

theorem le_toNat_of_isAlpha {c : Char} (h : c.isAlpha) : 65 ≤ c.toNat := by
  rcases Bool.or_eq_true_iff.mp h with hupper | hlower
  · have hletter : c.val ≥ 65 ∧ c.val ≤ 90 := of_decide_eq_true hupper
    exact UInt32.le_iff_toNat_le.mp hletter.1
  · have hlower : (decide (c.val ≥ 97) && decide (c.val ≤ 122)) = true := hlower
    have : 97 ≤ c.toNat :=
      UInt32.le_iff_toNat_le.mp (of_decide_eq_true (Bool.and_eq_true_iff.mp hlower).1)
    omega

theorem isAlpha_toLower_of_isDigit {c : Char} (h : c.isDigit) : ¬ c.toLower.isAlpha := by
  have hdigit : (decide (c.val ≥ 48) && decide (c.val ≤ 57)) = true := h
  have hle : c.toNat ≤ 57 :=
    UInt32.le_iff_toNat_le.mp (of_decide_eq_true (Bool.and_eq_true_iff.mp hdigit).2)
  have hlow : c.toLower = c := by
    refine dif_neg fun hupper => ?_
    have : 65 ≤ c.toNat := UInt32.le_iff_toNat_le.mp hupper.1
    omega
  rw [hlow]
  intro halpha
  have := le_toNat_of_isAlpha halpha
  omega

theorem attributeOid_dotted (oid : Oid) : attributeOid oid.dotted.toList = oid.dotted := by
  have hnone : nameAttributes.find?
      (fun entry => eqIgnoreAsciiCase entry.1.toList oid.dotted.toList) = none := by
    rw [List.find?_eq_none]
    intro entry hentry hkey
    obtain ⟨c, hc, halpha⟩ := List.any_eq_true.mp (nameAttributes_alpha entry hentry)
    rw [eqIgnoreAsciiCase, decide_eq_true_eq] at hkey
    rw [hkey] at hc
    obtain ⟨d, hd, rfl⟩ := List.mem_map.mp hc
    rcases Oid.mem_dotted hd with hdigit | rfl
    · exact isAlpha_toLower_of_isDigit hdigit halpha
    · exact absurd halpha (by decide)
  rw [attributeOid, hnone, String.ofList_toList]

theorem TypeKey.attributeOid_eq {oid : Oid} {key : List Char} (h : TypeKey oid key) :
    attributeOid key = oid.dotted := by
  cases h with
  | name hmem hkey => exact attributeOid_name hmem hkey
  | dotted => exact attributeOid_dotted oid

/-- A type is written without separators, backslashes and equals signs. -/
theorem TypeKey.chars {oid : Oid} {key : List Char} (h : TypeKey oid key) :
    ∀ c ∈ ['\\', ',', '+', '='], c ∉ key := by
  intro c hc hmem
  cases h with
  | @name name _ hname hkey =>
    rw [eqIgnoreAsciiCase, decide_eq_true_eq] at hkey
    refine nameAttributes_chars _ hname c hc ?_
    rw [hkey]
    have hlower : ∀ d ∈ ['\\', ',', '+', '='], d.toLower = d := forall_mem_of_all (by decide)
    exact List.mem_map.mpr ⟨c, hmem, hlower c hc⟩
  | dotted =>
    have hnot : ∀ d ∈ ['\\', ',', '+', '='], ¬ (d.isDigit ∨ d = '.') :=
      forall_mem_of_all (by decide)
    exact hnot c hc (Oid.mem_dotted hmem)

theorem encodedValue_renders {der : Der} (hder : der.DocumentedStrings) {a : Oid × String}
    (ha : ValidAttribute der a) {s : List Char} (hs : Renders true a.2.toList s) :
    encodedValue der a.1 s = .ok (attributeOf a).value := by
  have hdecoded : unescape true (Host.asBytes (String.ofList s)) = .ok (Host.asBytes a.2) := by
    rw [Host.asBytes_ofList, Host.asBytes_eq]
    exact hs.unescape_eq
  rw [encodedValue.eq_def]
  split
  · rename_i hex
    exact absurd rfl (hs.not_hash hex)
  · rw [hdecoded]
    simp only [Except.ok_bind, fromUtf8_asBytes, String.ofList_toList, hder.encodeText _ _ ha.accepts ha.length_lt]
    rfl

theorem decodeText_attributeOf {der : Der} (hder : der.DocumentedStrings) {a : Oid × String}
    (ha : ValidAttribute der a) :
    der.decodeText (textKind a.1) (attributeOf a).value = .ok a.2 :=
  hder.decodeText _ _ ha.accepts ha.length_lt

/-- Contents of any string type are checked by decoding them. -/
theorem checkContents_of_decodeText {der : Der} {kind : StringKind} {value : Bytes} {text : String}
    (h : der.decodeText kind ⟨kind.tag, value⟩ = .ok text) :
    checkContents der ⟨kind.tag, value⟩ = .ok () := by
  cases kind with
  | utf8 =>
    rw [StringKind.tag] at h ⊢
    simp only [checkContents, h]
    rfl
  | printable =>
    rw [StringKind.tag] at h ⊢
    simp only [checkContents, h]
    rfl
  | ia5 =>
    rw [StringKind.tag] at h ⊢
    simp only [checkContents, h]
    rfl

theorem checkContents_attributeOf {der : Der} (hder : der.DocumentedStrings) {a : Oid × String}
    (ha : ValidAttribute der a) : checkContents der (attributeOf a).value = .ok () :=
  checkContents_of_decodeText (decodeText_attributeOf hder ha)

/-- A text of the attribute's own string type passes the checks on the type. -/
theorem checkType_attributeOf {der : Der} (hder : der.DocumentedStrings) {a : Oid × String}
    (ha : ValidAttribute der a) : checkType der a.1 (attributeOf a).value = .ok () := by
  have hdecode := decodeText_attributeOf hder ha
  rw [checkType]
  by_cases hcountry : a.1.dotted = "2.5.4.6"
  · have hkind : textKind a.1 = .printable := if_pos (.inl hcountry)
    rw [hkind] at hdecode
    rw [if_pos hcountry, hdecode]
    simp only [derError, Except.mapError, Except.ok_bind, ha.country hcountry]
    rfl
  · rw [if_neg hcountry]
    by_cases hserial : a.1.dotted = "2.5.4.5"
    · have hkind : textKind a.1 = .printable := if_pos (.inr hserial)
      rw [hkind] at hdecode
      rw [if_pos hserial, hdecode]
      rfl
    · rw [if_neg hserial]
      by_cases hia5 : a.1.dotted = "0.9.2342.19200300.100.1.25" ∨ a.1.dotted = "1.2.840.113549.1.9.1"
      · have hkind : textKind a.1 = .ia5 := by
          rw [textKind, if_neg (not_or.mpr ⟨hcountry, hserial⟩), if_pos hia5]
        rw [hkind] at hdecode
        rw [if_pos hia5, hdecode]
        rfl
      · rw [if_neg hia5]
        rfl

theorem subjectValue_renders {der : Der} (hder : der.DocumentedStrings) {a : Oid × String}
    (ha : ValidAttribute der a) {s : List Char} (hs : Renders true a.2.toList s) :
    subjectValue der a.1 s = .ok (attributeOf a).value := by
  rw [subjectValue, encodedValue_renders hder ha hs]
  simp only [Except.ok_bind, checkContents_attributeOf hder ha, checkType_attributeOf hder ha]
  rfl

theorem attributeOf_injective {a b : Oid × String} (h : attributeOf a = attributeOf b) : a = b := by
  obtain ⟨oid, text⟩ := a
  obtain ⟨oid', text'⟩ := b
  simp only [attributeOf, AttributeTypeAndValue.mk.injEq, Any.mk.injEq] at h
  obtain ⟨rfl, -, htext⟩ := h
  have hsome := fromUtf8_asBytes text
  rw [htext, fromUtf8_asBytes, Option.some.injEq] at hsome
  rw [String.toList_inj.mp hsome]

/-- A rendered attribute is added to the set that is being read. -/
theorem addAttribute_renders {der : Der} (hder : der.DocumentedStrings) {a : Oid × String}
    (ha : ValidAttribute der a) {s : List Char} (hs : RendersAttribute a s)
    {set : RelativeDistinguishedName} (hnew : attributeOf a ∉ set)
    (hsizes : ∀ b ∈ set, b.encodedLength < derLengthLimit) :
    ∃ set', addAttribute der s set = .ok set' ∧ set'.Perm (attributeOf a :: set) := by
  obtain ⟨hkey, hvalue⟩ := hs
  obtain ⟨set', hinsert, hperm⟩ := hder.insert set (attributeOf a) hnew
    (List.forall_mem_cons.mpr ⟨ha.size, hsizes⟩)
  refine ⟨set', ?_, hperm⟩
  have hoid : der.oid (attributeOid _) = .ok a.1 := hkey.attributeOid_eq ▸ ha.supported
  rw [addAttribute, splitOnce_eq_some_iff.mpr ⟨rfl, hkey.chars '=' (by simp)⟩]
  simp only [hoid, subjectValue_renders hder ha hvalue, Except.ok_bind]
  have hsame : (⟨a.1, (attributeOf a).value⟩ : AttributeTypeAndValue) = attributeOf a := rfl
  rw [hsame, hinsert]
  rfl

/-- Text without a separator outside an escape. -/
inductive Unsplit : List Char → Prop
  | nil : Unsplit []
  | plain {c : Char} {s : List Char} : c ∉ ['\\', ',', '+'] → Unsplit s → Unsplit (c :: s)
  | escaped {c : Char} {s : List Char} : Unsplit s → Unsplit ('\\' :: c :: s)

theorem Unsplit.append {s t : List Char} (hs : Unsplit s) (ht : Unsplit t) : Unsplit (s ++ t) := by
  induction hs with
  | nil => exact ht
  | plain hc _ ih => exact .plain hc ih
  | escaped _ ih => exact .escaped ih

theorem unsplit_of_forall {s : List Char} (h : ∀ c ∈ ['\\', ',', '+'], c ∉ s) : Unsplit s := by
  induction s with
  | nil => exact .nil
  | cons d s ih =>
    refine .plain (fun hd => h d hd List.mem_cons_self) (ih fun c hc hmem => ?_)
    exact h c hc (List.mem_cons_of_mem d hmem)

theorem HexPairs.unsplit {bs : Bytes} {e : List Char} (h : HexPairs bs e) : Unsplit e := by
  induction h with
  | nil => exact .nil
  | cons _ hlo _ _ ih =>
    refine .escaped (.plain ?_ ih)
    have hnone : ∀ d ∈ ['\\', ',', '+'], Percent.digitValue d = none :=
      forall_mem_of_all (by decide)
    intro hmem
    rw [hnone _ hmem] at hlo
    cases hlo

theorem Renders.unsplit {first : Bool} {text s : List Char} (h : Renders first text s) :
    Unsplit s := by
  induction h with
  | nil => exact .nil
  | plain hc _ _ _ ih =>
    refine .plain ?_ ih
    simp only [Unreserved, List.mem_cons, List.not_mem_nil, or_false, not_or] at hc ⊢
    exact ⟨hc.1, hc.2.1, hc.2.2.1⟩
  | special _ _ ih => exact .escaped ih
  | hex he _ ih => exact he.unsplit.append ih

theorem RendersAttribute.unsplit {a : Oid × String} {s : List Char} (h : RendersAttribute a s) :
    Unsplit s := by
  obtain ⟨hkey, hvalue⟩ := h
  refine (unsplit_of_forall fun c hc => hkey.chars c ?_).append (.plain (by decide) hvalue.unsplit)
  simp only [List.mem_cons, List.not_mem_nil, or_false] at hc ⊢
  rcases hc with rfl | rfl | rfl <;> simp

/-- The loop collects unsplit text as one part. -/
theorem rdnLoop_unsplit (der : Der) {s : List Char} (hs : Unsplit s) (rest part : List Char)
    (set : RelativeDistinguishedName) (rdns : Name) :
    rdnLoop der (s ++ rest) false part set rdns = rdnLoop der rest false (part ++ s) set rdns := by
  induction hs generalizing part with
  | nil => rw [List.nil_append, List.append_nil]
  | @plain c s hc _ ih =>
    simp only [List.mem_cons, List.not_mem_nil, or_false, not_or] at hc
    rw [List.cons_append, rdnLoop, if_neg hc.1, if_neg (not_or.mpr hc.2), ih, List.append_assoc,
      List.singleton_append]
  | @escaped c s _ ih =>
    rw [List.cons_append, List.cons_append, rdnLoop, if_pos rfl, rdnLoop, ih, List.append_assoc,
      List.append_assoc, List.singleton_append, List.singleton_append]

theorem rdnLoop_end (der : Der) {s : List Char} (hs : Unsplit s) (set : RelativeDistinguishedName)
    (rdns : Name) : rdnLoop der s false [] set rdns =
      (addAttribute der s set).map (fun set' => rdns ++ [set']) := by
  have h := rdnLoop_unsplit der hs [] [] set rdns
  rw [List.append_nil, List.nil_append] at h
  rw [h, rdnLoop]
  cases addAttribute der s set <;> rfl

theorem rdnLoop_comma (der : Der) {s : List Char} (hs : Unsplit s)
    {set set' : RelativeDistinguishedName} (hadd : addAttribute der s set = .ok set')
    (rest : List Char) (rdns : Name) :
    rdnLoop der (s ++ ',' :: rest) false [] set rdns =
      rdnLoop der rest false [] [] (rdns ++ [set']) := by
  rw [rdnLoop_unsplit der hs, List.nil_append, rdnLoop, if_neg (by decide), if_pos (by decide), hadd]
  rfl

theorem rdnLoop_plus (der : Der) {s : List Char} (hs : Unsplit s)
    {set set' : RelativeDistinguishedName} (hadd : addAttribute der s set = .ok set')
    (rest : List Char) (rdns : Name) :
    rdnLoop der (s ++ '+' :: rest) false [] set rdns = rdnLoop der rest false [] set' rdns := by
  rw [rdnLoop_unsplit der hs, List.nil_append, rdnLoop, if_neg (by decide), if_pos (by decide), hadd]
  rfl

/-- A rendered RDN adds its attributes to the set, whether the string ends
after it or goes on with a comma. -/
theorem rdnLoop_attributes {der : Der} (hder : der.DocumentedStrings)
    {written : List (Oid × String)} {s : List Char} (hs : Joined '+' RendersAttribute written s)
    (hvalid : ∀ a ∈ written, ValidAttribute der a) {set : RelativeDistinguishedName}
    (hnodup : (written.map attributeOf ++ set).Nodup)
    (hsizes : ∀ b ∈ set, b.encodedLength < derLengthLimit) :
    ∃ set', set'.Perm (written.map attributeOf ++ set) ∧
      (∀ rdns, rdnLoop der s false [] set rdns = .ok (rdns ++ [set'])) ∧
      ∀ rest rdns, rdnLoop der (s ++ ',' :: rest) false [] set rdns =
        rdnLoop der rest false [] [] (rdns ++ [set']) := by
  induction hs generalizing set with
  | @single a s hs =>
    have hnew : attributeOf a ∉ set := (List.nodup_cons.mp hnodup).1
    obtain ⟨set', hadd, hperm⟩ :=
      addAttribute_renders hder (hvalid a List.mem_cons_self) hs hnew hsizes
    refine ⟨set', hperm, fun rdns => ?_, rdnLoop_comma der hs.unsplit hadd⟩
    rw [rdnLoop_end der hs.unsplit, hadd]
    rfl
  | @cons a written s t hs _ ih =>
    have ha := hvalid a List.mem_cons_self
    rw [List.map_cons, List.cons_append] at hnodup
    have hnew : attributeOf a ∉ set := fun hmem =>
      (List.nodup_cons.mp hnodup).1 (List.mem_append_right _ hmem)
    obtain ⟨set₁, hadd, hperm₁⟩ := addAttribute_renders hder ha hs hnew hsizes
    have hmiddle : (written.map attributeOf ++ set₁).Perm
        (attributeOf a :: (written.map attributeOf ++ set)) :=
      (hperm₁.append_left _).trans List.perm_middle
    have hsizes₁ : ∀ b ∈ set₁, b.encodedLength < derLengthLimit := by
      intro b hb
      rcases List.mem_cons.mp (hperm₁.mem_iff.mp hb) with rfl | hb
      · exact ha.size
      · exact hsizes b hb
    obtain ⟨set', hperm, hend, hcomma⟩ := ih (fun b hb => hvalid b (List.mem_cons_of_mem a hb))
      (hmiddle.nodup_iff.mpr hnodup) hsizes₁
    refine ⟨set', hperm.trans hmiddle, fun rdns => ?_, fun rest rdns => ?_⟩
    · rw [rdnLoop_plus der hs.unsplit hadd, hend]
    · rw [List.append_assoc, List.cons_append, rdnLoop_plus der hs.unsplit hadd, hcomma]

/-- An RDN in any order gives one set with exactly its attributes. -/
theorem rdnLoop_rdn {der : Der} (hder : der.DocumentedStrings) {rdn : List (Oid × String)}
    {s : List Char} (hs : RendersRdn rdn s) (hvalid : ∀ a ∈ rdn, ValidAttribute der a)
    (hnodup : rdn.Nodup) :
    ∃ set, set.Perm (rdn.map attributeOf) ∧
      (∀ rdns, rdnLoop der s false [] [] rdns = .ok (rdns ++ [set])) ∧
      ∀ rest rdns, rdnLoop der (s ++ ',' :: rest) false [] [] rdns =
        rdnLoop der rest false [] [] (rdns ++ [set]) := by
  obtain ⟨written, hperm, hs⟩ := hs
  have hmapped : (written.map attributeOf ++ []).Nodup := by
    rw [List.append_nil]
    exact (hperm.nodup_iff.mpr hnodup).map fun _ _ h => attributeOf_injective h
  obtain ⟨set, hset, hend, hcomma⟩ := rdnLoop_attributes hder hs
    (fun a ha => hvalid a (hperm.mem_iff.mp ha)) hmapped (List.forall_mem_nil _)
  rw [List.append_nil] at hset
  exact ⟨set, hset.trans (hperm.map attributeOf), hend, hcomma⟩

theorem rdnLoop_name {der : Der} (hder : der.DocumentedStrings)
    {rdns : List (List (Oid × String))} {s : List Char} (hs : RendersName rdns s)
    (hvalid : ∀ rdn ∈ rdns, ∀ a ∈ rdn, ValidAttribute der a) (hnodup : ∀ rdn ∈ rdns, rdn.Nodup) :
    ∃ name, (∀ before, rdnLoop der s false [] [] before = .ok (before ++ name)) ∧
      List.Forall₂ (fun set rdn => set.Perm (rdn.map attributeOf)) name rdns := by
  rw [RendersName] at hs
  induction hs with
  | @single rdn s hs =>
    obtain ⟨set, hperm, hend, -⟩ :=
      rdnLoop_rdn hder hs (hvalid rdn List.mem_cons_self) (hnodup rdn List.mem_cons_self)
    exact ⟨[set], hend, .cons hperm .nil⟩
  | @cons rdn rdns s t hs _ ih =>
    obtain ⟨set, hperm, -, hcomma⟩ :=
      rdnLoop_rdn hder hs (hvalid rdn List.mem_cons_self) (hnodup rdn List.mem_cons_self)
    obtain ⟨name, hname, hrest⟩ := ih (fun r hr => hvalid r (List.mem_cons_of_mem rdn hr))
      (fun r hr => hnodup r (List.mem_cons_of_mem rdn hr))
    refine ⟨set :: name, fun before => ?_, .cons hperm hrest⟩
    rw [hcomma, hname, List.append_assoc, List.singleton_append]

/-- Every rendering of a sequence of RDNs parses to them in reverse order, each
with exactly the given types and texts. -/
theorem parseRfc4514_renders {der : Der} (hder : der.DocumentedStrings)
    {rdns : List (List (Oid × String))} (hvalid : ∀ rdn ∈ rdns, ∀ a ∈ rdn, ValidAttribute der a)
    (hnodup : ∀ rdn ∈ rdns, rdn.Nodup) {s : String} (hs : RendersName rdns s.toList) :
    ∃ name, parseRfc4514 der s = .ok name ∧
      List.Forall₂ (fun set rdn => set.Perm (rdn.map attributeOf)) name rdns.reverse := by
  obtain ⟨name, hname, hsets⟩ := rdnLoop_name hder hs hvalid hnodup
  refine ⟨name.reverse, ?_, List.rel_reverse hsets⟩
  rw [parseRfc4514, hname, List.nil_append]
  rfl

theorem referenceDer_documentedStrings : referenceDer.DocumentedStrings where
  encodeText kind text _ h := if_pos h
  decodeText kind text _ _ := by simp [referenceDer, fromUtf8_asBytes]
  insert set a ha _ := ⟨set ++ [a], if_neg ha, List.perm_append_singleton a set⟩

def organization : Oid := ⟨[2, 5, 4, 10]⟩

def countryName : Oid := ⟨[2, 5, 4, 6]⟩

/-- Two RDNs, the first with two attributes that are written the other way
round; escapes as a special character and as hexadecimal bytes. -/
theorem parseRfc4514_renders_escaped :
    ∃ name, parseRfc4514 referenceDer "cn=a=b+2.5.4.10=\\#\\c3\\A5\\,\\20,C=SG" = .ok name ∧
      List.Forall₂ (fun set rdn => set.Perm (rdn.map attributeOf)) name
        [[(countryName, "SG")], [(organization, "#å, "), (commonName, "a=b")]] := by
  have hutf8 : textKind organization = .utf8 ∧ textKind commonName = .utf8 := by decide
  have hprintable : textKind countryName = .printable := by decide
  have hvalid : ∀ rdn ∈ [[(organization, "#å, "), (commonName, "a=b")], [(countryName, "SG")]],
      ∀ a ∈ rdn, ValidAttribute referenceDer a := by
    simp only [List.forall_mem_cons, List.not_mem_nil, false_implies, implies_true, and_true]
    refine ⟨⟨⟨by decide, ?_, by decide, by decide⟩,
      ⟨by decide, ?_, by decide, by decide⟩⟩,
      ⟨by decide, ?_, by decide, by decide⟩⟩
    · rw [hutf8.1]
      trivial
    · rw [hutf8.2]
      trivial
    · rw [hprintable]
      exact forall_mem_of_all (by decide)
  have hletter : ∀ {first : Bool} {c : Char} {text s : List Char}, Unreserved c → c ≠ ' ' →
      c ≠ '#' → Renders false text s → Renders first (c :: text) (c :: s) :=
    fun hc hspace hhash hs => .plain hc (fun h => absurd h hspace) (fun h => absurd h hhash) hs
  have horganization : RendersAttribute (organization, "#å, ")
      ("2.5.4.10".toList ++ '=' :: "\\#\\c3\\A5\\,\\20".toList) := by
    refine .mk .dotted ?_
    refine .special (by decide) (.hex (e := "\\c3\\A5".toList) ?_ (.special (by decide)
      (.hex (e := "\\20".toList) ?_ .nil)))
    · exact .cons (by decide : Percent.digitValue 'c' = some 12) (by decide : Percent.digitValue '3' = some 3)
        (by decide) (.cons (by decide : Percent.digitValue 'A' = some 10)
        (by decide : Percent.digitValue '5' = some 5) (by decide) .nil)
    · exact .cons (by decide : Percent.digitValue '2' = some 2)
        (by decide : Percent.digitValue '0' = some 0) (by decide) .nil
  have hcommon : RendersAttribute (commonName, "a=b") ("cn".toList ++ '=' :: "a=b".toList) := by
    have hmem : ("CN", commonName.dotted) ∈ nameAttributes := by decide
    refine .mk (.name hmem (by decide)) ?_
    exact hletter (by decide) (by decide) (by decide) (hletter (by decide) (by decide) (by decide)
      (hletter (by decide) (by decide) (by decide) .nil))
  have hcountry : RendersAttribute (countryName, "SG") ("C".toList ++ '=' :: "SG".toList) := by
    have hmem : ("C", countryName.dotted) ∈ nameAttributes := by decide
    refine .mk (.name hmem (by decide)) ?_
    exact hletter (by decide) (by decide) (by decide) (hletter (by decide) (by decide) (by decide)
      .nil)
  have hs : RendersName [[(organization, "#å, "), (commonName, "a=b")], [(countryName, "SG")]]
      "cn=a=b+2.5.4.10=\\#\\c3\\A5\\,\\20,C=SG".toList := by
    have htext : "cn=a=b+2.5.4.10=\\#\\c3\\A5\\,\\20,C=SG".toList =
        (("cn".toList ++ '=' :: "a=b".toList) ++
          '+' :: ("2.5.4.10".toList ++ '=' :: "\\#\\c3\\A5\\,\\20".toList)) ++
        ',' :: ("C".toList ++ '=' :: "SG".toList) := by decide
    rw [htext]
    exact .cons ⟨_, .swap _ _ _, .cons hcommon (.single horganization)⟩
      (.single ⟨_, .refl _, .single hcountry⟩)
  exact parseRfc4514_renders referenceDer_documentedStrings hvalid (by decide) hs

end X509
