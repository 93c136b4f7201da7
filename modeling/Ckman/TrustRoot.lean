import Ckman.Attestation
import Ckman.Pem

/-!
# The trust root of an attestation

`decode_root` accepts one certificate as DER or in PEM armour. What is armour is
decided twice: strictly by `decode_root` unless the first byte is that of a DER
sequence, and leniently by `pem_decode`.
-/
namespace Attestation

open Host
open Text Pem

set_option maxRecDepth 8000

variable {VerifyingKey Signature : Type} (crates : Crates VerifyingKey Signature) (base64 : Base64)

def beginCertificate : List Char := "-----BEGIN CERTIFICATE-----".toList

def endCertificate : List Char := "-----END CERTIFICATE-----".toList

/-- One block from the start of the text to its end; other inputs are left to
the certificate parser. -/
def checkArmour (input : Bytes) : Checked Unit :=
  if input.head? = some 0x30 then .ok ()
  else do
    let text ← okOr (fromUtf8 input) .trustRoot
    refuse (countMatches beginMarker 0 text ≠ 1 ∨ ¬ beginCertificate <+: trimStart text ∨
      ¬ endCertificate <:+ trimEnd text) .trustRoot

def decodeRoot (input : Bytes) : Checked Bytes := do
  refuse (input.length > maxCertificateBytes * 2) .trustRoot
  checkArmour input
  let decoded ← (pemDecode base64 input ["CERTIFICATE".toList]).mapError fun _ => .trustRoot
  let _ ← parse crates decoded.2 "root"
  pure decoded.2

/-- The text of a single certificate block, with white space around it. -/
structure SingleBlock (text : List Char) : Prop where
  starts : beginCertificate <+: trimStart text
  ends : endCertificate <:+ trimEnd text
  single : occurrences beginMarker text = 1

/-- The input is the encoding of the certificate, or its only block. -/
def ExactlyOne (input der : Bytes) : Prop :=
  input = der ∨ ∃ text, fromUtf8 input = some text ∧ SingleBlock text

/-- A text that begins with `0`, the first byte of a DER sequence, and holds a
certificate block somewhere. -/
structure Disguised (input : Bytes) : Prop where
  bounded : input.length ≤ maxCertificateBytes * 2
  sequence : input.head? = some 0x30
  armour : (armoured input).isSome
  block : ∃ label der cert, pemDecode base64 input ["CERTIFICATE".toList] = .ok (label, der) ∧
    parse crates der "root" = .ok cert

theorem beginMarker_unbordered : Unbordered beginMarker := by
  decide

variable {crates base64}

/-- The strict check accepts the text of a single block. -/
theorem checkArmour_iff {input : Bytes} (h : input.head? ≠ some 0x30) :
    checkArmour input = .ok () ↔ ∃ text, fromUtf8 input = some text ∧ SingleBlock text := by
  rw [checkArmour, if_neg h]
  simp only [Except.bind_eq_ok_iff, okOr_eq_ok_iff, refuse_eq_ok_iff, not_or, not_not, ne_eq]
  refine exists_congr fun text => and_congr_right fun _ => ?_
  rw [countMatches_eq_occurrences (by decide) beginMarker_unbordered]
  constructor
  · rintro ⟨hsingle, hstarts, hends⟩
    exact ⟨hstarts, hends, hsingle⟩
  · rintro ⟨hstarts, hends, hsingle⟩
    exact ⟨hsingle, hstarts, hends⟩

theorem decodeRoot_iff {input der : Bytes} :
    decodeRoot crates base64 input = .ok der ↔
      input.length ≤ maxCertificateBytes * 2 ∧ checkArmour input = .ok () ∧
        ∃ label cert, pemDecode base64 input ["CERTIFICATE".toList] = .ok (label, der) ∧
          parse crates der "root" = .ok cert := by
  simp only [decodeRoot, Except.bind_eq_ok_iff, refuse_eq_ok_iff, Except.mapError_eq_ok_iff, not_lt,
    gt_iff_lt, Prod.exists]
  constructor
  · rintro ⟨-, hbound, ⟨⟩, harmour, label, der', hpem, cert, hparse, hder⟩
    cases hder
    exact ⟨hbound, harmour, label, cert, hpem, hparse⟩
  · rintro ⟨hbound, harmour, label, cert, hpem, hparse⟩
    exact ⟨(), hbound, (), harmour, label, der, hpem, cert, hparse, rfl⟩

theorem certificate_of_parse {der : Bytes} {role : String} {cert : Certificate}
    (h : parse crates der role = .ok cert) : crates.certificate der = some cert :=
  ((parse_iff crates).mp h).2

/-- The byte of `0` at the front of a text is the character `0`. -/
theorem eq_zero_of_head {c : Char} {cs : List Char} (h : (utf8 (c :: cs)).head? = some 0x30) :
    c = '0' := by
  by_cases hc : c.toNat < 128
  · rw [utf8_cons, utf8EncodeChar_of_lt hc] at h
    have hbyte : c.toUInt8.toNat = 48 := congrArg UInt8.toNat (Option.some.inj h)
    have hval : c.toNat % 256 = 48 := hbyte
    exact Char.toNat_inj.mp (by rw [show '0'.toNat = 48 by rfl]; omega)
  · have hmem : (0x30 : UInt8) ∈ String.utf8EncodeChar c := by
      have hne : String.utf8EncodeChar c ≠ [] := by
        intro hnil
        have hsize := Char.utf8Size_pos c
        rw [← String.length_utf8EncodeChar, hnil] at hsize
        exact absurd hsize (lt_irrefl 0)
      rw [utf8_cons, List.head?_append_of_ne_nil _ hne] at h
      exact List.mem_of_head? h
    exact absurd (le_of_mem_utf8EncodeChar (not_lt.mp hc) hmem) (by decide)

/-- A text whose first byte is `0` is no single block. -/
theorem not_singleBlock {text : List Char} (h : (utf8 text).head? = some 0x30) : ¬ SingleBlock text := by
  intro hblock
  cases text with
  | nil => cases h
  | cons c cs =>
    obtain rfl := eq_zero_of_head h
    have hstarts : beginCertificate <+: '0' :: cs := by
      have := hblock.starts
      rwa [trimStart, List.dropWhile_cons_of_neg (by decide)] at this
    exact absurd (List.cons_prefix_cons.mp hstarts).1 (by decide)

/-- The accepted input is one certificate, unless a text that begins with `0`
slips past the strict check. -/
theorem decodeRoot_exact_iff (input : Bytes) :
    (∀ der, decodeRoot crates base64 input = .ok der →
      (∃ cert, crates.certificate der = some cert) ∧ ExactlyOne input der) ↔
      ¬ Disguised crates base64 input := by
  constructor
  · rintro hmeets ⟨hbound, hfirst, harmour, label, der, cert, hpem, hparse⟩
    obtain ⟨text, harmour⟩ := Option.isSome_iff_exists.mp harmour
    have haccepted : decodeRoot crates base64 input = .ok der :=
      decodeRoot_iff.mpr ⟨hbound, if_pos hfirst, label, cert, hpem, hparse⟩
    rcases (hmeets der haccepted).2 with rfl | ⟨text', htext, hblock⟩
    · exact absurd (pemDecode_length harmour hpem) (lt_irrefl _)
    · rw [fromUtf8_eq_some_iff.mp htext] at hfirst
      exact not_singleBlock hfirst hblock
  · intro hplain der haccepted
    obtain ⟨hbound, harmour, label, cert, hpem, hparse⟩ := decodeRoot_iff.mp haccepted
    refine ⟨⟨cert, certificate_of_parse hparse⟩, ?_⟩
    by_cases hfirst : input.head? = some 0x30
    · cases htext : armoured input with
      | none =>
        rw [pemDecode_der htext] at hpem
        cases hpem
        exact .inl rfl
      | some text =>
        exact absurd ⟨hbound, hfirst, htext ▸ rfl, label, der, cert, hpem, hparse⟩ hplain
    · exact .inr ((checkArmour_iff hfirst).mp harmour)

namespace Fixture

def sextet (b : UInt8) : Option Nat :=
  if 65 ≤ b ∧ b ≤ 90 then some (b.toNat - 65)
  else if 97 ≤ b ∧ b ≤ 122 then some (b.toNat - 71)
  else if 48 ≤ b ∧ b ≤ 57 then some (b.toNat + 4)
  else if b = 43 then some 62
  else if b = 47 then some 63
  else none

def letter (n : Nat) : Char :=
  if n < 26 then Char.ofNat (n + 65)
  else if n < 52 then Char.ofNat (n + 71)
  else if n < 62 then Char.ofNat (n - 4)
  else if n = 62 then '+'
  else '/'

/-- Four characters at a time; only the last ones may be padded. -/
def decodeQuads : Bytes → Option Bytes
  | [] => some []
  | [a, b, 0x3d, 0x3d] => do
    let n := 64 * (← sextet a) + (← sextet b)
    if n % 16 = 0 then some [UInt8.ofNat (n / 16)] else none
  | [a, b, c, 0x3d] => do
    let n := 64 * (64 * (← sextet a) + (← sextet b)) + (← sextet c)
    if n % 4 = 0 then some [UInt8.ofNat (n / 1024), UInt8.ofNat (n / 4)] else none
  | a :: b :: c :: d :: rest => do
    let n := 64 * (64 * (64 * (← sextet a) + (← sextet b)) + (← sextet c)) + (← sextet d)
    let rest ← decodeQuads rest
    some (UInt8.ofNat (n / 65536) :: UInt8.ofNat (n / 256) :: UInt8.ofNat n :: rest)
  | _ => none

def letters (n : Nat) (shifts : List Nat) : List Char := shifts.map fun shift => letter (n / 2 ^ shift % 64)

def encodeQuads : Bytes → List Char
  | [] => []
  | [a] => letters (a.toNat * 65536) [18, 12] ++ ['=', '=']
  | [a, b] => letters (a.toNat * 65536 + b.toNat * 256) [18, 12, 6] ++ ['=']
  | a :: b :: c :: rest =>
    letters (a.toNat * 65536 + b.toNat * 256 + c.toNat) [18, 12, 6, 0] ++ encodeQuads rest

def testBase64 : Base64 where
  encode := encodeQuads
  decode source :=
    match decodeQuads source with
    | none => none
    | some out => if h : out.length ≤ source.length then some ⟨out, h⟩ else none

def rootPem : List Char := pemText testBase64 "CERTIFICATE".toList rootDer

/-- Two certificates behind a `0`. -/
def disguisedBundle : List Char := '0' :: (rootPem ++ rootPem)

theorem disguisedBundle_armoured : armoured (utf8 disguisedBundle) = some disguisedBundle := by
  rw [armoured, fromUtf8_utf8, Option.filter_some]
  exact if_pos (by decide)

theorem disguisedBundle_block :
    pemDecode testBase64 (utf8 disguisedBundle) ["CERTIFICATE".toList] =
      .ok ("CERTIFICATE".toList, rootDer) := by
  rw [pemDecode_armoured disguisedBundle_armoured]
  decide +kernel

end Fixture

/-- The bundle is accepted as its first certificate. -/
theorem decodeRoot_bundle :
    ¬ ∀ der, decodeRoot Fixture.testCrates Fixture.testBase64 (utf8 Fixture.disguisedBundle) = .ok der →
      (∃ cert, Fixture.testCrates.certificate der = some cert) ∧
        ExactlyOne (utf8 Fixture.disguisedBundle) der := by
  intro hmeets
  have hcert : Fixture.testCrates.certificate Fixture.rootDer = some Fixture.rootCert := by
    simp only [Fixture.testCrates, if_true]
  have hparse : parse Fixture.testCrates Fixture.rootDer "root" = .ok Fixture.rootCert :=
    (parse_iff _).mpr ⟨by decide, hcert⟩
  have haccepted : decodeRoot Fixture.testCrates Fixture.testBase64 (utf8 Fixture.disguisedBundle) =
      .ok Fixture.rootDer :=
    decodeRoot_iff.mpr ⟨by decide +kernel, if_pos rfl, _, _, Fixture.disguisedBundle_block, hparse⟩
  rcases (hmeets _ haccepted).2 with hder | ⟨text, htext, hblock⟩
  · have hlength := pemDecode_length Fixture.disguisedBundle_armoured Fixture.disguisedBundle_block
    rw [hder] at hlength
    exact lt_irrefl _ hlength
  · rw [fromUtf8_utf8] at htext
    cases htext
    exact not_singleBlock rfl hblock

end Attestation
