import Ckman.Der
import Ckman.PemBlocks
import Ckman.PrivateKeyFile

/-!
# Telling key formats apart

Armour is recognized by its text and the encodings of a private key by trying
them in turn. What keeps the encodings apart is how their SEQUENCEs begin.
-/
namespace Pem

open Host
open Text

def IsPemText (input : Bytes) : Prop :=
  ∃ text, input = utf8 text ∧ contains "-----BEGIN".toList text = true

theorem armoured_eq_none_iff {input : Bytes} : armoured input = none ↔ ¬ IsPemText input := by
  rw [armoured, Option.filter_eq_none_iff]
  constructor
  · rintro h ⟨text, htext, hcontains⟩
    exact h text (fromUtf8_eq_some_iff.mpr htext) hcontains
  · intro h text htext hcontains
    exact h ⟨text, fromUtf8_eq_some_iff.mp htext, hcontains⟩

/-- Only what is not armoured comes through as it is. -/
theorem pemDecode_eq_input_iff {base64 : Base64} {input : Bytes} {labels : List (List Char)} :
    pemDecode base64 input labels = .ok ([], input) ↔ ¬ IsPemText input := by
  rw [← armoured_eq_none_iff]
  refine ⟨fun h => ?_, pemDecode_der⟩
  cases harmour : armoured input with
  | none => rfl
  | some text => exact absurd (pemDecode_length harmour h) (lt_irrefl _)

/-- A SEQUENCE is passed through unchanged exactly if it is no text with a BEGIN marker. -/
theorem pemDecode_sequence_iff (base64 : Base64) (labels : List (List Char)) (contents : Bytes) :
    pemDecode base64 (Der.tlv 0x30 contents) labels = .ok ([], Der.tlv 0x30 contents) ↔
      ¬ IsPemText (Der.tlv 0x30 contents) :=
  pemDecode_eq_input_iff

/-- A SEQUENCE with one OCTET STRING of ASCII is refused for a broken armour. -/
theorem pemDecode_sequence_refused :
    ¬ ∀ labels contents, pemDecode Attestation.Fixture.testBase64 (Der.tlv 0x30 contents) labels =
      .ok ([], Der.tlv 0x30 contents) := by
  intro h
  have htext : IsPemText (Der.tlv 0x30 (Der.tlv 0x04 (utf8 "-----BEGIN".toList))) :=
    ⟨'\x30' :: '\x0c' :: '\x04' :: '\x0a' :: "-----BEGIN".toList, by decide, by decide⟩
  exact pemDecode_eq_input_iff.mp (h [] _) htext

/-- A single block is decoded to what it was written from. -/
theorem pemDecode_pemEncode {base64 : Base64} (h : base64.Lawful) {labels : List (List Char)}
    {label : List Char} (hlabel : '-' ∉ label) (hwanted : label ∈ labels) (der : Bytes) :
    pemDecode base64 (pemEncode base64 label der) labels = .ok (label, der) := by
  have hbundle := pemDecode_bundle h labels [] [⟨label, der, []⟩] (List.cons_ne_nil _ _)
    (List.forall_mem_singleton.mpr hlabel) rfl (List.forall_mem_singleton.mpr rfl)
  have hinput : bundle base64 [] [⟨label, der, []⟩] = pemEncode base64 label der := by
    simp [bundle]
  have hfirst : firstWanted labels [⟨label, der, []⟩] = .ok (label, der) := by
    simp [firstWanted, hwanted]
  rw [← hinput, hbundle, hfirst]

end Pem

namespace Keys

open Host
open Pem (Base64 KeyError pemDecode pemEncode IsPemText)

variable {Secret Point : Type} {base64 : Base64} {crates : Pkcs12.Crates Secret Point}

/-- How the decoders of the private key formats see a SEQUENCE begin: with a version and an
algorithm, with an encryption scheme and an OCTET STRING, with a version and a modulus, with
a version and an OCTET STRING. -/
structure DocumentedShapes (crates : Pkcs12.Crates Secret Point) : Prop where
  privateKeyInfo : ∀ der info, crates.privateKeyInfo der = some info →
    Der.sequenceTags 2 der = some [0x02, 0x30]
  encryptedPrivateKeyInfo : ∀ der info, crates.encryptedPrivateKeyInfo der = some info →
    Der.sequenceTags 2 der = some [0x30, 0x04]
  rsaPrivateKey : ∀ der key, crates.rsaPrivateKey der = some key →
    Der.sequenceTags 2 der = some [0x02, 0x02]
  ecPrivateKey : ∀ der key, crates.ecPrivateKey der = some key →
    Der.sequenceTags 2 der = some [0x02, 0x04]

/-- A decoder for another beginning refuses the bytes. -/
theorem eq_none_of_tags {α : Type} {decode : Bytes → Option α} {expected tags : List UInt8}
    {der : Bytes} (hdecode : ∀ a, decode der = some a → Der.sequenceTags 2 der = some expected)
    (htags : Der.sequenceTags 2 der = some tags) (hne : tags ≠ expected) : decode der = none := by
  refine Option.eq_none_iff_forall_ne_some.mpr fun a ha => hne ?_
  exact Option.some.inj (htags.symm.trans (hdecode a ha))

section Fallback

variable {der : Bytes} {password : Option Bytes} {key : ImportedKey}

theorem fromPkcs1_error (h : crates.rsaPrivateKey der = none) :
    fromPkcs1 crates.toCrates der = .error .encoding := by
  rw [fromPkcs1, decodeRsaPrivate, h]
  rfl

theorem fromPkcs1_read (h : fromPkcs1 crates.toCrates der = .ok key) :
    ∃ rsa, crates.rsaPrivateKey der = some rsa := by
  obtain ⟨rsa, hdecode, -⟩ := Except.bind_eq_ok_iff.mp h
  exact ⟨rsa, (decodeRsaPrivate_eq_ok hdecode).1⟩

variable [DecidableEq Point]

theorem fromPkcs8_error (h : crates.privateKeyInfo der = none) :
    fromPkcs8 crates.toCrates der = .error .encoding := by
  rw [fromPkcs8, h]
  rfl

theorem decryptPkcs8_error (h : crates.encryptedPrivateKeyInfo der = none) :
    decryptPkcs8 crates.toCrates der password = .error .encoding := by
  rw [decryptPkcs8, h]
  rfl

/-- A key that is accepted was read from a structure of its format. -/
theorem decryptPkcs8_read (h : decryptPkcs8 crates.toCrates der password = .ok key) :
    ∃ encrypted, crates.encryptedPrivateKeyInfo der = some encrypted := by
  obtain ⟨encrypted, hencrypted, -⟩ := Except.bind_eq_ok_iff.mp h
  exact ⟨encrypted, okOr_eq_ok_iff.mp hencrypted⟩

theorem fromSec1_read (h : fromSec1 crates.toCrates der = .ok key) :
    ∃ sec1, crates.ecPrivateKey der = some sec1 := by
  obtain ⟨sec1, hsec1, -⟩ := Except.bind_eq_ok_iff.mp h
  exact ⟨sec1, okOr_eq_ok_iff.mp hsec1⟩

theorem parseUnlabelled_encrypted (hshapes : DocumentedShapes crates)
    (h : decryptPkcs8 crates.toCrates der password = .ok key) :
    parseUnlabelled crates der password = .ok key := by
  obtain ⟨encrypted, hencrypted⟩ := decryptPkcs8_read h
  have htags := hshapes.encryptedPrivateKeyInfo der encrypted hencrypted
  have hpkcs8 := eq_none_of_tags (hshapes.privateKeyInfo der) htags (by decide)
  rw [parseUnlabelled, fromPkcs8_error hpkcs8, h]
  rfl

theorem parseUnlabelled_rsa (hshapes : DocumentedShapes crates)
    (h : fromPkcs1 crates.toCrates der = .ok key) :
    parseUnlabelled crates der password = .ok key := by
  obtain ⟨rsa, hrsa⟩ := fromPkcs1_read h
  have htags := hshapes.rsaPrivateKey der rsa hrsa
  have hpkcs8 := eq_none_of_tags (hshapes.privateKeyInfo der) htags (by decide)
  have hencrypted := eq_none_of_tags (hshapes.encryptedPrivateKeyInfo der) htags (by decide)
  rw [parseUnlabelled, fromPkcs8_error hpkcs8, decryptPkcs8_error hencrypted, h]
  rfl

theorem parseUnlabelled_ec (hshapes : DocumentedShapes crates)
    (h : fromSec1 crates.toCrates der = .ok key) :
    parseUnlabelled crates der password = .ok key := by
  obtain ⟨sec1, hsec1⟩ := fromSec1_read h
  have htags := hshapes.ecPrivateKey der sec1 hsec1
  have hpkcs8 := eq_none_of_tags (hshapes.privateKeyInfo der) htags (by decide)
  have hencrypted := eq_none_of_tags (hshapes.encryptedPrivateKeyInfo der) htags (by decide)
  have hrsa := eq_none_of_tags (hshapes.rsaPrivateKey der) htags (by decide)
  rw [parseUnlabelled, fromPkcs8_error hpkcs8, decryptPkcs8_error hencrypted, fromPkcs1_error hrsa, h]
  rfl

/-- The labels that `parse_private_key` accepts. -/
def privateKeyLabels : List (List Char) := [privateKeyLabel, encryptedLabel, rsaLabel, ecLabel]

/-- What is accepted in armour is accepted bare, as the same key. -/
theorem parsePrivateKey_bare (hbase64 : base64.Lawful) (hshapes : DocumentedShapes crates)
    (hder : ¬ IsPemText der) {label : List Char} (hlabel : label ∈ privateKeyLabels)
    (h : parsePrivateKey base64 crates (pemEncode base64 label der) password = .ok key) :
    parsePrivateKey base64 crates der password = .ok key := by
  have hdash : '-' ∉ label := Text.forall_mem_of_all (p := fun l => '-' ∉ l) (by decide) label hlabel
  have hdecode : pemDecode base64 (pemEncode base64 label der)
      [privateKeyLabel, encryptedLabel, rsaLabel, ecLabel] = .ok (label, der) :=
    Pem.pemDecode_pemEncode hbase64 hdash hlabel der
  have hbare : parsePrivateKey base64 crates der password = parseUnlabelled crates der password := by
    rw [parsePrivateKey, Pem.pemDecode_eq_input_iff.mpr hder]
    rfl
  rw [parsePrivateKey, hdecode] at h
  rw [hbare]
  simp only [Except.ok_bind] at h
  split_ifs at h
  · exact parseUnlabelled_encrypted hshapes h
  · exact parseUnlabelled_rsa hshapes h
  · exact parseUnlabelled_ec hshapes h
  · exact h

end Fallback

namespace Fixture

open Attestation.Fixture (ofHex testBase64)

def p256Scalar : Bytes := ofHex 32 0xc9afa9d845ba75166b5c215767b1d6934e50c3db36e89b127b8a622b120f6721

def sec1Der : Bytes :=
  ofHex 7 0x30310201010420 ++ p256Scalar ++ ofHex 12 0xa00a06082a8648ce3d030107

def sec1Key : EcPrivateKey := ⟨1, p256Scalar, some ⟨[1, 2, 840, 10045, 3, 1, 7]⟩, none⟩

def sec1Crates : Pkcs12.Crates Unit Unit :=
  { testCrates with
    ecPrivateKey := fun der => if der = sec1Der then some sec1Key else none
    ecScalar := fun algorithm scalar => algorithm = .eccP256 ∧ scalar = p256Scalar }

theorem sec1Crates_shapes : DocumentedShapes sec1Crates where
  privateKeyInfo der info h := by
    have hder : (if der = edDer then some edInfo else none) = some info := h
    split_ifs at hder with heq
    rw [heq]
    decide
  encryptedPrivateKeyInfo _ _ h := by cases h
  rsaPrivateKey _ _ h := by cases h
  ecPrivateKey der key h := by
    have hder : (if der = sec1Der then some sec1Key else none) = some key := h
    split_ifs at hder with heq
    rw [heq]
    decide

end Fixture

/-- A SEC1 key without its armour. -/
theorem parsePrivateKey_bare_sec1 :
    parsePrivateKey Attestation.Fixture.testBase64 Fixture.sec1Crates Fixture.sec1Der none =
      .ok ⟨.eccP256, .ec Fixture.p256Scalar⟩ := by
  have hder : ¬ IsPemText Fixture.sec1Der := Pem.armoured_eq_none_iff.mp (by decide)
  have hdecode : pemDecode Attestation.Fixture.testBase64
      (pemEncode Attestation.Fixture.testBase64 ecLabel Fixture.sec1Der)
      [privateKeyLabel, encryptedLabel, rsaLabel, ecLabel] = .ok (ecLabel, Fixture.sec1Der) :=
    Pem.pemDecode_pemEncode Pem.Fixture.testBase64_lawful (by decide) (by decide) _
  have hkey : fromSec1 Fixture.sec1Crates.toCrates Fixture.sec1Der =
      .ok ⟨.eccP256, .ec Fixture.p256Scalar⟩ := by
    decide
  refine parsePrivateKey_bare Pem.Fixture.testBase64_lawful Fixture.sec1Crates_shapes hder
    (show ecLabel ∈ privateKeyLabels by decide) ?_
  rw [parsePrivateKey, hdecode]
  exact hkey

end Keys
