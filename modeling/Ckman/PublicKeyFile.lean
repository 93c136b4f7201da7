import Ckman.KeyFormats

/-!
# Public key files

`parse_public_key` reads a SubjectPublicKeyInfo or a PKCS#1 RSA key, and
`public_keys_equal` compares two files by the keys in them. What the keys in a
file are is said once, in numbers and points, and both functions are measured
by it.
-/
namespace Keys

open Host
open X509 (Oid)
open Attestation (BitString SubjectPublicKeyInfo)
open Pem (Base64 KeyError pemDecode IsPemText)
open Piv (Algorithm)

structure ImportedPublicKey where
  algorithm : Algorithm
  /-- Complete SubjectPublicKeyInfo DER. -/
  spkiDer : Bytes
  deriving DecidableEq, Repr

/-- `canokey::piv::PublicKey`. -/
inductive PublicKey where
  | rsa (algorithm : Algorithm) (modulus exponent : Bytes)
  | ec (algorithm : Algorithm) (point : Bytes)
  | raw (algorithm : Algorithm) (bytes : Bytes)
  deriving DecidableEq, Repr

structure SpkiCrates (Secret Point : Type) extends Crates Secret Point where
  /-- `SubjectPublicKeyInfo::from_der`, owned or borrowed. -/
  spki : Bytes → Option SubjectPublicKeyInfo
  /-- `SubjectPublicKeyInfo::to_der`. -/
  spkiDer : SubjectPublicKeyInfo → Option Bytes
  /-- `to_encoded_point(false)`. -/
  uncompressed : Curve → Point → Bytes

def publicLabel : List Char := "PUBLIC KEY".toList
def rsaPublicLabel : List Char := "RSA PUBLIC KEY".toList

def rsaOid : Oid := ⟨[1, 2, 840, 113549, 1, 1, 1]⟩

def rsaAlgorithm (bits : Nat) : Option Algorithm :=
  if bits = 1024 then some .rsa1024
  else if bits = 2048 then some .rsa2048
  else if bits = 3072 then some .rsa3072
  else if bits = 4096 then some .rsa4096
  else none

/-- `u8::leading_zeros`. -/
def leadingZeros (b : UInt8) : Nat := 8 - b.toNat.size

/-- `len() * 8` less the leading zeros of the first byte. -/
def bitLength (bytes : Bytes) : Nat := bytes.length * 8 - (bytes.head?.map leadingZeros).getD 8

def rawAlgorithm (oid : String) : Option Algorithm :=
  if oid = "1.3.101.112" then some .ed25519
  else if oid = "1.3.101.110" then some .x25519
  else if oid = "2.16.840.1.101.3.4.3.18" then some .mlDsa65
  else if oid = "2.16.840.1.101.3.4.4.2" then some .mlKem768
  else none

def rawWidth : Algorithm → Option Nat
  | .ed25519 | .x25519 => some 32
  | .mlDsa65 => some 1952
  | .mlKem768 => some 1184
  | _ => none

def isRsa : Algorithm → Bool
  | .rsa1024 | .rsa2048 | .rsa3072 | .rsa4096 => true
  | _ => false

variable {Secret Point : Type} (base64 : Base64) (crates : SpkiCrates Secret Point)

/-- The branch for PKCS#1: the key is wrapped into a SubjectPublicKeyInfo. -/
def pkcs1Encoding (der : Bytes) : Except KeyError ImportedPublicKey := do
  let key ← okOr (crates.rsaPublicKey der) .encoding
  let spkiDer ← okOr (crates.spkiDer ⟨⟨rsaOid, some null⟩, ⟨0, der⟩⟩) .encoding
  let algorithm ← okOr (rsaAlgorithm (bitLength key.modulus)) .unsupported
  pure ⟨algorithm, spkiDer⟩

def spkiAlgorithm (info : SubjectPublicKeyInfo) : Except KeyError Algorithm :=
  if info.algorithm.oid.dotted = "1.2.840.113549.1.1.1" then do
    let bytes ← okOr info.subjectPublicKey.asBytes .encoding
    let key ← okOr (crates.rsaPublicKey bytes) .encoding
    okOr (rsaAlgorithm (bitLength key.modulus)) .unsupported
  else if info.algorithm.oid.dotted = "1.2.840.10045.2.1" then do
    let curve ← okOr (info.algorithm.parameters.bind crates.decodeOid) .encoding
    okOr (curveAlgorithm curve) .unsupported
  else okOr (rawAlgorithm info.algorithm.oid.dotted) .unsupported

def spkiEncoding (der : Bytes) : Except KeyError ImportedPublicKey := do
  let info ← okOr (crates.spki der) .encoding
  let algorithm ← spkiAlgorithm crates info
  pure ⟨algorithm, der⟩

def parsePublicKeyEncoding (input : Bytes) : Except KeyError ImportedPublicKey := do
  let (label, der) ← pemDecode base64 input [publicLabel, rsaPublicLabel]
  if label = rsaPublicLabel ∨ (label = [] ∧ (crates.rsaPublicKey der).isSome) then
    pkcs1Encoding crates der
  else spkiEncoding crates der

/-- `last().is_none_or(|byte| byte & 1 == 0)`. -/
def lastEven (bytes : Bytes) : Bool := bytes.getLast?.all fun b => b &&& 1 == 0

/-- Absent or NULL parameters, an odd modulus and an odd exponent from three on. -/
def canonicalRsa (algorithm : Algorithm) (info : SubjectPublicKeyInfo) (bytes : Bytes) :
    Except KeyError PublicKey := do
  refuse (info.algorithm.parameters.any (· ≠ null)) .encoding
  let rsa ← okOr (crates.rsaPublicKey bytes) .encoding
  refuse (lastEven rsa.modulus ∨ lastEven rsa.publicExponent ∨
    (rsa.publicExponent.length = 1 ∧ rsa.publicExponent.headD 0 < 3)) .encoding
  pure (.rsa algorithm rsa.modulus rsa.publicExponent)

def canonicalEc (algorithm : Algorithm) (curve : Curve) (bytes : Bytes) :
    Except KeyError PublicKey := do
  let point ← okOr (crates.publicKey curve bytes) .encoding
  pure (.ec algorithm (crates.uncompressed curve point))

def canonicalRaw (algorithm : Algorithm) (info : SubjectPublicKeyInfo) (bytes : Bytes) :
    Except KeyError PublicKey := do
  let width ← okOr (rawWidth algorithm) .unsupported
  refuse (info.algorithm.parameters.isSome ∨ bytes.length ≠ width) .encoding
  pure (.raw algorithm bytes)

def canonicalSpkiFields (algorithm : Algorithm) (spkiDer : Bytes) : Except KeyError PublicKey := do
  let info ← okOr (crates.spki spkiDer) .encoding
  let bytes ← okOr info.subjectPublicKey.asBytes .encoding
  if isRsa algorithm then canonicalRsa crates algorithm info bytes
  else
    match curveOf algorithm with
    | some curve => canonicalEc crates algorithm curve bytes
    | none => canonicalRaw algorithm info bytes

def parsePublicKey (input : Bytes) : Except KeyError ImportedPublicKey := do
  let parsed ← parsePublicKeyEncoding base64 crates input
  let _ ← canonicalSpkiFields crates parsed.algorithm parsed.spkiDer
  pure parsed

def canonicalPublicKey (input : Bytes) : Except KeyError PublicKey := do
  let parsed ← parsePublicKeyEncoding base64 crates input
  canonicalSpkiFields crates parsed.algorithm parsed.spkiDer

def publicKeysEqual (left right : Bytes) : Except KeyError Bool := do
  let left ← canonicalPublicKey base64 crates left
  let right ← canonicalPublicKey base64 crates right
  pure (left = right)

/-- A public key by its mathematical fields. -/
inductive MathKey (Point : Type) where
  | rsa (algorithm : Algorithm) (modulus exponent : Nat)
  | ec (algorithm : Algorithm) (point : Point)
  | raw (algorithm : Algorithm) (bytes : Bytes)

/-- The key in a PKCS#1 structure; its modulus says which algorithm it is for. -/
inductive Pkcs1Denotes (der : Bytes) : MathKey Point → Prop
  | mk {key : RsaPublicKey} {algorithm : Algorithm} : crates.rsaPublicKey der = some key →
      rsaAlgorithm (BigEndian.decode key.modulus).size = some algorithm →
      Pkcs1Denotes der
        (.rsa algorithm (BigEndian.decode key.modulus) (BigEndian.decode key.publicExponent))

/-- The key in a SubjectPublicKeyInfo, by its object identifier. -/
inductive SpkiDenotes (info : SubjectPublicKeyInfo) : MathKey Point → Prop
  | rsa {bytes : Bytes} {key : MathKey Point} :
      info.algorithm.oid.dotted = "1.2.840.113549.1.1.1" →
      info.subjectPublicKey.asBytes = some bytes → Pkcs1Denotes crates bytes key →
      SpkiDenotes info key
  | ec {oid : Oid} {algorithm : Algorithm} {curve : Curve} {bytes : Bytes} {point : Point} :
      info.algorithm.oid.dotted = "1.2.840.10045.2.1" →
      info.algorithm.parameters.bind crates.decodeOid = some oid →
      curveAlgorithm oid = some algorithm → curveOf algorithm = some curve →
      info.subjectPublicKey.asBytes = some bytes → crates.publicKey curve bytes = some point →
      SpkiDenotes info (.ec algorithm point)
  | raw {algorithm : Algorithm} {bytes : Bytes} :
      rawAlgorithm info.algorithm.oid.dotted = some algorithm →
      info.subjectPublicKey.asBytes = some bytes → SpkiDenotes info (.raw algorithm bytes)

/-- The key in a file. Bare DER may hold either structure, armour says which. -/
inductive Denotes (input : Bytes) : MathKey Point → Prop
  | pkcs1 {label : List Char} {der : Bytes} {key : MathKey Point} :
      pemDecode base64 input [publicLabel, rsaPublicLabel] = .ok (label, der) →
      label ≠ publicLabel → Pkcs1Denotes crates der key → Denotes input key
  | spki {label : List Char} {der : Bytes} {info : SubjectPublicKeyInfo} {key : MathKey Point} :
      pemDecode base64 input [publicLabel, rsaPublicLabel] = .ok (label, der) →
      label ≠ rsaPublicLabel → crates.spki der = some info → SpkiDenotes crates info key →
      Denotes input key

/-- The encodings that `parse_public_key` accepts. -/
def Accepted (input : Bytes) : Prop := ∃ parsed, parsePublicKey base64 crates input = .ok parsed

def SameKey (left right : Bytes) : Prop :=
  ∃ key, Denotes base64 crates left key ∧ Denotes base64 crates right key

structure DocumentedPublic : Prop where
  /-- A SubjectPublicKeyInfo begins with its algorithm and a BIT STRING. -/
  spkiShape : ∀ der info, crates.spki der = some info → Der.sequenceTags 2 der = some [0x30, 0x03]
  /-- A PKCS#1 key begins with two INTEGERs. -/
  rsaShape : ∀ der key, crates.rsaPublicKey der = some key → Der.sequenceTags 2 der = some [0x02, 0x02]
  /-- What is encoded is decoded to the same structure. -/
  spkiRoundTrip : ∀ info der, crates.spkiDer info = some der → crates.spki der = some info
  /-- The bytes of an unsigned INTEGER have no leading zeros. -/
  minimal : ∀ der key, crates.rsaPublicKey der = some key →
    key.modulus = toBytesBe (BigEndian.decode key.modulus) ∧
      key.publicExponent = toBytesBe (BigEndian.decode key.publicExponent)
  /-- Two points have two uncompressed forms. -/
  uncompressed : ∀ curve, Function.Injective (crates.uncompressed curve)

theorem size_of_high {n k h : Nat} (hdiv : n / 2 ^ k = h) (hpos : 0 < h) : n.size = k + h.size := by
  obtain ⟨s, hs⟩ : ∃ s, h.size = s + 1 := ⟨h.size - 1, by have := Nat.size_pos.mpr hpos; omega⟩
  have hlow : 2 ^ s ≤ h := Nat.lt_size.mp (by omega)
  have hhigh : h < 2 ^ h.size := Nat.lt_size_self h
  have hpow : 0 < 2 ^ k := Nat.two_pow_pos k
  refine le_antisymm (Nat.size_le.mpr ?_) ?_
  · rw [pow_add, Nat.mul_comm, ← Nat.div_lt_iff_lt_mul hpow, hdiv]
    exact hhigh
  · rw [hs, ← Nat.add_assoc]
    refine Nat.lt_size.mpr ?_
    rw [pow_add, Nat.mul_comm, ← Nat.le_div_iff_mul_le hpow, hdiv]
    exact hlow

/-- The bytes of a number have as many bits as the number. -/
theorem bitLength_toBytesBe (n : Nat) : bitLength (toBytesBe n) = n.size := by
  have hhead : (toBytesBe n).head? = some (UInt8.ofNat (n / 256 ^ Nat.log 256 n)) := rfl
  have hlen : (toBytesBe n).length = Nat.log 256 n + 1 := BigEndian.length_encode _ _
  rw [bitLength, hhead, hlen, Option.map_some, Option.getD_some, leadingZeros]
  rcases Nat.eq_zero_or_pos n with rfl | hpos
  · rfl
  · have hdigit : n / 256 ^ Nat.log 256 n < 256 := by
      rw [Nat.div_lt_iff_lt_mul (Nat.pow_pos (by decide)), ← pow_succ']
      exact Nat.lt_pow_succ_log_self (by decide) n
    have hlead : 0 < n / 256 ^ Nat.log 256 n :=
      Nat.div_pos (Nat.pow_log_le_self 256 (by omega)) (Nat.pow_pos (by decide))
    have hbyte : (UInt8.ofNat (n / 256 ^ Nat.log 256 n)).toNat = n / 256 ^ Nat.log 256 n :=
      UInt8.toNat_ofNat_of_lt' hdigit
    have hbits : (n / 256 ^ Nat.log 256 n).size ≤ 8 := Nat.size_le.mpr hdigit
    have hpow : 256 ^ Nat.log 256 n = 2 ^ (8 * Nat.log 256 n) := by
      rw [show 256 = 2 ^ 8 by decide, ← pow_mul]
    rw [hbyte, size_of_high (congrArg (n / ·) hpow.symm) hlead]
    omega

variable {base64 crates}

/-- What `canonical_spki_fields` makes of a key. -/
def MathKey.canonical (crates : SpkiCrates Secret Point) : MathKey Point → Option PublicKey
  | .rsa algorithm modulus exponent => some (.rsa algorithm (toBytesBe modulus) (toBytesBe exponent))
  | .ec algorithm point =>
    (curveOf algorithm).map fun curve => .ec algorithm (crates.uncompressed curve point)
  | .raw algorithm bytes => some (.raw algorithm bytes)

theorem isRsa_of_rsaAlgorithm {bits : Nat} {algorithm : Algorithm}
    (h : rsaAlgorithm bits = some algorithm) : isRsa algorithm = true := by
  rw [rsaAlgorithm] at h
  split_ifs at h <;> cases h <;> rfl

theorem of_curveAlgorithm {oid : Oid} {algorithm : Algorithm} (h : curveAlgorithm oid = some algorithm) :
    isRsa algorithm = false ∧ ∃ curve, curveOf algorithm = some curve := by
  rw [curveAlgorithm] at h
  split_ifs at h <;> cases h <;> exact ⟨rfl, _, rfl⟩

theorem of_rawAlgorithm {oid : String} {algorithm : Algorithm} (h : rawAlgorithm oid = some algorithm) :
    isRsa algorithm = false ∧ curveOf algorithm = none := by
  rw [rawAlgorithm] at h
  split_ifs at h <;> cases h <;> exact ⟨rfl, rfl⟩

theorem canonicalSpkiFields_eq_ok {algorithm : Algorithm} {der : Bytes} {pub : PublicKey} :
    canonicalSpkiFields crates algorithm der = .ok pub ↔
      ∃ info bytes, crates.spki der = some info ∧ info.subjectPublicKey.asBytes = some bytes ∧
        (if isRsa algorithm then canonicalRsa crates algorithm info bytes
          else
            match curveOf algorithm with
            | some curve => canonicalEc crates algorithm curve bytes
            | none => canonicalRaw algorithm info bytes) = .ok pub := by
  simp only [canonicalSpkiFields, Except.bind_eq_ok_iff, okOr_eq_ok_iff]
  constructor
  · rintro ⟨info, hinfo, bytes, hbytes, h⟩
    exact ⟨info, bytes, hinfo, hbytes, h⟩
  · rintro ⟨info, bytes, hinfo, hbytes, h⟩
    exact ⟨info, hinfo, bytes, hbytes, h⟩

/-- The key behind a canonical RSA key. -/
theorem canonicalRsa_denotes (hdoc : DocumentedPublic crates) {algorithm : Algorithm}
    {info : SubjectPublicKeyInfo} {bytes : Bytes} {key : RsaPublicKey} {pub : PublicKey}
    (hkey : crates.rsaPublicKey bytes = some key)
    (halgorithm : rsaAlgorithm (bitLength key.modulus) = some algorithm)
    (h : canonicalRsa crates algorithm info bytes = .ok pub) :
    ∃ k, Pkcs1Denotes crates bytes k ∧ k.canonical crates = some pub := by
  simp only [canonicalRsa, Except.bind_eq_ok_iff, okOr_eq_ok_iff] at h
  obtain ⟨⟨⟩, -, key', hkey', ⟨⟩, -, h⟩ := h
  cases h
  obtain rfl : key = key' := Option.some.inj (hkey.symm.trans hkey')
  obtain ⟨hmodulus, hexponent⟩ := hdoc.minimal bytes key hkey
  have hbits : bitLength key.modulus = (BigEndian.decode key.modulus).size := by
    rw [hmodulus, bitLength_toBytesBe, decode_toBytesBe]
  refine ⟨_, .mk hkey (hbits ▸ halgorithm), ?_⟩
  rw [MathKey.canonical, ← hmodulus, ← hexponent]

/-- The key behind a canonical SubjectPublicKeyInfo. -/
theorem spki_denotes (hdoc : DocumentedPublic crates) {algorithm : Algorithm} {der : Bytes}
    {info : SubjectPublicKeyInfo} {pub : PublicKey} (hinfo : crates.spki der = some info)
    (halgorithm : spkiAlgorithm crates info = .ok algorithm)
    (h : canonicalSpkiFields crates algorithm der = .ok pub) :
    ∃ k, SpkiDenotes crates info k ∧ k.canonical crates = some pub := by
  obtain ⟨info', bytes, hinfo', hbytes, h⟩ := canonicalSpkiFields_eq_ok.mp h
  obtain rfl : info = info' := Option.some.inj (hinfo.symm.trans hinfo')
  rw [spkiAlgorithm] at halgorithm
  split_ifs at halgorithm with hrsa hec
  · simp only [Except.bind_eq_ok_iff, okOr_eq_ok_iff] at halgorithm
    obtain ⟨bytes', hbytes', key, hkey, halgorithm⟩ := halgorithm
    obtain rfl : bytes = bytes' := Option.some.inj (hbytes.symm.trans hbytes')
    rw [if_pos (isRsa_of_rsaAlgorithm halgorithm)] at h
    obtain ⟨k, hk, hcanonical⟩ := canonicalRsa_denotes hdoc hkey halgorithm h
    exact ⟨k, .rsa hrsa hbytes hk, hcanonical⟩
  · simp only [Except.bind_eq_ok_iff, okOr_eq_ok_iff] at halgorithm
    obtain ⟨oid, hoid, halgorithm⟩ := halgorithm
    obtain ⟨hnotRsa, curve, hcurve⟩ := of_curveAlgorithm halgorithm
    rw [hnotRsa, hcurve] at h
    obtain ⟨point, hpoint, h⟩ := Except.bind_eq_ok_iff.mp h
    cases h
    refine ⟨_, .ec hec hoid halgorithm hcurve hbytes (okOr_eq_ok_iff.mp hpoint), ?_⟩
    rw [MathKey.canonical, hcurve]
    rfl
  · have halgorithm := okOr_eq_ok_iff.mp halgorithm
    obtain ⟨hnotRsa, hcurve⟩ := of_rawAlgorithm halgorithm
    rw [hnotRsa, hcurve] at h
    have h : canonicalRaw algorithm info bytes = .ok pub := h
    simp only [canonicalRaw, Except.bind_eq_ok_iff] at h
    obtain ⟨width, -, ⟨⟩, -, h⟩ := h
    cases h
    exact ⟨_, .raw halgorithm hbytes, rfl⟩

/-- How an encoding was read: as PKCS#1, or as a SubjectPublicKeyInfo that is the DER itself. -/
theorem parsePublicKeyEncoding_cases {input : Bytes} {parsed : ImportedPublicKey}
    (h : parsePublicKeyEncoding base64 crates input = .ok parsed) :
    ∃ label der, pemDecode base64 input [publicLabel, rsaPublicLabel] = .ok (label, der) ∧
      (label ≠ publicLabel ∧ pkcs1Encoding crates der = .ok parsed ∨
        label ≠ rsaPublicLabel ∧ spkiEncoding crates der = .ok parsed) := by
  obtain ⟨⟨label, der⟩, hdecode, h⟩ := Except.bind_eq_ok_iff.mp h
  refine ⟨label, der, hdecode, ?_⟩
  dsimp only at h
  split_ifs at h with hpkcs1
  · refine .inl ⟨?_, h⟩
    rintro rfl
    rcases hpkcs1 with hlabel | ⟨hlabel, -⟩ <;> exact absurd hlabel (by decide)
  · exact .inr ⟨fun hlabel => hpkcs1 (.inl hlabel), h⟩

theorem pkcs1Encoding_eq_ok {der : Bytes} {parsed : ImportedPublicKey}
    (h : pkcs1Encoding crates der = .ok parsed) :
    ∃ key, crates.rsaPublicKey der = some key ∧
      crates.spkiDer ⟨⟨rsaOid, some null⟩, ⟨0, der⟩⟩ = some parsed.spkiDer ∧
      rsaAlgorithm (bitLength key.modulus) = some parsed.algorithm := by
  simp only [pkcs1Encoding, Except.bind_eq_ok_iff, okOr_eq_ok_iff] at h
  obtain ⟨key, hkey, spkiDer, hder, algorithm, halgorithm, h⟩ := h
  cases h
  exact ⟨key, hkey, hder, halgorithm⟩

theorem spkiEncoding_eq_ok_iff {der : Bytes} {parsed : ImportedPublicKey} :
    spkiEncoding crates der = .ok parsed ↔
      parsed.spkiDer = der ∧ ∃ info, crates.spki der = some info ∧
        spkiAlgorithm crates info = .ok parsed.algorithm := by
  simp only [spkiEncoding, Except.bind_eq_ok_iff, okOr_eq_ok_iff]
  constructor
  · rintro ⟨info, hinfo, algorithm, halgorithm, h⟩
    cases h
    exact ⟨rfl, info, hinfo, halgorithm⟩
  · rintro ⟨rfl, info, hinfo, halgorithm⟩
    exact ⟨info, hinfo, parsed.algorithm, halgorithm, rfl⟩

/-- The key behind the canonical form of a file. -/
theorem file_denotes (hdoc : DocumentedPublic crates) {input : Bytes} {pub : PublicKey}
    (h : canonicalPublicKey base64 crates input = .ok pub) :
    ∃ k, Denotes base64 crates input k ∧ k.canonical crates = some pub := by
  obtain ⟨parsed, hparsed, h⟩ := Except.bind_eq_ok_iff.mp h
  obtain ⟨label, der, hdecode, ⟨hlabel, hpkcs1⟩ | ⟨hlabel, hspki⟩⟩ :=
    parsePublicKeyEncoding_cases hparsed
  · obtain ⟨key, hkey, hder, halgorithm⟩ := pkcs1Encoding_eq_ok hpkcs1
    obtain ⟨info, bytes, hinfo, hbytes, h⟩ := canonicalSpkiFields_eq_ok.mp h
    rw [hdoc.spkiRoundTrip _ _ hder] at hinfo
    cases hinfo
    cases hbytes
    rw [if_pos (isRsa_of_rsaAlgorithm halgorithm)] at h
    obtain ⟨k, hk, hcanonical⟩ := canonicalRsa_denotes hdoc hkey halgorithm h
    exact ⟨k, .pkcs1 hdecode hlabel hk, hcanonical⟩
  · obtain ⟨hsame, info, hinfo, halgorithm⟩ := spkiEncoding_eq_ok_iff.mp hspki
    rw [hsame] at h
    obtain ⟨k, hk, hcanonical⟩ := spki_denotes hdoc hinfo halgorithm h
    exact ⟨k, .spki hdecode hlabel hinfo hk, hcanonical⟩

theorem Pkcs1Denotes.unique {der : Bytes} {k l : MathKey Point} (hk : Pkcs1Denotes crates der k)
    (hl : Pkcs1Denotes crates der l) : k = l := by
  cases hk with
  | mk hkey halgorithm =>
    cases hl with
    | mk hkey' halgorithm' =>
      cases hkey.symm.trans hkey'
      cases halgorithm.symm.trans halgorithm'
      rfl

theorem SpkiDenotes.unique {info : SubjectPublicKeyInfo} {k l : MathKey Point}
    (hk : SpkiDenotes crates info k) (hl : SpkiDenotes crates info l) : k = l := by
  have hraw : ∀ {oid algorithm}, rawAlgorithm oid = some algorithm →
      oid ≠ "1.2.840.113549.1.1.1" ∧ oid ≠ "1.2.840.10045.2.1" := by
    have hrsa : rawAlgorithm "1.2.840.113549.1.1.1" = none := by decide
    have hec : rawAlgorithm "1.2.840.10045.2.1" = none := by decide
    intro oid algorithm h
    constructor
    · rintro rfl
      rw [hrsa] at h
      cases h
    · rintro rfl
      rw [hec] at h
      cases h
  cases hk with
  | rsa hoid hbytes hkey =>
    cases hl with
    | rsa hoid' hbytes' hkey' =>
      cases hbytes.symm.trans hbytes'
      exact hkey.unique hkey'
    | ec hoid' => exact absurd (hoid.symm.trans hoid') (by decide)
    | raw halgorithm => exact absurd hoid (hraw halgorithm).1
  | ec hoid hcurve halgorithm hcheck hbytes hpoint =>
    cases hl with
    | rsa hoid' => exact absurd (hoid.symm.trans hoid') (by decide)
    | ec hoid' hcurve' halgorithm' hcheck' hbytes' hpoint' =>
      cases hcurve.symm.trans hcurve'
      cases halgorithm.symm.trans halgorithm'
      cases hcheck.symm.trans hcheck'
      cases hbytes.symm.trans hbytes'
      cases hpoint.symm.trans hpoint'
      rfl
    | raw halgorithm' => exact absurd hoid (hraw halgorithm').2
  | raw halgorithm hbytes =>
    cases hl with
    | rsa hoid' => exact absurd hoid' (hraw halgorithm).1
    | ec hoid' => exact absurd hoid' (hraw halgorithm).2
    | raw halgorithm' hbytes' =>
      cases halgorithm.symm.trans halgorithm'
      cases hbytes.symm.trans hbytes'
      rfl

/-- No DER is both a PKCS#1 key and a SubjectPublicKeyInfo. -/
theorem rsaPublicKey_of_spki (hdoc : DocumentedPublic crates) {der : Bytes}
    {info : SubjectPublicKeyInfo} (h : crates.spki der = some info) : crates.rsaPublicKey der = none :=
  eq_none_of_tags (hdoc.rsaShape der) (hdoc.spkiShape der info h) (by decide)

theorem Denotes.unique (hdoc : DocumentedPublic crates) {input : Bytes} {k l : MathKey Point}
    (hk : Denotes base64 crates input k) (hl : Denotes base64 crates input l) : k = l := by
  have hclash : ∀ {der info} {k : MathKey Point}, Pkcs1Denotes crates der k →
      crates.spki der = some info → False := by
    rintro der info k ⟨hkey, -⟩ hinfo
    rw [rsaPublicKey_of_spki hdoc hinfo] at hkey
    cases hkey
  cases hk with
  | pkcs1 hdecode _ hkey =>
    cases hl with
    | pkcs1 hdecode' _ hkey' =>
      cases hdecode.symm.trans hdecode'
      exact hkey.unique hkey'
    | spki hdecode' _ hinfo _ =>
      cases hdecode.symm.trans hdecode'
      exact (hclash hkey hinfo).elim
  | spki hdecode _ hinfo hspki =>
    cases hl with
    | pkcs1 hdecode' _ hkey =>
      cases hdecode.symm.trans hdecode'
      exact (hclash hkey hinfo).elim
    | spki hdecode' _ hinfo' hspki' =>
      cases hdecode.symm.trans hdecode'
      cases hinfo.symm.trans hinfo'
      exact hspki.unique hspki'

theorem toBytesBe_injective : Function.Injective toBytesBe :=
  Function.LeftInverse.injective decode_toBytesBe

/-- Two keys have two canonical forms. -/
theorem canonical_injective (hdoc : DocumentedPublic crates) {k l : MathKey Point} {pub : PublicKey}
    (hk : k.canonical crates = some pub) (hl : l.canonical crates = some pub) : k = l := by
  cases k with
  | rsa algorithm modulus exponent =>
    cases hk
    cases l with
    | rsa algorithm' modulus' exponent' =>
      simp only [MathKey.canonical, Option.some.injEq, PublicKey.rsa.injEq] at hl
      obtain ⟨rfl, hmodulus, hexponent⟩ := hl
      rw [toBytesBe_injective hmodulus, toBytesBe_injective hexponent]
    | ec algorithm' point =>
      obtain ⟨curve, -, h⟩ := Option.map_eq_some_iff.mp hl
      cases h
    | raw algorithm' bytes => cases hl
  | ec algorithm point =>
    obtain ⟨curve, hcurve, rfl⟩ := Option.map_eq_some_iff.mp hk
    cases l with
    | rsa algorithm' modulus' exponent' => cases hl
    | ec algorithm' point' =>
      obtain ⟨curve', hcurve', h⟩ := Option.map_eq_some_iff.mp hl
      simp only [PublicKey.ec.injEq] at h
      obtain ⟨rfl, hpoint⟩ := h
      cases hcurve.symm.trans hcurve'
      rw [hdoc.uncompressed curve hpoint]
    | raw algorithm' bytes => cases hl
  | raw algorithm bytes =>
    cases hk
    cases l with
    | rsa algorithm' modulus' exponent' => cases hl
    | ec algorithm' point =>
      obtain ⟨curve, -, h⟩ := Option.map_eq_some_iff.mp hl
      cases h
    | raw algorithm' bytes' =>
      cases hl
      rfl

theorem publicKeysEqual_eq_ok_iff {left right : Bytes} {same : Bool} :
    publicKeysEqual base64 crates left right = .ok same ↔
      ∃ l r, canonicalPublicKey base64 crates left = .ok l ∧
        canonicalPublicKey base64 crates right = .ok r ∧ same = decide (l = r) := by
  simp only [publicKeysEqual, Except.bind_eq_ok_iff]
  constructor
  · rintro ⟨l, hl, r, hr, h⟩
    cases h
    exact ⟨l, r, hl, hr, rfl⟩
  · rintro ⟨l, r, hl, hr, rfl⟩
    exact ⟨l, hl, r, hr, rfl⟩

theorem accepted_iff {input : Bytes} :
    Accepted base64 crates input ↔ ∃ pub, canonicalPublicKey base64 crates input = .ok pub := by
  simp only [Accepted, parsePublicKey, canonicalPublicKey, Except.bind_eq_ok_iff]
  constructor
  · rintro ⟨parsed, encoding, hencoding, pub, hpub, h⟩
    exact ⟨pub, encoding, hencoding, hpub⟩
  · rintro ⟨pub, encoding, hencoding, hpub⟩
    exact ⟨encoding, encoding, hencoding, pub, hpub, rfl⟩

/-- The SubjectPublicKeyInfo that is returned is read as the same key. -/
theorem canonical_of_spkiDer (hdoc : DocumentedPublic crates) {input : Bytes}
    {parsed : ImportedPublicKey} (h : parsePublicKeyEncoding base64 crates input = .ok parsed)
    (hbare : ¬ IsPemText parsed.spkiDer) :
    canonicalPublicKey base64 crates parsed.spkiDer = canonicalPublicKey base64 crates input := by
  have hread : ∃ info, crates.spki parsed.spkiDer = some info ∧
      spkiAlgorithm crates info = .ok parsed.algorithm := by
    obtain ⟨label, der, -, ⟨-, hpkcs1⟩ | ⟨-, hspki⟩⟩ := parsePublicKeyEncoding_cases h
    · obtain ⟨key, hkey, hder, halgorithm⟩ := pkcs1Encoding_eq_ok hpkcs1
      refine ⟨_, hdoc.spkiRoundTrip _ _ hder, ?_⟩
      have hoid : rsaOid.dotted = "1.2.840.113549.1.1.1" := by decide
      have hbytes : (⟨0, der⟩ : BitString).asBytes = some der := rfl
      rw [spkiAlgorithm, if_pos hoid, hbytes]
      simp only [okOr, Except.ok_bind, hkey, halgorithm]
    · obtain ⟨hsame, info, hinfo, halgorithm⟩ := spkiEncoding_eq_ok_iff.mp hspki
      exact ⟨info, hsame ▸ hinfo, halgorithm⟩
  obtain ⟨info, hinfo, halgorithm⟩ := hread
  have hencoding : parsePublicKeyEncoding base64 crates parsed.spkiDer = .ok parsed := by
    have hbranch : ¬ (([] : List Char) = rsaPublicLabel ∨
        (([] : List Char) = [] ∧ (crates.rsaPublicKey parsed.spkiDer).isSome)) := by
      rintro (hlabel | ⟨-, hpkcs1⟩)
      · exact absurd hlabel (by decide)
      · rw [rsaPublicKey_of_spki hdoc hinfo] at hpkcs1
        cases hpkcs1
    rw [parsePublicKeyEncoding, Pem.pemDecode_eq_input_iff.mpr hbare, Except.ok_bind]
    dsimp only
    rw [if_neg hbranch]
    exact spkiEncoding_eq_ok_iff.mpr ⟨rfl, info, hinfo, halgorithm⟩
  rw [canonicalPublicKey, canonicalPublicKey, hencoding, h]

theorem publicKeysEqual_refl {input : Bytes} (h : Accepted base64 crates input) :
    publicKeysEqual base64 crates input input = .ok true := by
  obtain ⟨pub, hpub⟩ := accepted_iff.mp h
  exact publicKeysEqual_eq_ok_iff.mpr ⟨pub, pub, hpub, hpub, (decide_eq_true rfl).symm⟩

theorem publicKeysEqual_symm {left right : Bytes}
    (h : publicKeysEqual base64 crates left right = .ok true) :
    publicKeysEqual base64 crates right left = .ok true := by
  obtain ⟨l, r, hl, hr, hsame⟩ := publicKeysEqual_eq_ok_iff.mp h
  have hsame : l = r := of_decide_eq_true hsame.symm
  exact publicKeysEqual_eq_ok_iff.mpr ⟨r, l, hr, hl, (decide_eq_true hsame.symm).symm⟩

theorem publicKeysEqual_trans {left middle right : Bytes}
    (h : publicKeysEqual base64 crates left middle = .ok true)
    (h' : publicKeysEqual base64 crates middle right = .ok true) :
    publicKeysEqual base64 crates left right = .ok true := by
  obtain ⟨l, m, hl, hm, hsame⟩ := publicKeysEqual_eq_ok_iff.mp h
  obtain ⟨m', r, hm', hr, hsame'⟩ := publicKeysEqual_eq_ok_iff.mp h'
  cases hm.symm.trans hm'
  have hsame : l = m := of_decide_eq_true hsame.symm
  have hsame' : m = r := of_decide_eq_true hsame'.symm
  exact publicKeysEqual_eq_ok_iff.mpr ⟨l, r, hl, hr, (decide_eq_true (hsame.trans hsame')).symm⟩

/-- Two accepted encodings can be compared, and they are equal exactly if they
are encodings of one key. -/
theorem publicKeysEqual_iff_sameKey (hdoc : DocumentedPublic crates) {left right : Bytes}
    (hleft : Accepted base64 crates left) (hright : Accepted base64 crates right) :
    ∃ same, publicKeysEqual base64 crates left right = .ok same ∧
      (same = true ↔ SameKey base64 crates left right) := by
  obtain ⟨l, hl⟩ := accepted_iff.mp hleft
  obtain ⟨r, hr⟩ := accepted_iff.mp hright
  refine ⟨decide (l = r), publicKeysEqual_eq_ok_iff.mpr ⟨l, r, hl, hr, rfl⟩, ?_⟩
  obtain ⟨k, hk, hkl⟩ := file_denotes hdoc hl
  obtain ⟨k', hk', hkr⟩ := file_denotes hdoc hr
  rw [decide_eq_true_iff]
  constructor
  · rintro rfl
    exact ⟨k, hk, canonical_injective hdoc hkl hkr ▸ hk'⟩
  · rintro ⟨key, hkey, hkey'⟩
    rw [hk.unique hdoc hkey] at hkl
    rw [hk'.unique hdoc hkey'] at hkr
    exact Option.some.inj (hkl.symm.trans hkr)

theorem accepted_iff_comparable {input : Bytes} :
    Accepted base64 crates input ↔ ∃ same, publicKeysEqual base64 crates input input = .ok same := by
  constructor
  · intro h
    exact ⟨true, publicKeysEqual_refl h⟩
  · rintro ⟨same, h⟩
    obtain ⟨l, r, hl, -⟩ := publicKeysEqual_eq_ok_iff.mp h
    exact accepted_iff.mpr ⟨l, hl⟩

theorem publicKeysEqual_spkiDer (hdoc : DocumentedPublic crates) {input : Bytes}
    {parsed : ImportedPublicKey} (h : parsePublicKey base64 crates input = .ok parsed)
    (hbare : ¬ IsPemText parsed.spkiDer) :
    publicKeysEqual base64 crates input parsed.spkiDer = .ok true := by
  simp only [parsePublicKey, Except.bind_eq_ok_iff] at h
  obtain ⟨encoding, hencoding, pub, hpub, h⟩ := h
  cases h
  have hcanonical : canonicalPublicKey base64 crates input = .ok pub :=
    Except.bind_eq_ok_iff.mpr ⟨parsed, hencoding, hpub⟩
  refine publicKeysEqual_eq_ok_iff.mpr ⟨pub, pub, hcanonical, ?_, (decide_eq_true rfl).symm⟩
  rw [canonical_of_spkiDer hdoc hencoding hbare, hcanonical]

/-- On the encodings that are accepted, equality is an equivalence, and it holds
exactly between encodings of one key; what is accepted is what can be compared with
itself, and what is returned for an encoding is an encoding of its key. -/
theorem publicKeysEqual_correct (hdoc : DocumentedPublic crates) :
    (∀ input, Accepted base64 crates input → publicKeysEqual base64 crates input input = .ok true) ∧
      (∀ left right, publicKeysEqual base64 crates left right = .ok true →
        publicKeysEqual base64 crates right left = .ok true) ∧
      (∀ left middle right, publicKeysEqual base64 crates left middle = .ok true →
        publicKeysEqual base64 crates middle right = .ok true →
          publicKeysEqual base64 crates left right = .ok true) ∧
      (∀ left right, Accepted base64 crates left → Accepted base64 crates right →
        ∃ same, publicKeysEqual base64 crates left right = .ok same ∧
          (same = true ↔ SameKey base64 crates left right)) ∧
      (∀ input, Accepted base64 crates input ↔
        ∃ same, publicKeysEqual base64 crates input input = .ok same) ∧
      ∀ input parsed, parsePublicKey base64 crates input = .ok parsed →
        ¬ IsPemText parsed.spkiDer →
          publicKeysEqual base64 crates input parsed.spkiDer = .ok true :=
  ⟨fun _ => publicKeysEqual_refl, fun _ _ => publicKeysEqual_symm,
    fun _ _ _ => publicKeysEqual_trans, fun _ _ => publicKeysEqual_iff_sameKey hdoc,
    fun _ => accepted_iff_comparable, fun _ _ => publicKeysEqual_spkiDer hdoc⟩

namespace Fixture

open Attestation.Fixture (ofHex testBase64)

def edSpki : Bytes := ofHex 12 0x302a300506032b6570032100 ++ edPublic

def edSpkiInfo : SubjectPublicKeyInfo := ⟨⟨⟨[1, 3, 101, 112]⟩, none⟩, ⟨0, edPublic⟩⟩

def spkiCrates : SpkiCrates Unit Unit :=
  { testCrates.toCrates with
    spki := fun der => if der = edSpki then some edSpkiInfo else none
    spkiDer := fun info => if info = edSpkiInfo then some edSpki else none
    uncompressed := fun _ _ => [] }

theorem spkiCrates_spki : spkiCrates.spki edSpki = some edSpkiInfo := by
  simp only [spkiCrates, if_true]

theorem spkiCrates_documented : DocumentedPublic spkiCrates where
  spkiShape der info h := by
    have hder : (if der = edSpki then some edSpkiInfo else none) = some info := h
    split_ifs at hder with heq
    rw [heq]
    decide
  rsaShape _ _ h := by cases h
  spkiRoundTrip info der h := by
    have hder : (if info = edSpkiInfo then some edSpki else none) = some der := h
    split_ifs at hder with heq
    cases hder
    rw [heq, spkiCrates_spki]
  minimal _ _ h := by cases h
  uncompressed _ _ _ _ := rfl

end Fixture

/-- An armoured Ed25519 key and its DER. -/
theorem publicKeysEqual_ed25519 :
    publicKeysEqual Attestation.Fixture.testBase64 Fixture.spkiCrates
      (Pem.pemEncode Attestation.Fixture.testBase64 publicLabel Fixture.edSpki) Fixture.edSpki =
        .ok true := by
  have hdecode : pemDecode Attestation.Fixture.testBase64
      (Pem.pemEncode Attestation.Fixture.testBase64 publicLabel Fixture.edSpki)
      [publicLabel, rsaPublicLabel] = .ok (publicLabel, Fixture.edSpki) :=
    Pem.pemDecode_pemEncode Pem.Fixture.testBase64_lawful (by decide) (by decide) _
  have hencoding : parsePublicKeyEncoding Attestation.Fixture.testBase64 Fixture.spkiCrates
      (Pem.pemEncode Attestation.Fixture.testBase64 publicLabel Fixture.edSpki) =
        .ok ⟨.ed25519, Fixture.edSpki⟩ := by
    refine Except.bind_eq_ok_iff.mpr ⟨_, hdecode, (if_neg ?_).trans ?_⟩
    · rintro (hlabel | ⟨hlabel, -⟩) <;> exact absurd hlabel (by decide)
    · exact spkiEncoding_eq_ok_iff.mpr ⟨rfl, _, Fixture.spkiCrates_spki, by decide⟩
  have hfields : canonicalSpkiFields Fixture.spkiCrates .ed25519 Fixture.edSpki =
      .ok (.raw .ed25519 Fixture.edPublic) :=
    canonicalSpkiFields_eq_ok.mpr ⟨_, _, Fixture.spkiCrates_spki, rfl, by decide⟩
  have hparse : parsePublicKey Attestation.Fixture.testBase64 Fixture.spkiCrates
      (Pem.pemEncode Attestation.Fixture.testBase64 publicLabel Fixture.edSpki) =
        .ok ⟨.ed25519, Fixture.edSpki⟩ :=
    Except.bind_eq_ok_iff.mpr ⟨_, hencoding, Except.bind_eq_ok_iff.mpr ⟨_, hfields, rfl⟩⟩
  have hbare : ¬ IsPemText Fixture.edSpki := Pem.armoured_eq_none_iff.mp (by decide)
  have hequal := (publicKeysEqual_correct Fixture.spkiCrates_documented).2.2.2.2.2 _
    ⟨.ed25519, Fixture.edSpki⟩ hparse hbare
  exact hequal

end Keys
