import Ckman.KeyFormats
import Mathlib.Data.List.GetD

/-!
# Keys for the OpenPGP applet

`openpgp_key` brings the components of an RSA key to half the width of the
modulus and decodes X25519 keys to a scalar. What it returns is compared with
the numbers of the key that was read.
-/
namespace Keys

open Host
open X509 (Oid)
open Pem (Base64 KeyError)
open Piv (Algorithm)

set_option maxRecDepth 4000

/-- `canokey::openpgp::PrivateKey`. -/
inductive OpenpgpKey where
  | rsa (exponent : { bytes : Bytes // bytes.length = 4 }) (p q qInverse dP dQ : Bytes)
  | ec (scalar : Bytes)
  deriving DecidableEq, Repr

def pad (bytes : Bytes) (width : Nat) : Except KeyError Bytes := do
  refuse (bytes.length > width) .encoding
  pure (List.replicate (width - bytes.length) 0 ++ bytes)

def modulusWidth : Algorithm → Option Nat
  | .rsa1024 => some 128
  | .rsa2048 => some 256
  | .rsa3072 => some 384
  | .rsa4096 => some 512
  | _ => none

/-- The three assignments to an X25519 scalar of 32 bytes. -/
def x25519Scalar (scalar : Bytes) : Bytes :=
  let scalar := scalar.set 0 (scalar.getD 0 0 &&& 0xf8)
  let scalar := scalar.set 31 ((scalar.getD 31 0 &&& 0x7f) ||| 0x40)
  scalar.reverse

def openpgpKey (key : ImportedKey) : Except KeyError OpenpgpKey :=
  match key.material with
  | .rsa exponent p q dp dq qinv => do
    let modulus ← okOr (modulusWidth key.algorithm) .unsupported
    let width := modulus / 2
    let p ← pad p width
    let q ← pad q width
    let qInverse ← pad qinv width
    let dP ← pad dp width
    let dQ ← pad dq width
    pure (.rsa exponent p q qInverse dP dQ)
  | .ec bytes =>
    if key.algorithm = .x25519 then do
      refuse (bytes.length ≠ 32) .encoding
      pure (.ec (x25519Scalar bytes))
    else pure (.ec bytes)

/-- `decodeScalar25519` of RFC 7748: the three low bits are cleared, the highest bit is
cleared and the one below it set. -/
def decodeScalar25519 (k : Bytes) : Nat :=
  2 ^ 254 + (LittleEndian.decode k % 2 ^ 254 - LittleEndian.decode k % 8)

theorem clamp_low (b : UInt8) : (b &&& 0xf8).toNat = b.toNat - b.toNat % 8 := by
  revert b
  exact Text.forall_byte (by decide)

theorem clamp_high (b : UInt8) : ((b &&& 0x7f) ||| 0x40).toNat = b.toNat % 64 + 64 := by
  revert b
  exact Text.forall_byte (by decide)

/-- A string of 32 bytes by its first byte, its last byte and those between them. -/
theorem exists_ends {seed : Bytes} (h : seed.length = 32) :
    ∃ first middle last, seed = first :: (middle ++ [last]) ∧ middle.length = 30 := by
  obtain ⟨first, rest, rfl⟩ := List.exists_cons_of_length_eq_add_one h
  have hrest : rest ≠ [] := by
    rintro rfl
    cases h
  refine ⟨first, rest.dropLast, rest.getLast hrest, ?_, ?_⟩
  · rw [List.dropLast_append_getLast]
  · rw [List.length_dropLast]
    rw [List.length_cons] at h
    omega

/-- The scalar, read big-endian, is the one that the little-endian seed decodes to. -/
theorem decode_x25519Scalar {seed : Bytes} (h : seed.length = 32) :
    (x25519Scalar seed).length = 32 ∧
      BigEndian.decode (x25519Scalar seed) = decodeScalar25519 seed := by
  obtain ⟨first, middle, last, rfl, hmiddle⟩ := exists_ends h
  have hscalar : x25519Scalar (first :: (middle ++ [last])) =
      ((first &&& 0xf8) :: (middle ++ [(last &&& 0x7f) ||| 0x40])).reverse := by
    have hget : ((first &&& 0xf8) :: (middle ++ [last])).getD 31 0 = last := by
      rw [List.getD_cons_succ, List.getD_append_right _ _ _ _ (by omega), hmiddle]
      rfl
    have hset : ((first &&& 0xf8) :: (middle ++ [last])).set 31 ((last &&& 0x7f) ||| 0x40) =
        (first &&& 0xf8) :: (middle ++ [(last &&& 0x7f) ||| 0x40]) := by
      rw [List.set_cons_succ, List.set_append_right _ _ (by omega), hmiddle]
      rfl
    simp only [x25519Scalar, List.getD_cons_zero, List.set_cons_zero, hget, hset]
  constructor
  · rw [hscalar]
    simp [hmiddle]
  · have hlt := LittleEndian.decode_lt middle
    have hfirst := first.toNat_lt
    have hlast := last.toNat_lt
    rw [hscalar, LittleEndian.decode_reverse, decodeScalar25519]
    simp only [LittleEndian.decode, LittleEndian.decode_append, clamp_low, clamp_high, hmiddle] at hlt ⊢
    omega

/-- The first scalar of the test vectors of RFC 7748. -/
example : decodeScalar25519
    (Attestation.Fixture.ofHex 32 0xa546e36bf0527c9d3b16154b82465edd62144c0ac1fc5a18506a2244ba449ac4) =
      31029842492115040904895560451863089656472772604678260265531221036453811406496 := by
  decide

theorem length_toBytesBe_le_iff {n width : Nat} (hwidth : 0 < width) :
    (toBytesBe n).length ≤ width ↔ n < 256 ^ width := by
  have hlen : (toBytesBe n).length = Nat.log 256 n + 1 := BigEndian.length_encode _ _
  rw [hlen]
  rcases Nat.eq_zero_or_pos n with rfl | hpos
  · simp only [Nat.log_zero_right]
    exact ⟨fun _ => Nat.pow_pos (by decide), fun _ => hwidth⟩
  · rw [Nat.add_one_le_iff]
    exact Nat.log_lt_iff_lt_pow (by decide) (by omega)

/-- A number is written in the width if it fits. -/
theorem pad_toBytesBe {n width : Nat} (hwidth : 0 < width) :
    pad (toBytesBe n) width =
      if n < 256 ^ width then .ok (BigEndian.encode width n) else .error .encoding := by
  rw [pad, refuse]
  split_ifs with hlong hfits hfits
  · exact absurd ((length_toBytesBe_le_iff hwidth).mpr hfits) (by omega)
  · rfl
  · refine congrArg Except.ok (BigEndian.decode_injective ?_ ?_)
    · rw [BigEndian.length_encode, List.length_append, List.length_replicate]
      omega
    · rw [decode_padded, decode_toBytesBe, BigEndian.decode_encode hfits]
  · exact absurd ((length_toBytesBe_le_iff hwidth).mp (by omega)) hfits

section Exports

variable {Secret Point : Type} (base64 : Base64) (crates : Pkcs12.Crates Secret Point)

structure CrtNumbers where
  p : Nat
  q : Nat
  qInverse : Nat
  dP : Nat
  dQ : Nat

structure CrtNumbers.Of (f : CrtNumbers) (rsa : RsaPrivateKey) (width : Nat) : Prop where
  primes : rsa.primes = [f.p, f.q]
  qInverse : crates.crtCoefficient rsa = some f.qInverse
  dP : f.dP = rsa.d % (f.p - 1)
  dQ : f.dQ = rsa.d % (f.q - 1)
  width : rsa.n.size = 2 * (8 * width)

def CrtNumbers.Fit (f : CrtNumbers) (width : Nat) : Prop :=
  f.p < 256 ^ width ∧ f.q < 256 ^ width ∧ f.qInverse < 256 ^ width ∧ f.dP < 256 ^ width ∧
    f.dQ < 256 ^ width

/-- The bytes are the number in exactly this width. -/
def Padded (width n : Nat) (bytes : Bytes) : Prop := bytes.length = width ∧ BigEndian.decode bytes = n

def HoldsRsa (rsa : RsaPrivateKey) : KeyEncoding → Prop
  | .pkcs8 der => ∃ info, crates.privateKeyInfo der = some info ∧
      info.algorithm.oid.dotted = "1.2.840.113549.1.1.1" ∧
      decodeRsaPrivate crates.toCrates info.privateKey = .ok rsa
  | .pkcs1 der => decodeRsaPrivate crates.toCrates der = .ok rsa
  | .sec1 _ => False

/-- The scalar or the seed in an encoding, of the width that the algorithm demands. -/
inductive HoldsScalar (algorithm : Algorithm) (bytes : Bytes) : KeyEncoding → Prop
  | sec1 {der : Bytes} {sec1 : EcPrivateKey} :
      crates.ecPrivateKey der = some sec1 → sec1.privateKey = bytes →
      crates.ecScalar algorithm bytes = true → HoldsScalar algorithm bytes (.sec1 der)
  | ec {der : Bytes} {info : PrivateKeyInfo} {sec1 : EcPrivateKey} :
      crates.privateKeyInfo der = some info → info.algorithm.oid.dotted = "1.2.840.10045.2.1" →
      crates.ecPrivateKey info.privateKey = some sec1 → sec1.privateKey = bytes →
      crates.ecScalar algorithm bytes = true → HoldsScalar algorithm bytes (.pkcs8 der)
  | seed {der : Bytes} {info : PrivateKeyInfo} {width : Nat} {given : Option Bytes} :
      crates.privateKeyInfo der = some info →
      seedAlgorithm info.algorithm.oid.dotted = some (algorithm, width) →
      SeedForm crates info.privateKey bytes given → bytes.length = width →
      HoldsScalar algorithm bytes (.pkcs8 der)

inductive Exports (input : Bytes) (password : Option Bytes) :
    ImportedKey → Except KeyError OpenpgpKey → Prop
  | rsa {encoding : KeyEncoding} {rsa : RsaPrivateKey} {f : CrtNumbers} {width : Nat}
      {algorithm : Algorithm} {exponent : { bytes : Bytes // bytes.length = 4 }}
      {p q qInverse dP dQ : Bytes} :
      FileHolds base64 crates input password encoding → HoldsRsa crates rsa encoding →
      modulusWidth algorithm = some (2 * width) → f.Of crates rsa width → f.Fit width →
      BigEndian.decode exponent.val = rsa.e →
      Padded width f.p p → Padded width f.q q → Padded width f.qInverse qInverse →
      Padded width f.dP dP → Padded width f.dQ dQ →
      Exports input password
        ⟨algorithm, .rsa exponent (toBytesBe f.p) (toBytesBe f.q) (toBytesBe f.dP) (toBytesBe f.dQ)
          (toBytesBe f.qInverse)⟩
        (.ok (.rsa exponent p q qInverse dP dQ))
  | tooWide {encoding : KeyEncoding} {rsa : RsaPrivateKey} {f : CrtNumbers} {width : Nat}
      {algorithm : Algorithm} {exponent : { bytes : Bytes // bytes.length = 4 }} :
      FileHolds base64 crates input password encoding → HoldsRsa crates rsa encoding →
      modulusWidth algorithm = some (2 * width) → f.Of crates rsa width → ¬ f.Fit width →
      Exports input password
        ⟨algorithm, .rsa exponent (toBytesBe f.p) (toBytesBe f.q) (toBytesBe f.dP) (toBytesBe f.dQ)
          (toBytesBe f.qInverse)⟩
        (.error .encoding)
  | x25519 {encoding : KeyEncoding} {seed scalar : Bytes} :
      FileHolds base64 crates input password encoding → HoldsScalar crates .x25519 seed encoding →
      Padded 32 (decodeScalar25519 seed) scalar →
      Exports input password ⟨.x25519, .ec seed⟩ (.ok (.ec scalar))
  | other {encoding : KeyEncoding} {algorithm : Algorithm} {bytes : Bytes} :
      FileHolds base64 crates input password encoding → HoldsScalar crates algorithm bytes encoding →
      algorithm ≠ .x25519 → Exports input password ⟨algorithm, .ec bytes⟩ (.ok (.ec bytes))

variable {base64 crates}

/-- The algorithm of an RSA key says how wide its modulus is. -/
theorem rsaImported_width {rsa : RsaPrivateKey} {key : ImportedKey}
    (h : rsaImported crates.toCrates rsa = .ok key) :
    ∃ width, modulusWidth key.algorithm = some (2 * width) ∧ 0 < width ∧
      rsa.n.size = 2 * (8 * width) := by
  rw [rsaImported] at h
  split_ifs at h with h1024 h2048 h3072 h4096
  · obtain ⟨material, -, rfl⟩ := Except.map_eq_ok_iff.mp h
    exact ⟨64, rfl, by decide, h1024⟩
  · obtain ⟨material, -, rfl⟩ := Except.map_eq_ok_iff.mp h
    exact ⟨128, rfl, by decide, h2048⟩
  · obtain ⟨material, -, rfl⟩ := Except.map_eq_ok_iff.mp h
    exact ⟨192, rfl, by decide, h3072⟩
  · obtain ⟨material, -, rfl⟩ := Except.map_eq_ok_iff.mp h
    exact ⟨256, rfl, by decide, h4096⟩

theorem padded_encode {width n : Nat} (h : n < 256 ^ width) :
    Padded width n (BigEndian.encode width n) :=
  ⟨BigEndian.length_encode _ _, BigEndian.decode_encode h⟩

/-- The padding in a sequence: the rest gets the number in the width, or the sequence fails. -/
theorem pad_bind {α : Type} {width n : Nat} (hwidth : 0 < width)
    (next : Bytes → Except KeyError α) :
    (pad (toBytesBe n) width >>= next) =
      if n < 256 ^ width then next (BigEndian.encode width n) else .error .encoding := by
  rw [pad_toBytesBe hwidth]
  split_ifs
  · rfl
  · rfl

/-- The export of an RSA key: all of its numbers in the width, or an error. -/
theorem openpgpKey_rsa {algorithm : Algorithm} {width : Nat} (f : CrtNumbers)
    (exponent : { bytes : Bytes // bytes.length = 4 })
    (hmodulus : modulusWidth algorithm = some (2 * width)) (hpos : 0 < width) :
    (f.Fit width → ∃ p q qInverse dP dQ,
      openpgpKey ⟨algorithm, .rsa exponent (toBytesBe f.p) (toBytesBe f.q) (toBytesBe f.dP)
        (toBytesBe f.dQ) (toBytesBe f.qInverse)⟩ = .ok (.rsa exponent p q qInverse dP dQ) ∧
      Padded width f.p p ∧ Padded width f.q q ∧ Padded width f.qInverse qInverse ∧
      Padded width f.dP dP ∧ Padded width f.dQ dQ) ∧
    (¬ f.Fit width →
      openpgpKey ⟨algorithm, .rsa exponent (toBytesBe f.p) (toBytesBe f.q) (toBytesBe f.dP)
        (toBytesBe f.dQ) (toBytesBe f.qInverse)⟩ = .error .encoding) := by
  have hhalf : 2 * width / 2 = width := Nat.mul_div_cancel_left width (by decide)
  simp only [openpgpKey, hmodulus, okOr, Except.ok_bind, hhalf, pad_bind hpos]
  constructor
  · rintro ⟨hp, hq, hqInverse, hdP, hdQ⟩
    refine ⟨_, _, _, _, _, ?_, padded_encode hp, padded_encode hq, padded_encode hqInverse,
      padded_encode hdP, padded_encode hdQ⟩
    rw [if_pos hp, if_pos hq, if_pos hqInverse, if_pos hdP, if_pos hdQ]
    rfl
  · intro hfit
    split_ifs with hp hq hqInverse hdP hdQ
    · exact absurd ⟨hp, hq, hqInverse, hdP, hdQ⟩ hfit
    all_goals rfl

/-- The scalar of a SEC1 structure passes the checks of the card import. -/
theorem fromEcPrivate_scalar [DecidableEq Point] {der : Bytes} {outerCurve : Option Oid}
    {key : ImportedKey} (h : fromEcPrivate crates.toCrates der outerCurve = .ok key) :
    ∃ sec1 oid, crates.ecPrivateKey der = some sec1 ∧ key.material = .ec sec1.privateKey ∧
      crates.ecScalar key.algorithm sec1.privateKey = true ∧
      curveAlgorithm oid = some key.algorithm := by
  simp only [fromEcPrivate, ecImported, Except.bind_eq_ok_iff, okOr_eq_ok_iff, refuse_eq_ok_iff,
    Bool.not_eq_false] at h
  obtain ⟨sec1, hsec1, ⟨⟩, -, ⟨⟩, -, oid, -, algorithm, halgorithm, imported,
    ⟨⟨⟩, hscalar, himported⟩, ⟨⟩, -, hkey⟩ := h
  cases himported
  cases hkey
  exact ⟨sec1, oid, hsec1, rfl, hscalar, halgorithm⟩

theorem curveAlgorithm_ne_x25519 {oid : Oid} {algorithm : Algorithm}
    (h : curveAlgorithm oid = some algorithm) : algorithm ≠ .x25519 := by
  rintro rfl
  rw [curveAlgorithm] at h
  split_ifs at h <;> cases h

/-- A seed that is read lies in the field and has the width of the algorithm. -/
theorem fromSeedOid_seed {oid : String} {privateKey : Bytes} {outer : Option Bytes}
    {key : ImportedKey} (h : fromSeedOid crates.toCrates oid privateKey outer = .ok key) :
    ∃ width bytes given, seedAlgorithm oid = some (key.algorithm, width) ∧
      key.material = .ec bytes ∧ SeedForm crates privateKey bytes given ∧ bytes.length = width := by
  obtain ⟨width, halgorithm, hbound⟩ := fromSeedOid_bound h
  simp only [fromSeedOid, halgorithm, Except.bind_eq_ok_iff, okOr_eq_ok_iff, refuse_eq_ok_iff] at h
  obtain ⟨⟨algorithm, width'⟩, hsome, seed, -, ⟨⟩, hlength, ⟨⟩, -, hkey⟩ := h
  obtain ⟨-, rfl⟩ : key.algorithm = algorithm ∧ width = width' := by simpa using hsome
  cases hkey
  cases hbound with
  | mk hform hderives => exact ⟨width, seed, _, halgorithm, rfl, hform, not_not.mp hlength⟩

/-- Where a key that was read comes from. -/
theorem Reads.cases [DecidableEq Point] {key : ImportedKey} {encoding : KeyEncoding}
    (h : Reads crates key encoding) :
    (∃ rsa, HoldsRsa crates rsa encoding ∧ rsaImported crates.toCrates rsa = .ok key) ∨
      ∃ bytes, key.material = .ec bytes ∧ HoldsScalar crates key.algorithm bytes encoding ∧
        (key.algorithm = .x25519 → bytes.length = 32) := by
  cases encoding with
  | pkcs1 der =>
    obtain ⟨rsa, hdecode, himported⟩ := Except.bind_eq_ok_iff.mp h
    exact .inl ⟨rsa, hdecode, himported⟩
  | sec1 der =>
    obtain ⟨sec1, oid, hsec1, hmaterial, hscalar, halgorithm⟩ := fromEcPrivate_scalar h
    exact .inr ⟨_, hmaterial, .sec1 hsec1 rfl hscalar,
      fun hx25519 => absurd hx25519 (curveAlgorithm_ne_x25519 halgorithm)⟩
  | pkcs8 der =>
    obtain ⟨info, hinfo, h⟩ := Except.bind_eq_ok_iff.mp h
    rw [okOr_eq_ok_iff] at hinfo
    split_ifs at h with hoid hec
    · simp only [rsaFromPkcs8, Except.bind_eq_ok_iff] at h
      obtain ⟨⟨⟩, -, rsa, hdecode, ⟨⟩, -, himported⟩ := h
      exact .inl ⟨rsa, ⟨info, hinfo, hoid, hdecode⟩, himported⟩
    · simp only [ecFromPkcs8, Except.bind_eq_ok_iff] at h
      obtain ⟨curve, -, imported, himported, ⟨⟩, -, hkey⟩ := h
      cases hkey
      obtain ⟨sec1, oid, hsec1, hmaterial, hscalar, halgorithm⟩ := fromEcPrivate_scalar himported
      exact .inr ⟨_, hmaterial, .ec hinfo hec hsec1 rfl hscalar,
        fun hx25519 => absurd hx25519 (curveAlgorithm_ne_x25519 halgorithm)⟩
    · simp only [seedFromPkcs8, Except.bind_eq_ok_iff] at h
      obtain ⟨⟨⟩, -, h⟩ := h
      obtain ⟨width, bytes, given, halgorithm, hmaterial, hform, hlength⟩ := fromSeedOid_seed h
      refine .inr ⟨bytes, hmaterial, .seed hinfo halgorithm hform hlength, fun hx25519 => ?_⟩
      rcases seedAlgorithm_eq_some halgorithm with hpq | ⟨-, hwidth⟩
      · rw [hx25519] at hpq
        cases hpq with
        | inl hpq => cases hpq
        | inr hpq => cases hpq
      · rw [hlength, hwidth]

/-- Every key that is accepted is exported as the numbers and scalars of the file. -/
theorem openpgpKey_exports [DecidableEq Point] {input : Bytes} {password : Option Bytes}
    {key : ImportedKey} (h : parsePrivateKey base64 crates input password = .ok key) :
    Exports base64 crates input password key (openpgpKey key) := by
  obtain ⟨algorithm, material⟩ := key
  obtain ⟨encoding, hholds, hreads⟩ := parsePrivateKey_reads base64 h
  rcases hreads.cases with ⟨rsa, hrsa, himported⟩ | ⟨bytes, hmaterial, hscalar, hlength⟩
  · obtain ⟨width, hmodulus, hpos, hsize⟩ := rsaImported_width himported
    obtain ⟨p, q, c, exponent, hprimes, hc, he, hmaterial⟩ :=
      rsaMaterial_eq_ok (rsaImported_eq_ok himported)
    let f : CrtNumbers := ⟨p, q, c, rsa.d % (p - 1), rsa.d % (q - 1)⟩
    have hf : f.Of crates rsa width := ⟨hprimes, hc, rfl, rfl, hsize⟩
    obtain ⟨hok, herror⟩ := openpgpKey_rsa f exponent hmodulus hpos
    obtain rfl : material = _ := hmaterial
    by_cases hfit : f.Fit width
    · obtain ⟨p', q', qInverse, dP, dQ, hexport, hp, hq, hqInverse, hdP, hdQ⟩ := hok hfit
      rw [hexport]
      exact .rsa hholds hrsa hmodulus hf hfit he hp hq hqInverse hdP hdQ
    · rw [herror hfit]
      exact .tooWide hholds hrsa hmodulus hf hfit
  · obtain rfl : material = .ec bytes := hmaterial
    by_cases hx25519 : algorithm = .x25519
    · subst hx25519
      have hseed : bytes.length = 32 := hlength rfl
      have hexport : openpgpKey ⟨.x25519, .ec bytes⟩ = .ok (.ec (x25519Scalar bytes)) := by
        simp only [openpgpKey, if_true, refuse, hseed, ne_eq, not_true_eq_false, if_false]
        rfl
      rw [hexport]
      exact .x25519 hholds hscalar (decode_x25519Scalar hseed)
    · have hexport : openpgpKey ⟨algorithm, .ec bytes⟩ = .ok (.ec bytes) := if_neg hx25519
      rw [hexport]
      exact .other hholds hscalar hx25519

end Exports

namespace Fixture

open Attestation.Fixture (ofHex testBase64)

def x25519Seed : Bytes := ofHex 32 0xa546e36bf0527c9d3b16154b82465edd62144c0ac1fc5a18506a2244ba449ac4

def x25519Der : Bytes := ofHex 16 0x302e020100300506032b656e04220420 ++ x25519Seed

def x25519Info : PrivateKeyInfo := ⟨⟨⟨[1, 3, 101, 110]⟩, none⟩, 0x04 :: 0x20 :: x25519Seed, none⟩

def x25519Crates : Pkcs12.Crates Unit Unit :=
  { testCrates with privateKeyInfo := fun der => if der = x25519Der then some x25519Info else none }

end Fixture

/-- An X25519 key is exported as its clamped scalar, most significant byte first. -/
theorem openpgpKey_exports_x25519 :
    Exports Attestation.Fixture.testBase64 Fixture.x25519Crates Fixture.x25519Der none
      ⟨.x25519, .ec Fixture.x25519Seed⟩
      (.ok (.ec (Attestation.Fixture.ofHex 32
        0x449a44ba44226a50185afcc10a4c1462dd5e46824b15163b9d7c52f06be346a0))) := by
  have hparse : parsePrivateKey Attestation.Fixture.testBase64 Fixture.x25519Crates Fixture.x25519Der
      none = .ok ⟨.x25519, .ec Fixture.x25519Seed⟩ := by
    decide
  have hexport : openpgpKey ⟨.x25519, .ec Fixture.x25519Seed⟩ =
      .ok (.ec (Attestation.Fixture.ofHex 32
        0x449a44ba44226a50185afcc10a4c1462dd5e46824b15163b9d7c52f06be346a0)) := by
    decide
  exact hexport ▸ openpgpKey_exports hparse

end Keys
