import Ckman.Der
import Ckman.Pkcs12Bags
import Ckman.TrustRoot

/-!
# Private key files

`parse_private_key` tries the encodings of a private key in turn. A key that it
returns is bound to every redundant field of the encoding that it was read
from, whatever container that encoding lay in.
-/
namespace Keys

open Host
open X509 (Oid)
open Attestation (BitString)
open Pem (Base64 KeyError pemDecode)
open Piv (Algorithm)

variable {Secret Point : Type} (base64 : Base64) (crates : Pkcs12.Crates Secret Point)

def privateKeyLabel : List Char := "PRIVATE KEY".toList
def encryptedLabel : List Char := "ENCRYPTED PRIVATE KEY".toList
def rsaLabel : List Char := "RSA PRIVATE KEY".toList
def ecLabel : List Char := "EC PRIVATE KEY".toList

/-- `match first { Err(KeyError::Encoding) => next, other => other }` -/
def orEncoding (first next : Except KeyError ImportedKey) : Except KeyError ImportedKey :=
  match first with
  | .error .encoding => next
  | other => other

/-- The encodings of an unlabelled or plainly labelled key, in the order in
which they are tried. -/
def parseUnlabelled [DecidableEq Point] (der : Bytes) (password : Option Bytes) :
    Except KeyError ImportedKey :=
  orEncoding (fromPkcs8 crates.toCrates der) <|
    orEncoding (decryptPkcs8 crates.toCrates der password) <|
      orEncoding (orEncoding (fromPkcs1 crates.toCrates der) (fromSec1 crates.toCrates der)) <|
        Pkcs12.keyFromPfx crates der password

def parsePrivateKey [DecidableEq Point] (input : Bytes) (password : Option Bytes) :
    Except KeyError ImportedKey := do
  let (label, der) ← pemDecode base64 input [privateKeyLabel, encryptedLabel, rsaLabel, ecLabel]
  if label = encryptedLabel then decryptPkcs8 crates.toCrates der password
  else if label = rsaLabel then fromPkcs1 crates.toCrates der
  else if label = ecLabel then fromSec1 crates.toCrates der
  else parseUnlabelled crates der password

/-- One encoding of a private key. -/
inductive KeyEncoding where
  | pkcs8 (der : Bytes)
  | pkcs1 (der : Bytes)
  | sec1 (der : Bytes)

/-- The PKCS#8 keys of a PKCS#12 bundle: the plain and the shrouded bags of its
content infos. -/
inductive BundleHolds (input : Bytes) (password : Option Bytes) : Bytes → Prop
  | bag {pfx : Pkcs12.Pfx} {authSafe contents der : Bytes} {infos : List Pkcs12.ContentInfo}
      {info : Pkcs12.ContentInfo} {bags : List Pkcs12.SafeBag} {bag : Pkcs12.SafeBag} :
      crates.pfx input = some pfx → crates.decodeOctets pfx.authSafe.content = some authSafe →
      crates.contentInfos authSafe = some infos → info ∈ infos →
      Pkcs12.safeContents crates info password = .ok contents →
      crates.safeBags contents = some bags → bag ∈ bags →
      (bag.bagId.dotted = Pkcs12.oidKeyBag ∧ Pkcs12.keyBag crates bag = .ok der ∨
        bag.bagId.dotted = Pkcs12.oidShroudedKeyBag ∧
          Pkcs12.shroudedKeyBag crates bag password = .ok der) →
      BundleHolds input password der

inductive DerHolds (der : Bytes) (password : Option Bytes) : KeyEncoding → Prop
  | pkcs8 : DerHolds der password (.pkcs8 der)
  | pkcs1 : DerHolds der password (.pkcs1 der)
  | sec1 : DerHolds der password (.sec1 der)
  | encrypted {encrypted : EncryptedPrivateKeyInfo} {text inner : Bytes} :
      crates.encryptedPrivateKeyInfo der = some encrypted → password = some text →
      crates.decryptKey encrypted text = some inner → DerHolds der password (.pkcs8 inner)
  | bundle {inner : Bytes} : BundleHolds crates der password inner →
      DerHolds der password (.pkcs8 inner)

/-- The encodings that a file holds: those of its DER, armoured or not. -/
def FileHolds (input : Bytes) (password : Option Bytes) (encoding : KeyEncoding) : Prop :=
  ∃ label der, pemDecode base64 input [privateKeyLabel, encryptedLabel, rsaLabel, ecLabel] =
    .ok (label, der) ∧ DerHolds crates der password encoding

structure RsaFields where
  n : Nat
  e : Nat
  d : Nat
  p : Nat
  q : Nat
  dP : Nat
  dQ : Nat
  qInv : Nat

/-- An INTEGER that is not negative: a leading zero keeps the sign bit clear. -/
def derInteger (n : Nat) : Bytes :=
  Der.tlv 0x02 (if (toBytesBe n).headD 0 < 128 then toBytesBe n else 0 :: toBytesBe n)

def RsaFields.encode (f : RsaFields) : Bytes :=
  Der.tlv 0x30 ([0, f.n, f.e, f.d, f.p, f.q, f.dP, f.dQ, f.qInv].flatMap derInteger)

/-- The CRT fields are the ones computed from `p`, `q` and `d`. -/
structure RsaFields.Consistent (f : RsaFields) : Prop where
  dP : f.dP = f.d % (f.p - 1)
  dQ : f.dQ = f.d % (f.q - 1)
  qInv : f.qInv < f.p ∧ f.qInv * f.q % f.p = 1

/-- An outer RSA public key is the modulus and the exponent of the private key. -/
def RsaFields.HasPublic (f : RsaFields) (pub : Bytes) : Prop :=
  ∃ supplied, crates.rsaPublicKey pub = some supplied ∧
    BigEndian.decode supplied.modulus = f.n ∧ BigEndian.decode supplied.publicExponent = f.e

/-- Documented behaviour of the RSA crate: the encoder writes the numbers of the
key and computes the CRT values. -/
structure DocumentedRsa : Prop where
  encoder : ∀ key der p q, key.primes = [p, q] → crates.rsaPrivateDer key = some der →
    ∃ c, crates.crtCoefficient key = some c ∧
      der = RsaFields.encode ⟨key.n, key.e, key.d, p, q, key.d % (p - 1), key.d % (q - 1), c⟩
  /-- The coefficient of a key that was read is an inverse of `q` modulo `p`. -/
  crtCoefficient : ∀ der key p q c, crates.rsaPrivateKey der = some key → key.primes = [p, q] →
    crates.crtCoefficient key = some c → c < p ∧ c * q % p = 1

/-- The key is the one in this PKCS#1 DER, whose fields agree with each other
and with the outer public key. -/
inductive RsaBound (der : Bytes) (outer : Option Bytes) : ImportedKey → Prop
  | mk {algorithm : Algorithm} {f : RsaFields} {exponent : { bytes : Bytes // bytes.length = 4 }} :
      der = f.encode → f.Consistent → BigEndian.decode exponent.val = f.e →
      (∀ pub ∈ outer, f.HasPublic crates pub) →
      RsaBound der outer ⟨algorithm, .rsa exponent (toBytesBe f.p) (toBytesBe f.q)
        (toBytesBe f.dP) (toBytesBe f.dQ) (toBytesBe f.qInv)⟩

/-- The public key is the point of the scalar on the curve of the algorithm. -/
def PointOf (algorithm : Algorithm) (scalar pub : Bytes) : Prop :=
  ∃ curve secret, curveOf algorithm = some curve ∧ crates.secretKey curve scalar = some secret ∧
    crates.publicKey curve pub = some (crates.publicOf curve secret)

/-- The key is the scalar of this SEC1 structure, whose curve and public keys
are its own. -/
structure EcBound (sec1 : EcPrivateKey) (outerCurve : Option Oid) (outer : Option Bytes)
    (key : ImportedKey) : Prop where
  material : key.material = .ec sec1.privateKey
  curve : ∃ curve, curveAlgorithm curve = some key.algorithm ∧ (∀ oid ∈ outerCurve, oid = curve) ∧
    ∀ oid ∈ sec1.parameters, oid = curve
  inner : ∀ bits ∈ sec1.publicKey, ∃ pub, bits.asBytes = some pub ∧
    PointOf crates key.algorithm sec1.privateKey pub
  outer : ∀ pub ∈ outer, PointOf crates key.algorithm sec1.privateKey pub

/-- The seed and the expanded key that a private key field holds. -/
inductive SeedForm (privateKey : Bytes) : Bytes → Option Bytes → Prop
  | raw : SeedForm privateKey privateKey none
  | octets {seed : Bytes} : crates.octetString privateKey = some seed → SeedForm privateKey seed none
  | tagged {tag : X509.Tag} {seed : Bytes} : tag = Pq.implicitTag ∨ tag = Pq.octetStringTag →
      crates.anyRef privateKey = some ⟨tag, seed⟩ → SeedForm privateKey seed none
  | both {seed expanded : Bytes} : crates.both privateKey = some ⟨seed, expanded⟩ →
      SeedForm privateKey seed (some expanded)

/-- The public key and the expanded key of a seed. Curve25519 keys have no
expanded form. -/
inductive Derives : Algorithm → Bytes → Bytes → Option Bytes → Prop
  | ed25519 {seed : Bytes} : seed.length = 32 →
      Derives .ed25519 seed (crates.edwardsBase ((crates.sha512 seed).take 32)) none
  | x25519 {seed : Bytes} : seed.length = 32 →
      Derives .x25519 seed (crates.montgomeryBase seed) none
  | mlDsa65 {seed : Bytes} : seed.length = 32 →
      Derives .mlDsa65 seed (crates.mlDsa65 seed).pub (some (crates.mlDsa65 seed).expanded)
  | mlKem768 {d z : Bytes} : d.length = 32 → z.length = 32 →
      Derives .mlKem768 (d ++ z) (crates.mlKem768 d z).pub (some (crates.mlKem768 d z).expanded)

/-- The key is the seed in this field, and the seed derives the other fields. -/
inductive SeedBound (privateKey : Bytes) (outer : Option Bytes) : ImportedKey → Prop
  | mk {algorithm : Algorithm} {seed pub : Bytes} {given expanded : Option Bytes} :
      SeedForm crates privateKey seed given → Derives crates algorithm seed pub expanded →
      (∀ key ∈ given, expanded = some key) → (∀ key ∈ outer, key = pub) →
      SeedBound privateKey outer ⟨algorithm, .ec seed⟩

inductive Bound : KeyEncoding → ImportedKey → Prop
  | pkcs1 {der : Bytes} {key : ImportedKey} : RsaBound crates der none key → Bound (.pkcs1 der) key
  | sec1 {der : Bytes} {sec1 : EcPrivateKey} {key : ImportedKey} :
      crates.ecPrivateKey der = some sec1 → EcBound crates sec1 none none key →
      Bound (.sec1 der) key
  | rsa {der : Bytes} {info : PrivateKeyInfo} {key : ImportedKey} :
      crates.privateKeyInfo der = some info → info.algorithm.oid.dotted = "1.2.840.113549.1.1.1" →
      RsaBound crates info.privateKey info.publicKey key → Bound (.pkcs8 der) key
  | ec {der : Bytes} {info : PrivateKeyInfo} {curve : Oid} {sec1 : EcPrivateKey} {key : ImportedKey} :
      crates.privateKeyInfo der = some info → info.algorithm.oid.dotted = "1.2.840.10045.2.1" →
      info.algorithm.parameters.bind crates.decodeOid = some curve →
      crates.ecPrivateKey info.privateKey = some sec1 →
      EcBound crates sec1 (some curve) info.publicKey key → Bound (.pkcs8 der) key
  | seed {der : Bytes} {info : PrivateKeyInfo} {width : Nat} {key : ImportedKey} :
      crates.privateKeyInfo der = some info →
      seedAlgorithm info.algorithm.oid.dotted = some (key.algorithm, width) →
      SeedBound crates info.privateKey info.publicKey key → Bound (.pkcs8 der) key

/-- Nothing is said about a field that is absent. -/
theorem forall_mem_none {α : Type} {p : α → Prop} : ∀ a ∈ (none : Option α), p a :=
  fun a h => absurd h (Option.not_mem_none a)

variable {crates}

theorem decode_padded {bytes : Bytes} (n : Nat) :
    BigEndian.decode (List.replicate n 0 ++ bytes) = BigEndian.decode bytes := by
  induction n with
  | zero => rfl
  | succ n ih =>
    rw [List.replicate_succ, List.cons_append, BigEndian.decode, ih, UInt8.toNat_zero, Nat.zero_mul,
      Nat.zero_add]

/-- What the material of an RSA key is. -/
theorem rsaMaterial_eq_ok {key : RsaPrivateKey} {material : Material}
    (h : rsaMaterial crates.toCrates key = .ok material) :
    ∃ p q c exponent, key.primes = [p, q] ∧ crates.crtCoefficient key = some c ∧
      BigEndian.decode exponent.val = key.e ∧
      material = .rsa exponent (toBytesBe p) (toBytesBe q) (toBytesBe (key.d % (p - 1)))
        (toBytesBe (key.d % (q - 1))) (toBytesBe c) := by
  rw [rsaMaterial] at h
  split at h
  · rename_i p q hprimes
    obtain ⟨c, hc, h⟩ := Except.bind_eq_ok_iff.mp h
    dsimp only at h
    split_ifs at h with hlen
    cases h
    refine ⟨p, q, c, _, hprimes, okOr_eq_ok_iff.mp hc, ?_, rfl⟩
    rw [decode_padded, decode_toBytesBe]
  · cases h

theorem rsaImported_eq_ok {key : RsaPrivateKey} {imported : ImportedKey}
    (h : rsaImported crates.toCrates key = .ok imported) :
    rsaMaterial crates.toCrates key = .ok imported.material := by
  rw [rsaImported] at h
  split_ifs at h
  all_goals
    obtain ⟨material, hmaterial, rfl⟩ := Except.map_eq_ok_iff.mp h
    exact hmaterial

theorem decodeRsaPrivate_eq_ok {der : Bytes} {key : RsaPrivateKey}
    (h : decodeRsaPrivate crates.toCrates der = .ok key) :
    crates.rsaPrivateKey der = some key ∧ crates.rsaPrivateDer key = some der := by
  simp only [decodeRsaPrivate, Except.bind_eq_ok_iff, okOr_eq_ok_iff, refuse_eq_ok_iff] at h
  obtain ⟨key', hkey, canonical, hcanonical, ⟨⟩, hsame, h⟩ := h
  cases h
  obtain rfl : canonical = der := not_not.mp hsame
  exact ⟨hkey, hcanonical⟩

theorem checkRsaPublic_eq_ok {key : RsaPrivateKey} {outer : Option Bytes} {u : Unit}
    (h : checkRsaPublic crates.toCrates key outer = .ok u) :
    ∀ pub ∈ outer, ∃ supplied, crates.rsaPublicKey pub = some supplied ∧
      BigEndian.decode supplied.modulus = key.n ∧
      BigEndian.decode supplied.publicExponent = key.e := by
  rintro pub ⟨⟩
  simp only [checkRsaPublic, Except.bind_eq_ok_iff, okOr_eq_ok_iff, refuse_eq_ok_iff, not_or,
    ne_eq, not_not] at h
  obtain ⟨supplied, hsupplied, hmodulus, hexponent⟩ := h
  refine ⟨supplied, hsupplied, ?_, ?_⟩
  · rw [← hmodulus, decode_toBytesBe]
  · rw [← hexponent, decode_toBytesBe]

/-- A key whose canonical encoding is the input is bound to it. -/
theorem rsaBound {der : Bytes} {key : RsaPrivateKey} {imported : ImportedKey}
    (hrsa : DocumentedRsa crates) (hdecode : decodeRsaPrivate crates.toCrates der = .ok key)
    (himported : rsaImported crates.toCrates key = .ok imported) {outer : Option Bytes}
    (houter : ∀ pub ∈ outer, ∃ supplied, crates.rsaPublicKey pub = some supplied ∧
      BigEndian.decode supplied.modulus = key.n ∧
      BigEndian.decode supplied.publicExponent = key.e) :
    RsaBound crates der outer imported := by
  obtain ⟨algorithm, material⟩ := imported
  obtain ⟨hread, hwrite⟩ := decodeRsaPrivate_eq_ok hdecode
  obtain ⟨p, q, c, exponent, hprimes, hc, he, rfl⟩ :=
    rsaMaterial_eq_ok (rsaImported_eq_ok himported)
  obtain ⟨c', hc', hder⟩ := hrsa.encoder key der p q hprimes hwrite
  obtain rfl : c = c' := Option.some.inj (hc.symm.trans hc')
  have hinverse := hrsa.crtCoefficient der key p q c hread hprimes hc
  exact .mk (f := ⟨key.n, key.e, key.d, p, q, key.d % (p - 1), key.d % (q - 1), c⟩) hder
    ⟨rfl, rfl, hinverse⟩ he houter

theorem fromPkcs1_bound (hrsa : DocumentedRsa crates) {der : Bytes} {key : ImportedKey}
    (h : fromPkcs1 crates.toCrates der = .ok key) : RsaBound crates der none key := by
  obtain ⟨rsa, hdecode, himported⟩ := Except.bind_eq_ok_iff.mp h
  exact rsaBound hrsa hdecode himported forall_mem_none

theorem rsaFromPkcs8_bound (hrsa : DocumentedRsa crates) {info : PrivateKeyInfo}
    {key : ImportedKey} (h : rsaFromPkcs8 crates.toCrates info = .ok key) :
    RsaBound crates info.privateKey info.publicKey key := by
  simp only [rsaFromPkcs8, Except.bind_eq_ok_iff] at h
  obtain ⟨⟨⟩, -, rsa, hdecode, ⟨⟩, hpublic, himported⟩ := h
  exact rsaBound hrsa hdecode himported (checkRsaPublic_eq_ok hpublic)

section Curves

variable [DecidableEq Point]

theorem validateEcPublicKey_eq_ok {algorithm : Algorithm} {scalar pub : Bytes} {u : Unit}
    (h : validateEcPublicKey crates.toCrates algorithm scalar pub = .ok u) :
    PointOf crates algorithm scalar pub := by
  rw [validateEcPublicKey] at h
  split at h
  · cases h
  · rename_i curve hcurve
    simp only [Except.bind_eq_ok_iff, okOr_eq_ok_iff, refuse_eq_ok_iff, ne_eq, not_not] at h
    obtain ⟨secret, hsecret, supplied, hsupplied, hsame⟩ := h
    exact ⟨curve, secret, hcurve, hsecret, hsame ▸ hsupplied⟩

theorem checkInnerPublic_eq_ok {algorithm : Algorithm} {scalar : Bytes} {inner : Option BitString}
    {u : Unit} (h : checkInnerPublic crates.toCrates algorithm scalar inner = .ok u) :
    ∀ bits ∈ inner, ∃ pub, bits.asBytes = some pub ∧ PointOf crates algorithm scalar pub := by
  rintro bits ⟨⟩
  simp only [checkInnerPublic, Except.bind_eq_ok_iff, okOr_eq_ok_iff] at h
  obtain ⟨pub, hpub, hvalid⟩ := h
  exact ⟨pub, hpub, validateEcPublicKey_eq_ok hvalid⟩

/-- A SEC1 key is bound to its own fields and to the outer curve. -/
theorem fromEcPrivate_bound {der : Bytes} {outerCurve : Option Oid} {key : ImportedKey}
    (h : fromEcPrivate crates.toCrates der outerCurve = .ok key) :
    ∃ sec1, crates.ecPrivateKey der = some sec1 ∧ EcBound crates sec1 outerCurve none key := by
  simp only [fromEcPrivate, ecImported, Except.bind_eq_ok_iff, okOr_eq_ok_iff,
    refuse_eq_ok_iff] at h
  obtain ⟨sec1, hsec1, ⟨⟩, -, ⟨⟩, hcurves, curve, hcurve, algorithm, halgorithm, imported,
    ⟨⟨⟩, -, himported⟩, ⟨⟩, hinner, hkey⟩ := h
  cases himported
  cases hkey
  refine ⟨sec1, hsec1, rfl, ⟨curve, halgorithm, ?_, ?_⟩, checkInnerPublic_eq_ok hinner,
    forall_mem_none⟩
  · rintro oid ⟨⟩
    exact Option.some.inj hcurve
  · rintro oid hoid
    rw [Option.mem_def] at hoid
    cases outerCurve with
    | none =>
      rw [hoid] at hcurve
      exact Option.some.inj hcurve
    | some outer =>
      obtain rfl : outer = curve := Option.some.inj hcurve
      rw [hoid] at hcurves
      simp only [Option.isSome_some, true_and, ne_eq, Option.some.injEq, not_not] at hcurves
      exact hcurves.symm

theorem checkOuterPublic_eq_ok {key : ImportedKey} {scalar : Bytes}
    (hmaterial : key.material = .ec scalar) {outer : Option Bytes} {u : Unit}
    (h : checkOuterPublic crates.toCrates key outer = .ok u) :
    ∀ pub ∈ outer, PointOf crates key.algorithm scalar pub := by
  rintro pub ⟨⟩
  simp only [checkOuterPublic, hmaterial] at h
  exact validateEcPublicKey_eq_ok h

theorem ecFromPkcs8_bound {info : PrivateKeyInfo} {key : ImportedKey}
    (h : ecFromPkcs8 crates.toCrates info = .ok key) :
    ∃ curve sec1, info.algorithm.parameters.bind crates.decodeOid = some curve ∧
      crates.ecPrivateKey info.privateKey = some sec1 ∧
      EcBound crates sec1 (some curve) info.publicKey key := by
  simp only [ecFromPkcs8, Except.bind_eq_ok_iff, okOr_eq_ok_iff] at h
  obtain ⟨curve, hcurve, imported, himported, ⟨⟩, hpublic, hkey⟩ := h
  cases hkey
  obtain ⟨sec1, hsec1, hbound⟩ := fromEcPrivate_bound himported
  exact ⟨curve, sec1, hcurve, hsec1,
    { hbound with outer := checkOuterPublic_eq_ok hbound.material hpublic }⟩

end Curves

theorem encodedSeed_eq_ok {privateKey seed : Bytes} {given : Option Bytes} {width expandedWidth : Nat}
    (h : Pq.encodedSeed crates.toCrates privateKey width expandedWidth = .ok (seed, given)) :
    SeedForm crates privateKey seed given := by
  simp only [Pq.encodedSeed, Except.bind_eq_ok_iff, okOr_eq_ok_iff] at h
  obtain ⟨⟨tag, value⟩, hany, h⟩ := h
  split_ifs at h with himplicit hsequence hoctets hexpanded
  · cases h
    exact .tagged (.inl himplicit) hany
  · simp only [Except.bind_eq_ok_iff, okOr_eq_ok_iff, refuse_eq_ok_iff] at h
    obtain ⟨both, hboth, ⟨⟩, -, h⟩ := h
    cases h
    exact .both hboth
  · cases h
    exact .tagged (.inr hoctets.1) hany

/-- A seed of the right width derives its keys. -/
theorem derive_eq {algorithm : Algorithm} {width expandedWidth : Nat} {seed : Bytes}
    (hwidths : Pq.widths algorithm = some (width, expandedWidth)) (hseed : seed.length = width) :
    ∃ derived, Pq.derive crates.toCrates algorithm seed = .ok derived ∧
      Derives crates algorithm seed derived.pub (some derived.expanded) := by
  cases algorithm with
  | mlDsa65 =>
    cases hwidths
    refine ⟨crates.mlDsa65 seed, ?_, .mlDsa65 hseed⟩
    rw [Pq.derive, refuse, if_neg (not_not.mpr hseed)]
    rfl
  | mlKem768 =>
    cases hwidths
    have hd : (seed.take 32).length = 32 := by
      rw [List.length_take]
      omega
    have hz : (seed.drop 32).length = 32 := by
      rw [List.length_drop]
      omega
    have hderives : Derives crates .mlKem768 (seed.take 32 ++ seed.drop 32)
        (crates.mlKem768 (seed.take 32) (seed.drop 32)).pub
        (some (crates.mlKem768 (seed.take 32) (seed.drop 32)).expanded) := .mlKem768 hd hz
    rw [List.take_append_drop] at hderives
    refine ⟨crates.mlKem768 (seed.take 32) (seed.drop 32), ?_, hderives⟩
    rw [Pq.derive, refuse, if_neg (not_not.mpr hseed)]
    rfl
  | _ => cases hwidths

theorem checkDerived_eq_ok_iff {algorithm : Algorithm} {seed : Bytes} {given outer : Option Bytes}
    {derived : Derived} (hderive : Pq.derive crates.toCrates algorithm seed = .ok derived) :
    Pq.checkDerived crates.toCrates algorithm seed given outer = .ok () ↔
      (∀ key ∈ given, key = derived.expanded) ∧ ∀ key ∈ outer, key = derived.pub := by
  rw [Pq.checkDerived]
  split_ifs with hpresent
  · rw [hderive, Except.ok_bind, refuse_eq_ok_iff, not_or]
    cases given <;> cases outer <;> simp
  · simp only [not_or, Option.not_isSome_iff_eq_none] at hpresent
    rw [hpresent.1, hpresent.2]
    exact iff_of_true rfl ⟨forall_mem_none, forall_mem_none⟩

theorem seed_eq_ok {algorithm : Algorithm} {privateKey seed : Bytes} {outer : Option Bytes}
    (h : Pq.seed crates.toCrates algorithm privateKey outer = .ok seed) :
    SeedBound crates privateKey outer ⟨algorithm, .ec seed⟩ := by
  rw [Pq.seed] at h
  split at h
  · cases h
  · rename_i width expandedWidth hwidths
    simp only [Except.bind_eq_ok_iff, refuse_eq_ok_iff] at h
    obtain ⟨⟨seed', given⟩, hform, ⟨⟩, hlength, ⟨⟩, hchecked, hseed⟩ := h
    cases hseed
    obtain ⟨derived, hderive, hderives⟩ :
        ∃ derived, Pq.derive crates.toCrates algorithm seed' = .ok derived ∧
          Derives crates algorithm seed' derived.pub (some derived.expanded) :=
      derive_eq hwidths (not_not.mp hlength)
    obtain ⟨hgiven, houter⟩ := (checkDerived_eq_ok_iff hderive).mp hchecked
    have hseed : SeedForm crates privateKey seed' given := by
      split_ifs at hform
      · cases hform
        exact .raw
      · exact encodedSeed_eq_ok hform
    refine .mk hseed hderives (fun key hkey => ?_) houter
    rw [hgiven key hkey]

/-- The public key of a Curve25519 seed. -/
theorem seedPublicKey_eq {algorithm : Algorithm} {seed : Bytes}
    (halgorithm : algorithm = .ed25519 ∨ algorithm = .x25519) (hlength : seed.length = 32) :
    ∃ pub, Derives crates algorithm seed pub none ∧
      seedPublicKey crates.toCrates algorithm seed = .ok pub := by
  have hrefuse : refuse (seed.length ≠ 32) KeyError.encoding = .ok () :=
    refuse_eq_ok_iff.mpr (not_not.mpr hlength)
  rcases halgorithm with rfl | rfl
  · refine ⟨_, .ed25519 hlength, ?_⟩
    rw [seedPublicKey, hrefuse]
    rfl
  · refine ⟨_, .x25519 hlength, ?_⟩
    rw [seedPublicKey, hrefuse]
    rfl

/-- A Curve25519 seed is bound to the outer public key. -/
theorem curve25519_bound {algorithm : Algorithm} {privateKey seed : Bytes} {outer : Option Bytes}
    {u : Unit} (halgorithm : algorithm = .ed25519 ∨ algorithm = .x25519)
    (hseed : curve25519Seed crates.toCrates privateKey 32 = .ok seed) (hlength : seed.length = 32)
    (hchecked : checkSeedPublic crates.toCrates algorithm seed outer = .ok u) :
    SeedBound crates privateKey outer ⟨algorithm, .ec seed⟩ := by
  have hform : SeedForm crates privateKey seed none := by
    rw [curve25519Seed] at hseed
    split_ifs at hseed
    · cases hseed
      exact .raw
    · exact .octets (okOr_eq_ok_iff.mp hseed)
  obtain ⟨pub, hderives, hpub⟩ := @seedPublicKey_eq _ _ crates _ _ halgorithm hlength
  refine .mk hform hderives forall_mem_none ?_
  rintro key ⟨⟩
  rw [checkSeedPublic, if_pos halgorithm] at hchecked
  simp only [hpub, Except.ok_bind, refuse_eq_ok_iff, ne_eq, not_not] at hchecked
  exact hchecked

theorem seedAlgorithm_eq_some {oid : String} {algorithm : Algorithm} {width : Nat}
    (h : seedAlgorithm oid = some (algorithm, width)) :
    (algorithm = .mlDsa65 ∨ algorithm = .mlKem768) ∨
      (algorithm = .ed25519 ∨ algorithm = .x25519) ∧ width = 32 := by
  rw [seedAlgorithm] at h
  split_ifs at h <;> cases h <;> simp

theorem fromSeedOid_bound {oid : String} {privateKey : Bytes} {outer : Option Bytes}
    {key : ImportedKey} (h : fromSeedOid crates.toCrates oid privateKey outer = .ok key) :
    ∃ width, seedAlgorithm oid = some (key.algorithm, width) ∧
      SeedBound crates privateKey outer key := by
  simp only [fromSeedOid, Except.bind_eq_ok_iff, okOr_eq_ok_iff, refuse_eq_ok_iff] at h
  obtain ⟨⟨algorithm, width⟩, halgorithm, seed, hseed, ⟨⟩, hlength, ⟨⟩, hchecked, hkey⟩ := h
  cases hkey
  refine ⟨width, halgorithm, ?_⟩
  rcases seedAlgorithm_eq_some halgorithm with hpq | ⟨hcurve, rfl⟩
  · rw [if_pos hpq] at hseed
    exact seed_eq_ok hseed
  · have hpq : ¬ (algorithm = .mlDsa65 ∨ algorithm = .mlKem768) := by
      rcases hcurve with rfl | rfl <;> decide
    rw [if_neg hpq] at hseed
    exact curve25519_bound hcurve hseed (not_not.mp hlength) hchecked

variable [DecidableEq Point]

theorem fromPkcs8_bound (hrsa : DocumentedRsa crates) {der : Bytes} {key : ImportedKey}
    (h : fromPkcs8 crates.toCrates der = .ok key) : Bound crates (.pkcs8 der) key := by
  obtain ⟨info, hinfo, h⟩ := Except.bind_eq_ok_iff.mp h
  rw [okOr_eq_ok_iff] at hinfo
  split_ifs at h with hoid hec
  · exact .rsa hinfo hoid (rsaFromPkcs8_bound hrsa h)
  · obtain ⟨curve, sec1, hcurve, hsec1, hbound⟩ := ecFromPkcs8_bound h
    exact .ec hinfo hec hcurve hsec1 hbound
  · simp only [seedFromPkcs8, Except.bind_eq_ok_iff] at h
    obtain ⟨⟨⟩, -, h⟩ := h
    obtain ⟨width, halgorithm, hbound⟩ := fromSeedOid_bound h
    exact .seed hinfo halgorithm hbound

theorem fromSec1_bound {der : Bytes} {key : ImportedKey}
    (h : fromSec1 crates.toCrates der = .ok key) : Bound crates (.sec1 der) key := by
  obtain ⟨sec1, hsec1, hbound⟩ := fromEcPrivate_bound h
  exact .sec1 hsec1 hbound

def Reads (crates : Pkcs12.Crates Secret Point) (key : ImportedKey) : KeyEncoding → Prop
  | .pkcs8 der => fromPkcs8 crates.toCrates der = .ok key
  | .pkcs1 der => fromPkcs1 crates.toCrates der = .ok key
  | .sec1 der => fromSec1 crates.toCrates der = .ok key

theorem Reads.bound (hrsa : DocumentedRsa crates) {key : ImportedKey} {encoding : KeyEncoding}
    (h : Reads crates key encoding) : Bound crates encoding key := by
  cases encoding with
  | pkcs8 der => exact fromPkcs8_bound hrsa h
  | pkcs1 der => exact .pkcs1 (fromPkcs1_bound hrsa h)
  | sec1 der => exact fromSec1_bound h

theorem decryptPkcs8_reads {der : Bytes} {password : Option Bytes} {key : ImportedKey}
    (h : decryptPkcs8 crates.toCrates der password = .ok key) :
    ∃ encoding, DerHolds crates der password encoding ∧ Reads crates key encoding := by
  simp only [decryptPkcs8, Except.bind_eq_ok_iff, okOr_eq_ok_iff] at h
  obtain ⟨encrypted, hencrypted, ⟨⟩, -, text, htext, inner, hinner, h⟩ := h
  exact ⟨.pkcs8 inner, .encrypted hencrypted htext hinner, h⟩

/-- The key of a bundle is read from one of its bags. -/
theorem parsePfx_reads {input : Bytes} {password : Option Bytes} {data : Pkcs12.PfxData}
    (h : Pkcs12.parsePfx crates input password = .ok data) :
    ∀ key ∈ data.key, ∃ der, BundleHolds crates input password der ∧
      Reads crates key (.pkcs8 der) := by
  intro key hkey
  obtain ⟨bags, hbags, hholds⟩ := Pkcs12.parsePfx_holds h
  have hfirst := hholds.key
  rw [Option.mem_def.mp hkey] at hfirst
  generalize hfind : bags.find? Pkcs12.isKeyBag = first at hfirst
  cases hfirst with
  | some hbagKey =>
    cases hbags with
    | mk hpfx hsafe hinfos hlists =>
      obtain ⟨info, hinfo, bags, ⟨contents, hcontents, hbags⟩, hbag⟩ :=
        Pkcs12.exists_info_of_mem hlists (List.mem_of_find?_eq_some hfind)
      cases hbagKey with
      | plain hid hder hfrom =>
        exact ⟨_, .bag hpfx hsafe hinfos hinfo hcontents hbags hbag (.inl ⟨hid, hder⟩), hfrom⟩
      | shrouded hid hder hfrom =>
        exact ⟨_, .bag hpfx hsafe hinfos hinfo hcontents hbags hbag (.inr ⟨hid, hder⟩), hfrom⟩

theorem keyFromPfx_reads {input : Bytes} {password : Option Bytes} {key : ImportedKey}
    (h : Pkcs12.keyFromPfx crates input password = .ok key) :
    ∃ encoding, DerHolds crates input password encoding ∧ Reads crates key encoding := by
  simp only [Pkcs12.keyFromPfx, Except.bind_eq_ok_iff, okOr_eq_ok_iff] at h
  obtain ⟨data, hdata, hkey⟩ := h
  obtain ⟨der, hholds, hreads⟩ := parsePfx_reads hdata key hkey
  exact ⟨.pkcs8 der, .bundle hholds, hreads⟩

theorem orEncoding_eq_ok {first next : Except KeyError ImportedKey} {key : ImportedKey}
    (h : orEncoding first next = .ok key) : first = .ok key ∨ next = .ok key := by
  rw [orEncoding.eq_def] at h
  split at h
  · exact .inr h
  · exact .inl h

theorem parseUnlabelled_reads {der : Bytes} {password : Option Bytes} {key : ImportedKey}
    (h : parseUnlabelled crates der password = .ok key) :
    ∃ encoding, DerHolds crates der password encoding ∧ Reads crates key encoding := by
  rcases orEncoding_eq_ok h with h | h
  · exact ⟨.pkcs8 der, .pkcs8, h⟩
  rcases orEncoding_eq_ok h with h | h
  · exact decryptPkcs8_reads h
  rcases orEncoding_eq_ok h with h | h
  · rcases orEncoding_eq_ok h with h | h
    · exact ⟨.pkcs1 der, .pkcs1, h⟩
    · exact ⟨.sec1 der, .sec1, h⟩
  · exact keyFromPfx_reads h

/-- Every key that is returned was read from an encoding in the file. -/
theorem parsePrivateKey_reads {input : Bytes} {password : Option Bytes} {key : ImportedKey}
    (h : parsePrivateKey base64 crates input password = .ok key) :
    ∃ encoding, FileHolds base64 crates input password encoding ∧ Reads crates key encoding := by
  obtain ⟨⟨label, der⟩, hpem, h⟩ := Except.bind_eq_ok_iff.mp h
  have hlift : ∀ {encoding}, DerHolds crates der password encoding →
      FileHolds base64 crates input password encoding := fun hholds => ⟨label, der, hpem, hholds⟩
  simp only at h
  split_ifs at h
  · obtain ⟨encoding, hholds, hreads⟩ := decryptPkcs8_reads h
    exact ⟨encoding, hlift hholds, hreads⟩
  · exact ⟨.pkcs1 der, hlift .pkcs1, h⟩
  · exact ⟨.sec1 der, hlift .sec1, h⟩
  · obtain ⟨encoding, hholds, hreads⟩ := parseUnlabelled_reads h
    exact ⟨encoding, hlift hholds, hreads⟩

/-- Every accepted file holds an encoding whose redundant fields are all bound
to the key that is returned. -/
theorem parsePrivateKey_bound (hrsa : DocumentedRsa crates) {input : Bytes}
    {password : Option Bytes} {key : ImportedKey}
    (h : parsePrivateKey base64 crates input password = .ok key) :
    ∃ encoding, FileHolds base64 crates input password encoding ∧ Bound crates encoding key := by
  obtain ⟨encoding, hholds, hreads⟩ := parsePrivateKey_reads base64 h
  exact ⟨encoding, hholds, hreads.bound hrsa⟩

namespace Fixture

open Attestation.Fixture (ofHex testBase64)

def edSeed : Bytes := ofHex 32 0x9d61b19deffd5a60ba844af492ec2cc44449c5697b326919703bac031cae7f60

def edPublic : Bytes := ofHex 32 0xd75a980182b10ab7d54bfed3c964073a0ee172f3daa62325af021a68f707511a

/-- The lower half of the SHA-512 digest of the seed. -/
def edScalar : Bytes := ofHex 32 0x357c83864f2833cb427a2ef1c00a013cfdff2768d980c0a3a520f006904de90f

def edDigest : Bytes :=
  edScalar ++ ofHex 32 0x9b4f0afe280b746a778684e75442502057b7473a03f08f96f5a38e9287e01f8f

/-- A version 2 PKCS#8 structure with the seed and its public key. -/
def edDer : Bytes :=
  ofHex 16 0x3051020101300506032b657004220420 ++ edSeed ++ ofHex 3 0x812100 ++ edPublic

def edInfo : PrivateKeyInfo :=
  ⟨⟨⟨[1, 3, 101, 112]⟩, none⟩, 0x04 :: 0x20 :: edSeed, some edPublic⟩

def testCrtCoefficient (key : RsaPrivateKey) : Option Nat :=
  match key.primes with
  | [p, q] => (List.range p).find? (fun c => c * q % p = 1)
  | _ => none

def testRsaDer (key : RsaPrivateKey) : Option Bytes :=
  match key.primes with
  | [p, q] => (testCrtCoefficient key).map fun c =>
      RsaFields.encode ⟨key.n, key.e, key.d, p, q, key.d % (p - 1), key.d % (q - 1), c⟩
  | _ => none

def testCrates : Pkcs12.Crates Unit Unit where
  privateKeyInfo der := if der = edDer then some edInfo else none
  encryptedPrivateKeyInfo _ := none
  ecPrivateKey _ := none
  octetString
    | 0x04 :: length :: contents => if contents.length = length.toNat then some contents else none
    | _ => none
  anyRef _ := none
  both _ := none
  decodeOid _ := none
  rsaPrivateKey _ := none
  rsaPrivateDer := testRsaDer
  rsaPublicKey _ := none
  crtCoefficient := testCrtCoefficient
  ecScalar _ _ := false
  secretKey _ _ := none
  publicOf _ _ := ()
  publicKey _ _ := none
  montgomeryBase _ := []
  edwardsBase scalar := if scalar = edScalar then edPublic else []
  sha512 bytes := if bytes = edSeed then edDigest else []
  mlDsa65 _ := ⟨[], []⟩
  mlKem768 _ _ := ⟨[], []⟩
  scryptParams _ := false
  decryptKey _ _ := none
  pfx _ := none
  contentInfos _ := none
  safeBags _ := none
  decodeOctets _ := none
  decodeEncryptedData _ := none
  decodeEncryptedKey _ := none
  decodeCertBag _ := none
  anyDer _ := none
  encryptionScheme _ := none
  decrypt _ _ _ := none
  digest _ _ := []
  hmacVerify _ _ _ _ := false

theorem testCrates_documentedRsa : DocumentedRsa testCrates where
  encoder key der p q hprimes hder := by
    have htest : testRsaDer key = some der := hder
    rw [testRsaDer, hprimes] at htest
    obtain ⟨c, hc, rfl⟩ := Option.map_eq_some_iff.mp htest
    exact ⟨c, hc, rfl⟩
  crtCoefficient der key p q c _ hprimes hc := by
    have htest : testCrtCoefficient key = some c := hc
    rw [testCrtCoefficient, hprimes] at htest
    have hinverse := List.find?_some htest
    exact ⟨List.mem_range.mp (List.mem_of_find?_eq_some htest), by simpa using hinverse⟩

end Fixture

/-- An Ed25519 key with its public key beside it. -/
theorem parsePrivateKey_bound_ed25519 :
    parsePrivateKey Attestation.Fixture.testBase64 Fixture.testCrates Fixture.edDer none =
        .ok ⟨.ed25519, .ec Fixture.edSeed⟩ ∧
      ∃ encoding, FileHolds Attestation.Fixture.testBase64 Fixture.testCrates Fixture.edDer none encoding ∧
        Bound Fixture.testCrates encoding ⟨.ed25519, .ec Fixture.edSeed⟩ := by
  have hparse : parsePrivateKey Attestation.Fixture.testBase64 Fixture.testCrates Fixture.edDer none =
      .ok ⟨.ed25519, .ec Fixture.edSeed⟩ := by
    decide
  exact ⟨hparse, parsePrivateKey_bound _ Fixture.testCrates_documentedRsa hparse⟩

end Keys
