import Ckman.Der
import Ckman.PrivateKeyFile

/-!
# Seed formats

The encodings of a seed in the private key field of PKCS#8, for Curve25519 and
for the post-quantum algorithms. `from_seed_oid` reads exactly these.
-/
namespace Keys

open Host
open Pem (KeyError)
open Piv (Algorithm)
open X509 (derLengthLimit)

variable {Secret Point : Type} (crates : Pkcs12.Crates Secret Point)

/-- Documented behaviour of the DER decoders: they read one element that is not too long, and
nothing behind it. -/
structure DocumentedDer : Prop where
  octetString : ∀ bytes contents, crates.octetString bytes = some contents ↔
    bytes = Der.tlv 0x04 contents ∧ bytes.length < derLengthLimit
  octets : ∀ bytes contents, crates.anyRef bytes = some ⟨Pq.octetStringTag, contents⟩ ↔
    bytes = Der.tlv 0x04 contents ∧ bytes.length < derLengthLimit
  implicit : ∀ bytes contents, crates.anyRef bytes = some ⟨Pq.implicitTag, contents⟩ ↔
    bytes = Der.tlv 0x80 contents ∧ bytes.length < derLengthLimit
  sequence : ∀ bytes contents, crates.anyRef bytes = some ⟨Pq.sequenceTag, contents⟩ ↔
    bytes = Der.tlv 0x30 contents ∧ bytes.length < derLengthLimit
  both : ∀ bytes seed expanded, crates.both bytes = some ⟨seed, expanded⟩ ↔
    bytes = Der.tlv 0x30 (Der.tlv 0x04 seed ++ Der.tlv 0x04 expanded) ∧ bytes.length < derLengthLimit

/-- Documented behaviour of the key generation: expanded keys have the width of the algorithm. -/
structure DocumentedKeygen : Prop where
  mlDsa65 : ∀ seed : Bytes, seed.length = 32 → (crates.mlDsa65 seed).expanded.length = 4032
  mlKem768 : ∀ d z : Bytes, d.length = 32 → z.length = 32 →
    (crates.mlKem768 d z).expanded.length = 2400

def IsPostQuantum (algorithm : Algorithm) : Prop := algorithm = .mlDsa65 ∨ algorithm = .mlKem768

def encodeBoth (seed expanded : Bytes) : Bytes :=
  Der.tlv 0x30 (Der.tlv 0x04 seed ++ Der.tlv 0x04 expanded)

/-- The permitted encodings of a seed: raw, in an OCTET STRING, under the tag `[0]`, or beside
the expanded key that it derives. -/
inductive SeedEncoding (algorithm : Algorithm) (seed : Bytes) : Bytes → Prop
  | raw : SeedEncoding algorithm seed seed
  | octets : SeedEncoding algorithm seed (Der.tlv 0x04 seed)
  | implicit : IsPostQuantum algorithm → SeedEncoding algorithm seed (Der.tlv 0x80 seed)
  | both {pub expanded : Bytes} : Derives crates algorithm seed pub (some expanded) →
      SeedEncoding algorithm seed (encodeBoth seed expanded)

/-- An outer public key, if there is one, is the one that the seed derives. -/
def PublicMatches (algorithm : Algorithm) (seed : Bytes) (outer : Option Bytes) : Prop :=
  ∀ supplied ∈ outer, ∃ expanded, Derives crates algorithm seed supplied expanded

/-- The seeds of this width are read from their encodings and from nothing else. -/
structure ImportsSeeds (oid : String) (algorithm : Algorithm) (width : Nat) : Prop where
  encoded : ∀ seed privateKey outer, seed.length = width →
    SeedEncoding crates algorithm seed privateKey → PublicMatches crates algorithm seed outer →
    fromSeedOid crates.toCrates oid privateKey outer = .ok ⟨algorithm, .ec seed⟩
  /-- The expanded key beside a seed is no other than the derived one. -/
  mismatch : ∀ seed expanded outer, seed.length = width →
    (∀ pub, ¬ Derives crates algorithm seed pub (some expanded)) →
    fromSeedOid crates.toCrates oid (encodeBoth seed expanded) outer = .error .encoding
  expandedOnly : ∀ expanded outer, Pq.widths algorithm = some (width, expanded.length) →
    fromSeedOid crates.toCrates oid (Der.tlv 0x04 expanded) outer = .error .unsupported
  other : ∀ privateKey outer,
    (∀ seed, seed.length = width → ¬ SeedEncoding crates algorithm seed privateKey) →
    (∀ expanded, Pq.widths algorithm = some (width, expanded.length) →
      privateKey ≠ Der.tlv 0x04 expanded) →
    fromSeedOid crates.toCrates oid privateKey outer = .error .encoding
  /-- Whatever is read is the seed of an encoding, and an outer public key is its own. -/
  sound : ∀ privateKey outer key, fromSeedOid crates.toCrates oid privateKey outer = .ok key →
    ∃ seed, key = ⟨algorithm, .ec seed⟩ ∧ seed.length = width ∧
      SeedEncoding crates algorithm seed privateKey ∧ PublicMatches crates algorithm seed outer

variable {crates}

section Kinds

variable {oid : String} {algorithm : Algorithm} {width : Nat} {privateKey seed : Bytes}
  {outer : Option Bytes}

theorem checkSeedPublic_postQuantum (hpq : IsPostQuantum algorithm) :
    checkSeedPublic crates.toCrates algorithm seed outer = .ok () := by
  rw [checkSeedPublic.eq_def, if_neg]
  · rfl
  · rcases hpq with rfl | rfl <;> decide

/-- The outer public key of a post-quantum seed is checked with the seed. -/
theorem fromSeedOid_postQuantum (hoid : seedAlgorithm oid = some (algorithm, width))
    (hpq : IsPostQuantum algorithm) :
    fromSeedOid crates.toCrates oid privateKey outer = (do
      let seed ← Pq.seed crates.toCrates algorithm privateKey outer
      refuse (seed.length ≠ width) .encoding
      pure ⟨algorithm, .ec seed⟩) := by
  simp only [fromSeedOid, hoid, okOr, Except.ok_bind, checkSeedPublic_postQuantum hpq]
  exact congrArg (· >>= _) (if_pos hpq)

theorem fromSeedOid_curve25519 (hoid : seedAlgorithm oid = some (algorithm, width))
    (hpq : ¬ IsPostQuantum algorithm) :
    width = 32 ∧ fromSeedOid crates.toCrates oid privateKey outer = (do
      let seed ← curve25519Seed crates.toCrates privateKey 32
      refuse (seed.length ≠ 32) .encoding
      checkSeedPublic crates.toCrates algorithm seed outer
      pure ⟨algorithm, .ec seed⟩) := by
  obtain ⟨-, rfl⟩ := (seedAlgorithm_eq_some hoid).resolve_left hpq
  simp only [fromSeedOid, hoid, okOr, Except.ok_bind]
  exact ⟨trivial, congrArg (· >>= _) (if_neg hpq)⟩

end Kinds

section Sound

variable {oid : String} {algorithm : Algorithm} {width : Nat} {privateKey seed : Bytes}
  {outer : Option Bytes}

/-- A seed derives one public key and one expanded key. -/
theorem Derives.unique {pub pub' : Bytes} {expanded expanded' : Option Bytes}
    (h : Derives crates algorithm seed pub expanded)
    (h' : Derives crates algorithm seed pub' expanded') : pub = pub' ∧ expanded = expanded' := by
  cases h with
  | ed25519 _ =>
    cases h'
    exact ⟨rfl, rfl⟩
  | x25519 _ =>
    cases h'
    exact ⟨rfl, rfl⟩
  | mlDsa65 _ =>
    cases h'
    exact ⟨rfl, rfl⟩
  | @mlKem768 d z hd hz =>
    generalize hseed : d ++ z = seed at h'
    cases h' with
    | mlKem768 hd' hz' =>
      obtain ⟨rfl, rfl⟩ := List.append_inj hseed (hd.trans hd'.symm)
      exact ⟨rfl, rfl⟩

theorem widths_of_seedAlgorithm (hoid : seedAlgorithm oid = some (algorithm, width))
    (hpq : IsPostQuantum algorithm) :
    ∃ expandedWidth, Pq.widths algorithm = some (width, expandedWidth) := by
  rw [seedAlgorithm] at hoid
  split_ifs at hoid
  · cases hoid
    rcases hpq with h | h <;> cases h
  · cases hoid
    rcases hpq with h | h <;> cases h
  · cases hoid
    exact ⟨4032, rfl⟩
  · cases hoid
    exact ⟨2400, rfl⟩

theorem SeedBound.publicMatches
    (h : SeedBound crates privateKey outer ⟨algorithm, .ec seed⟩) :
    PublicMatches crates algorithm seed outer := by
  cases h with
  | mk hform hderives hgiven houter =>
    intro supplied hsupplied
    rw [houter supplied hsupplied]
    exact ⟨_, hderives⟩

/-- A form that the decoders have read is an encoding. It is raw, or of a length that they take. -/
theorem SeedForm.encoding (hder : DocumentedDer crates) {given : Option Bytes}
    (hpq : IsPostQuantum algorithm) (h : SeedForm crates privateKey seed given)
    (hgiven : ∀ expanded ∈ given, ∃ pub, Derives crates algorithm seed pub (some expanded)) :
    SeedEncoding crates algorithm seed privateKey ∧
      (privateKey = seed ∨ privateKey.length < derLengthLimit) := by
  cases h with
  | raw => exact ⟨.raw, .inl rfl⟩
  | octets hread =>
    obtain ⟨rfl, hlimit⟩ := (hder.octetString _ _).mp hread
    exact ⟨.octets, .inr hlimit⟩
  | tagged htag hread =>
    rcases htag with rfl | rfl
    · obtain ⟨rfl, hlimit⟩ := (hder.implicit _ _).mp hread
      exact ⟨.implicit hpq, .inr hlimit⟩
    · obtain ⟨rfl, hlimit⟩ := (hder.octets _ _).mp hread
      exact ⟨.octets, .inr hlimit⟩
  | both hread =>
    obtain ⟨rfl, hlimit⟩ := (hder.both _ _ _).mp hread
    obtain ⟨pub, hderives⟩ := hgiven _ rfl
    exact ⟨.both hderives, .inr hlimit⟩

theorem curve25519Seed_eq_ok (hder : DocumentedDer crates)
    (h : curve25519Seed crates.toCrates privateKey width = .ok seed) :
    SeedEncoding crates algorithm seed privateKey ∧
      (privateKey = seed ∨ privateKey.length < derLengthLimit) := by
  rw [curve25519Seed] at h
  split_ifs at h
  · cases h
    exact ⟨.raw, .inl rfl⟩
  · obtain ⟨rfl, hlimit⟩ := (hder.octetString _ _).mp (okOr_eq_ok_iff.mp h)
    exact ⟨.octets, .inr hlimit⟩

/-- Whatever is read is the seed of an encoding. -/
theorem fromSeedOid_sound (hder : DocumentedDer crates)
    (hoid : seedAlgorithm oid = some (algorithm, width)) {key : ImportedKey}
    (h : fromSeedOid crates.toCrates oid privateKey outer = .ok key) :
    ∃ seed, key = ⟨algorithm, .ec seed⟩ ∧ seed.length = width ∧
      SeedEncoding crates algorithm seed privateKey ∧ PublicMatches crates algorithm seed outer ∧
      (privateKey = seed ∨ privateKey.length < derLengthLimit) := by
  obtain ⟨-, -, hbound⟩ := fromSeedOid_bound h
  by_cases hpq : IsPostQuantum algorithm
  · rw [fromSeedOid_postQuantum hoid hpq] at h
    simp only [Except.bind_eq_ok_iff, refuse_eq_ok_iff, ne_eq, not_not] at h
    obtain ⟨seed, -, ⟨⟩, hlength, hkey⟩ := h
    cases hkey
    have hmatches := hbound.publicMatches
    cases hbound with
    | mk hform hderives hgiven houter =>
      obtain ⟨hencoding, hlimit⟩ := hform.encoding hder hpq
        (fun expanded hexpanded => ⟨_, hgiven expanded hexpanded ▸ hderives⟩)
      exact ⟨seed, rfl, hlength, hencoding, hmatches, hlimit⟩
  · obtain ⟨rfl, hcurve⟩ := @fromSeedOid_curve25519 _ _ crates _ _ _ privateKey outer hoid hpq
    rw [hcurve] at h
    simp only [Except.bind_eq_ok_iff, refuse_eq_ok_iff, ne_eq, not_not] at h
    obtain ⟨seed, hseed, ⟨⟩, hlength, ⟨⟩, -, hkey⟩ := h
    cases hkey
    obtain ⟨hencoding, hlimit⟩ := curve25519Seed_eq_ok hder hseed
    exact ⟨seed, rfl, hlength, hencoding, hbound.publicMatches, hlimit⟩

end Sound

section Complete

variable {oid : String} {algorithm : Algorithm} {width expandedWidth : Nat}
  {privateKey seed expanded : Bytes} {outer : Option Bytes}

theorem lt_length_encodeBoth : seed.length < (encodeBoth seed expanded).length := by
  have hseed := (Der.length_tlv 0x04 seed).1
  have houter := (Der.length_tlv 0x30 (Der.tlv 0x04 seed ++ Der.tlv 0x04 expanded)).1
  rw [List.length_append] at houter
  rw [encodeBoth]
  omega

theorem length_encodeBoth_le :
    (encodeBoth seed expanded).length ≤ 4 * seed.length + 4 * expanded.length + 10 := by
  have hseed := (Der.length_tlv 0x04 seed).2
  have hexpanded := (Der.length_tlv 0x04 expanded).2
  have houter := (Der.length_tlv 0x30 (Der.tlv 0x04 seed ++ Der.tlv 0x04 expanded)).2
  rw [List.length_append] at houter
  rw [encodeBoth]
  omega

theorem tlv_lt_limit {tag : UInt8} (hseed : seed.length ≤ 8192) :
    (Der.tlv tag seed).length < derLengthLimit := by
  have hlen := (Der.length_tlv tag seed).2
  rw [derLengthLimit]
  omega

/-- The branches on the tag of an element. -/
theorem encodedSeed_eq {tag : X509.Tag} {contents : Bytes}
    (hread : crates.anyRef privateKey = some ⟨tag, contents⟩) :
    Pq.encodedSeed crates.toCrates privateKey width expandedWidth =
      if tag = Pq.implicitTag then .ok (contents, none)
      else if tag = Pq.sequenceTag then do
        let both ← okOr (crates.both privateKey) .encoding
        refuse (both.expandedKey.length ≠ expandedWidth) .encoding
        pure (both.seed, some both.expandedKey)
      else if tag = Pq.octetStringTag ∧ contents.length = width then .ok (contents, none)
      else if tag = Pq.octetStringTag ∧ contents.length = expandedWidth then .error .unsupported
      else .error .encoding := by
  rw [Pq.encodedSeed, hread]
  rfl

theorem encodedSeed_octets (hder : DocumentedDer crates) (hseed : seed.length = width)
    (hwidth : width ≤ 8192) :
    Pq.encodedSeed crates.toCrates (Der.tlv 0x04 seed) width expandedWidth = .ok (seed, none) := by
  have hread := (hder.octets _ seed).mpr ⟨rfl, tlv_lt_limit (by omega)⟩
  rw [encodedSeed_eq hread, if_neg (by decide), if_neg (by decide), if_pos ⟨rfl, hseed⟩]

theorem encodedSeed_implicit (hder : DocumentedDer crates) (hseed : seed.length = width)
    (hwidth : width ≤ 8192) :
    Pq.encodedSeed crates.toCrates (Der.tlv 0x80 seed) width expandedWidth = .ok (seed, none) := by
  have hread := (hder.implicit _ seed).mpr ⟨rfl, tlv_lt_limit (by omega)⟩
  rw [encodedSeed_eq hread, if_pos rfl]

theorem encodedSeed_both (hder : DocumentedDer crates) (hexpanded : expanded.length = expandedWidth)
    (hlimit : (encodeBoth seed expanded).length < derLengthLimit) :
    Pq.encodedSeed crates.toCrates (encodeBoth seed expanded) width expandedWidth =
      .ok (seed, some expanded) := by
  have hread : crates.anyRef (encodeBoth seed expanded) =
      some ⟨Pq.sequenceTag, Der.tlv 0x04 seed ++ Der.tlv 0x04 expanded⟩ :=
    (hder.sequence _ _).mpr ⟨rfl, hlimit⟩
  have hboth : crates.both (encodeBoth seed expanded) = some ⟨seed, expanded⟩ :=
    (hder.both _ _ _).mpr ⟨rfl, hlimit⟩
  have hwidth : refuse (expanded.length ≠ expandedWidth) KeyError.encoding = .ok () :=
    refuse_eq_ok_iff.mpr (not_not.mpr hexpanded)
  rw [encodedSeed_eq hread, if_neg (by decide), if_pos rfl, hboth]
  simp only [okOr, Except.ok_bind, hwidth]
  rfl

theorem Derives.length_expanded (hkeygen : DocumentedKeygen crates) {pub : Bytes}
    (h : Derives crates algorithm seed pub (some expanded))
    (hwidths : Pq.widths algorithm = some (width, expandedWidth)) :
    expanded.length = expandedWidth := by
  cases h with
  | mlDsa65 hseed =>
    cases hwidths
    exact hkeygen.mlDsa65 seed hseed
  | mlKem768 hd hz =>
    cases hwidths
    exact hkeygen.mlKem768 _ _ hd hz

theorem widths_le (hwidths : Pq.widths algorithm = some (width, expandedWidth)) :
    0 < width ∧ width ≤ 64 ∧ 64 < expandedWidth ∧ expandedWidth ≤ 4032 := by
  cases algorithm with
  | mlDsa65 =>
    cases hwidths
    decide
  | mlKem768 =>
    cases hwidths
    decide
  | _ => cases hwidths

/-- The form that is read from an encoding. -/
theorem form_of_encoding (hder : DocumentedDer crates) (hkeygen : DocumentedKeygen crates)
    (hwidths : Pq.widths algorithm = some (width, expandedWidth)) (hseed : seed.length = width)
    (h : SeedEncoding crates algorithm seed privateKey) :
    ∃ given, (if privateKey.length = width then .ok (privateKey, none)
        else Pq.encodedSeed crates.toCrates privateKey width expandedWidth) = .ok (seed, given) ∧
      ∀ expanded ∈ given, ∃ pub, Derives crates algorithm seed pub (some expanded) := by
  obtain ⟨-, hwidth, -, hexpandedWidth⟩ := widths_le hwidths
  cases h with
  | raw => exact ⟨none, if_pos hseed, forall_mem_none⟩
  | octets =>
    have hlonger := (Der.length_tlv 0x04 seed).1
    refine ⟨none, ?_, forall_mem_none⟩
    rw [if_neg (by omega)]
    exact encodedSeed_octets hder hseed (by omega)
  | implicit _ =>
    have hlonger := (Der.length_tlv 0x80 seed).1
    refine ⟨none, ?_, forall_mem_none⟩
    rw [if_neg (by omega)]
    exact encodedSeed_implicit hder hseed (by omega)
  | @both pub expanded hderives =>
    have hexpanded := hderives.length_expanded hkeygen hwidths
    have hlonger := @lt_length_encodeBoth seed expanded
    have hshorter := @length_encodeBoth_le seed expanded
    refine ⟨some expanded, ?_, ?_⟩
    · rw [if_neg (by omega)]
      refine encodedSeed_both hder hexpanded ?_
      rw [derLengthLimit]
      omega
    · rintro key ⟨⟩
      exact ⟨pub, hderives⟩

theorem seed_of_encoding (hder : DocumentedDer crates) (hkeygen : DocumentedKeygen crates)
    (hwidths : Pq.widths algorithm = some (width, expandedWidth)) (hseed : seed.length = width)
    (h : SeedEncoding crates algorithm seed privateKey)
    (houter : PublicMatches crates algorithm seed outer) :
    Pq.seed crates.toCrates algorithm privateKey outer = .ok seed := by
  obtain ⟨given, hform, hgiven⟩ := form_of_encoding hder hkeygen hwidths hseed h
  obtain ⟨derived, hderive, hderives⟩ :
      ∃ derived, Pq.derive crates.toCrates algorithm seed = .ok derived ∧
        Derives crates algorithm seed derived.pub (some derived.expanded) :=
    derive_eq hwidths hseed
  have hchecked : Pq.checkDerived crates.toCrates algorithm seed given outer = .ok () := by
    refine (checkDerived_eq_ok_iff hderive).mpr ⟨fun key hkey => ?_, fun key hkey => ?_⟩
    · obtain ⟨pub, hpub⟩ := hgiven key hkey
      exact Option.some.inj (hpub.unique hderives).2
    · obtain ⟨expanded, hexpanded⟩ := houter key hkey
      exact (hexpanded.unique hderives).1
  rw [Pq.seed, hwidths]
  simp only [hform, Except.ok_bind, refuse, hseed, ne_eq, not_true_eq_false, if_false, hchecked]
  rfl

theorem curve25519Seed_of_encoding (hder : DocumentedDer crates) (hpq : ¬ IsPostQuantum algorithm)
    (hseed : seed.length = 32) (h : SeedEncoding crates algorithm seed privateKey) :
    curve25519Seed crates.toCrates privateKey 32 = .ok seed := by
  rw [curve25519Seed]
  cases h with
  | raw => exact if_pos hseed
  | octets =>
    have hlonger := (Der.length_tlv 0x04 seed).1
    rw [if_neg (by omega), (hder.octetString _ seed).mpr ⟨rfl, tlv_lt_limit (by omega)⟩]
    rfl
  | implicit h => exact absurd h hpq
  | both hderives =>
    cases hderives with
    | mlDsa65 _ => exact absurd (.inl rfl) hpq
    | mlKem768 _ _ => exact absurd (.inr rfl) hpq

/-- The public key of a Curve25519 seed is the one that is compared. -/
theorem checkSeedPublic_of_matches (hseed : seed.length = 32)
    (houter : PublicMatches crates algorithm seed outer) :
    checkSeedPublic crates.toCrates algorithm seed outer = .ok () := by
  rw [checkSeedPublic.eq_def]
  split_ifs with hcurve
  · cases outer with
    | none => rfl
    | some supplied =>
      obtain ⟨pub, hpub, hkey⟩ := @seedPublicKey_eq _ _ crates _ _ hcurve hseed
      obtain ⟨expanded, hderives⟩ := houter supplied rfl
      obtain rfl := (hderives.unique hpub).1
      simp only [hkey, Except.ok_bind, refuse, ne_eq, not_true_eq_false, if_false]
  · rfl

/-- Every encoding of a seed is read as the seed. -/
theorem fromSeedOid_complete (hder : DocumentedDer crates) (hkeygen : DocumentedKeygen crates)
    (hoid : seedAlgorithm oid = some (algorithm, width)) (hseed : seed.length = width)
    (h : SeedEncoding crates algorithm seed privateKey)
    (houter : PublicMatches crates algorithm seed outer) :
    fromSeedOid crates.toCrates oid privateKey outer = .ok ⟨algorithm, .ec seed⟩ := by
  have hrefuse : refuse (seed.length ≠ width) KeyError.encoding = .ok () :=
    refuse_eq_ok_iff.mpr (not_not.mpr hseed)
  by_cases hpq : IsPostQuantum algorithm
  · obtain ⟨expandedWidth, hwidths⟩ := widths_of_seedAlgorithm hoid hpq
    rw [fromSeedOid_postQuantum hoid hpq, seed_of_encoding hder hkeygen hwidths hseed h houter]
    simp only [Except.ok_bind, hrefuse]
    rfl
  · obtain ⟨rfl, hcurve⟩ := @fromSeedOid_curve25519 _ _ crates _ _ _ privateKey outer hoid hpq
    rw [hcurve, curve25519Seed_of_encoding hder hpq hseed h]
    simp only [Except.ok_bind, hrefuse, checkSeedPublic_of_matches hseed houter]
    rfl

end Complete

section Refused

variable {oid : String} {algorithm : Algorithm} {width expandedWidth : Nat}
  {privateKey seed expanded : Bytes} {outer : Option Bytes} {e : KeyError}

/-- An OCTET STRING with an expanded key is the only input that is told to be unsupported. -/
theorem encodedSeed_error
    (h : Pq.encodedSeed crates.toCrates privateKey width expandedWidth = .error e) :
    e = .encoding ∨ e = .unsupported ∧ ∃ expanded,
      crates.anyRef privateKey = some ⟨Pq.octetStringTag, expanded⟩ ∧
        expanded.length = expandedWidth := by
  cases hread : crates.anyRef privateKey with
  | none =>
    rw [Pq.encodedSeed, hread] at h
    cases h
    exact .inl rfl
  | some value =>
    obtain ⟨tag, contents⟩ := value
    rw [encodedSeed_eq hread] at h
    split_ifs at h with himplicit hsequence hoctets hexpanded
    · simp only [Except.bind_eq_error_iff, okOr_eq_error_iff, refuse_eq_error_iff] at h
      rcases h with ⟨-, rfl⟩ | ⟨both, -, ⟨-, rfl⟩ | ⟨_, -, h⟩⟩
      · exact .inl rfl
      · exact .inl rfl
      · cases h
    · cases h
      obtain ⟨rfl, hlength⟩ := hexpanded
      exact .inr ⟨rfl, contents, rfl, hlength⟩
    · cases h
      exact .inl rfl

theorem checkDerived_error {given : Option Bytes} {derived : Derived}
    (hderive : Pq.derive crates.toCrates algorithm seed = .ok derived)
    (h : Pq.checkDerived crates.toCrates algorithm seed given outer = .error e) :
    e = .encoding := by
  rw [Pq.checkDerived] at h
  split_ifs at h
  · rw [hderive, Except.ok_bind, refuse_eq_error_iff] at h
    exact h.2.symm
  · cases h

theorem seed_error (hwidths : Pq.widths algorithm = some (width, expandedWidth))
    (h : Pq.seed crates.toCrates algorithm privateKey outer = .error e) :
    e = .encoding ∨ e = .unsupported ∧ ∃ expanded,
      crates.anyRef privateKey = some ⟨Pq.octetStringTag, expanded⟩ ∧
        expanded.length = expandedWidth := by
  rw [Pq.seed, hwidths] at h
  simp only [Except.bind_eq_error_iff, refuse_eq_error_iff, ne_eq] at h
  rcases h with h | ⟨⟨seed, given⟩, -, ⟨-, rfl⟩ | ⟨⟨⟩, hlength, h⟩⟩
  · split_ifs at h
    exact encodedSeed_error h
  · exact .inl rfl
  · obtain ⟨derived, hderive, -⟩ :
        ∃ derived, Pq.derive crates.toCrates algorithm seed = .ok derived ∧
          Derives crates algorithm seed derived.pub (some derived.expanded) :=
      derive_eq hwidths (not_not.mp (refuse_eq_ok_iff.mp hlength))
    rcases h with h | ⟨_, -, h⟩
    · exact .inl (checkDerived_error hderive h)
    · cases h

theorem checkSeedPublic_error (hseed : seed.length = 32)
    (h : checkSeedPublic crates.toCrates algorithm seed outer = .error e) : e = .encoding := by
  rw [checkSeedPublic.eq_def] at h
  split_ifs at h with hcurve
  · cases outer with
    | none => cases h
    | some supplied =>
      obtain ⟨pub, -, hkey⟩ := @seedPublicKey_eq _ _ crates _ _ hcurve hseed
      simp only [hkey, Except.ok_bind, refuse_eq_error_iff] at h
      exact h.2.symm
  · cases h

/-- What the errors are. -/
theorem fromSeedOid_error (hder : DocumentedDer crates)
    (hoid : seedAlgorithm oid = some (algorithm, width))
    (h : fromSeedOid crates.toCrates oid privateKey outer = .error e) :
    e = .encoding ∨ e = .unsupported ∧ ∃ expanded, privateKey = Der.tlv 0x04 expanded ∧
      Pq.widths algorithm = some (width, expanded.length) := by
  by_cases hpq : IsPostQuantum algorithm
  · obtain ⟨expandedWidth, hwidths⟩ := widths_of_seedAlgorithm hoid hpq
    rw [fromSeedOid_postQuantum hoid hpq] at h
    simp only [Except.bind_eq_error_iff, refuse_eq_error_iff] at h
    rcases h with h | ⟨seed, -, ⟨-, rfl⟩ | ⟨_, -, h⟩⟩
    · rcases seed_error hwidths h with hencoding | ⟨hunsupported, expanded, hread, rfl⟩
      · exact .inl hencoding
      · exact .inr ⟨hunsupported, expanded, ((hder.octets _ _).mp hread).1, hwidths⟩
    · exact .inl rfl
    · cases h
  · obtain ⟨rfl, hcurve⟩ := @fromSeedOid_curve25519 _ _ crates _ _ _ privateKey outer hoid hpq
    rw [hcurve] at h
    simp only [curve25519Seed, Except.bind_eq_error_iff, refuse_eq_error_iff, refuse_eq_ok_iff, ne_eq,
      not_not] at h
    rcases h with h | ⟨seed, -, ⟨-, rfl⟩ | ⟨_, hseed, h | ⟨_, -, h⟩⟩⟩
    · split_ifs at h
      exact .inl (okOr_eq_error_iff.mp h).2.symm
    · exact .inl rfl
    · exact .inl (checkSeedPublic_error hseed h)
    · cases h

theorem fromSeedOid_expandedOnly (hder : DocumentedDer crates)
    (hoid : seedAlgorithm oid = some (algorithm, width))
    (hwidths : Pq.widths algorithm = some (width, expanded.length)) :
    fromSeedOid crates.toCrates oid (Der.tlv 0x04 expanded) outer = .error .unsupported := by
  obtain ⟨-, hwidth, hlonger, hexpanded⟩ := widths_le hwidths
  have hlength := (Der.length_tlv 0x04 expanded).1
  have hpq : IsPostQuantum algorithm := by
    cases algorithm with
    | mlDsa65 => exact .inl rfl
    | mlKem768 => exact .inr rfl
    | _ => cases hwidths
  have hread := (hder.octets _ expanded).mpr ⟨rfl, tlv_lt_limit (by omega)⟩
  have hform : Pq.encodedSeed crates.toCrates (Der.tlv 0x04 expanded) width expanded.length =
      .error .unsupported := by
    rw [encodedSeed_eq hread, if_neg (by decide), if_neg (by decide), if_neg, if_pos ⟨rfl, rfl⟩]
    rintro ⟨-, h⟩
    omega
  have hseed : Pq.seed crates.toCrates algorithm (Der.tlv 0x04 expanded) outer =
      .error .unsupported := by
    rw [Pq.seed, hwidths]
    simp only [hform, if_neg (show ¬ (Der.tlv 0x04 expanded).length = width by omega),
      Except.error_bind]
  rw [fromSeedOid_postQuantum hoid hpq, hseed, Except.error_bind]

/-- A seed beside an expanded key is an encoding of that seed only, with what it derives. -/
theorem fromSeedOid_mismatch (hder : DocumentedDer crates)
    (hoid : seedAlgorithm oid = some (algorithm, width)) (hseed : seed.length = width)
    (hother : ∀ pub, ¬ Derives crates algorithm seed pub (some expanded)) :
    fromSeedOid crates.toCrates oid (encodeBoth seed expanded) outer = .error .encoding := by
  have hlonger := @lt_length_encodeBoth seed expanded
  have htag : ∀ {tag : UInt8} {contents : Bytes}, tag ≠ 0x30 →
      encodeBoth seed expanded ≠ Der.tlv tag contents := by
    intro tag contents htag h
    exact htag (List.cons.inj h).1.symm
  cases hresult : fromSeedOid crates.toCrates oid (encodeBoth seed expanded) outer with
  | ok key =>
    obtain ⟨seed', -, hseed', hencoding, -, hlimit⟩ := fromSeedOid_sound hder hoid hresult
    exfalso
    replace hlimit : (encodeBoth seed expanded).length < derLengthLimit := by
      rcases hlimit with h | h
      · rw [h] at hlonger
        omega
      · exact h
    generalize hbytes : encodeBoth seed expanded = privateKey at hencoding
    cases hencoding with
    | raw => rw [hbytes] at hlonger; omega
    | octets => exact htag (by decide) hbytes
    | implicit _ => exact htag (by decide) hbytes
    | both hderives =>
      have hread := (hder.both _ _ _).mpr ⟨rfl, hlimit⟩
      have hread' := (hder.both _ _ _).mpr ⟨hbytes, hlimit⟩
      obtain ⟨rfl, rfl⟩ := Both.mk.inj (Option.some.inj (hread.symm.trans hread'))
      exact hother _ hderives
  | error e =>
    rcases fromSeedOid_error hder hoid hresult with rfl | ⟨-, contents, hbytes, -⟩
    · rfl
    · exact absurd hbytes (htag (by decide))

end Refused

/-- The four seed formats: every permitted encoding is read as its seed, and nothing else is. -/
theorem fromSeedOid_imports (hder : DocumentedDer crates) (hkeygen : DocumentedKeygen crates)
    {oid : String} {algorithm : Algorithm} {width : Nat}
    (hoid : seedAlgorithm oid = some (algorithm, width)) :
    ImportsSeeds crates oid algorithm width where
  encoded seed privateKey outer hseed hencoding houter :=
    fromSeedOid_complete hder hkeygen hoid hseed hencoding houter
  mismatch seed expanded outer hseed hother := fromSeedOid_mismatch hder hoid hseed hother
  expandedOnly expanded outer hwidths := fromSeedOid_expandedOnly hder hoid hwidths
  other privateKey outer hnone hexpanded := by
    cases hresult : fromSeedOid crates.toCrates oid privateKey outer with
    | ok key =>
      obtain ⟨seed, -, hseed, hencoding, -⟩ := fromSeedOid_sound hder hoid hresult
      exact absurd hencoding (hnone seed hseed)
    | error e =>
      rcases fromSeedOid_error hder hoid hresult with rfl | ⟨-, expanded, hbytes, hwidths⟩
      · rfl
      · exact absurd hbytes (hexpanded expanded hwidths)
  sound privateKey outer key h := by
    obtain ⟨seed, hkey, hseed, hencoding, houter, -⟩ := fromSeedOid_sound hder hoid h
    exact ⟨seed, hkey, hseed, hencoding, houter⟩

namespace Fixture

def limited {α : Type} (decode : Bytes → Option α) (bytes : Bytes) : Option α :=
  if bytes.length < derLengthLimit then decode bytes else none

def tagOf (tag : UInt8) : X509.Tag :=
  if tag = 0x0c then .utf8String
  else if tag = 0x13 then .printableString
  else if tag = 0x16 then .ia5String
  else .other tag.toNat

def readAny (bytes : Bytes) : Option X509.Any :=
  match Der.read bytes with
  | some (tag, contents, []) => some ⟨tagOf tag, contents⟩
  | _ => none

def readBoth (bytes : Bytes) : Option Both := do
  let contents ← Der.element 0x30 bytes
  let (tag, seed, rest) ← Der.read contents
  let expanded ← Der.element 0x04 rest
  if tag = 0x04 then some ⟨seed, expanded⟩ else none

/-- The decoders of seeds beside the other crates on one Ed25519 key. -/
def seedCrates : Pkcs12.Crates Unit Unit :=
  { testCrates with
    octetString := limited (Der.element 0x04)
    anyRef := limited readAny
    both := limited readBoth
    mlDsa65 := fun _ => ⟨[], List.replicate 4032 0⟩
    mlKem768 := fun _ _ => ⟨[], List.replicate 2400 0⟩ }

theorem limited_eq_some_iff {α : Type} {decode : Bytes → Option α} {bytes : Bytes} {a : α} :
    limited decode bytes = some a ↔ bytes.length < derLengthLimit ∧ decode bytes = some a := by
  rw [limited, Option.ite_none_right_eq_some]

theorem length_lt {n : Nat} (h : n < derLengthLimit) : n < 256 ^ 127 :=
  h.trans (by rw [derLengthLimit]; decide)

theorem tagOf_inj {tag tag' : UInt8} (h : tagOf tag = .other tag'.toNat) : tag = tag' := by
  rw [tagOf] at h
  split_ifs at h
  exact UInt8.toNat_inj.mp (X509.Tag.other.inj h)

theorem element_limited {tag : UInt8} {bytes contents : Bytes} :
    limited (Der.element tag) bytes = some contents ↔
      bytes = Der.tlv tag contents ∧ bytes.length < derLengthLimit := by
  rw [limited_eq_some_iff, Der.element_eq_some_iff]
  constructor
  · rintro ⟨hlimit, hbytes, -⟩
    exact ⟨hbytes, hlimit⟩
  · rintro ⟨rfl, hlimit⟩
    have hlonger := (Der.length_tlv tag contents).1
    exact ⟨hlimit, rfl, length_lt (by omega)⟩

theorem readAny_limited {tag : UInt8} (htag : tagOf tag = .other tag.toNat)
    {bytes contents : Bytes} :
    limited readAny bytes = some ⟨.other tag.toNat, contents⟩ ↔
      bytes = Der.tlv tag contents ∧ bytes.length < derLengthLimit := by
  rw [← element_limited, limited_eq_some_iff, limited_eq_some_iff, readAny]
  refine and_congr_right fun _ => ?_
  split
  · rename_i found contents' hread
    have helement : Der.element tag bytes = if found = tag then some contents' else none := by
      rw [Der.element, hread]
    rw [helement]
    constructor
    · intro h
      obtain ⟨hfound, rfl⟩ := X509.Any.mk.inj (Option.some.inj h)
      rw [if_pos (tagOf_inj hfound)]
    · intro h
      split_ifs at h with hfound
      cases h
      rw [hfound, htag]
  · rename_i hread
    refine iff_of_false (fun h => by cases h) fun h => ?_
    obtain ⟨rfl, hlen⟩ := Der.element_eq_some_iff.mp h
    have hwhole := @Der.read_tlv_append tag contents [] hlen
    rw [List.append_nil] at hwhole
    exact hread tag contents hwhole

theorem readBoth_limited {bytes seed expanded : Bytes} :
    limited readBoth bytes = some ⟨seed, expanded⟩ ↔
      bytes = encodeBoth seed expanded ∧ bytes.length < derLengthLimit := by
  rw [limited_eq_some_iff]
  constructor
  · rintro ⟨hlimit, h⟩
    refine ⟨?_, hlimit⟩
    simp only [readBoth, Option.bind_eq_bind, Option.bind_eq_some_iff] at h
    obtain ⟨contents, hcontents, ⟨tag, seed', rest⟩, hread, expanded', hexpanded, h⟩ := h
    split_ifs at h with htag
    cases h
    simp only at htag hexpanded
    rw [(Der.element_eq_some_iff.mp hcontents).1, (Der.read_eq_some_iff.mp hread).1,
      (Der.element_eq_some_iff.mp hexpanded).1, htag, encodeBoth]
  · rintro ⟨rfl, hlimit⟩
    have hseed := (Der.length_tlv 0x04 seed).1
    have hexpanded := (Der.length_tlv 0x04 expanded).1
    have houter := (Der.length_tlv 0x30 (Der.tlv 0x04 seed ++ Der.tlv 0x04 expanded)).1
    rw [List.length_append] at houter
    rw [encodeBoth] at hlimit
    refine ⟨hlimit, ?_⟩
    have hcontents : Der.element 0x30 (encodeBoth seed expanded) =
        some (Der.tlv 0x04 seed ++ Der.tlv 0x04 expanded) :=
      Der.element_eq_some_iff.mpr ⟨rfl, length_lt (by rw [List.length_append]; omega)⟩
    have hread : Der.element 0x04 (Der.tlv 0x04 expanded) = some expanded :=
      Der.element_eq_some_iff.mpr ⟨rfl, length_lt (by omega)⟩
    rw [readBoth, hcontents]
    simp only [Option.bind_eq_bind, Option.bind_some,
      @Der.read_tlv_append 0x04 seed (Der.tlv 0x04 expanded) (length_lt (by omega)), hread, if_true]

theorem seedCrates_der : DocumentedDer seedCrates where
  octetString _ _ := element_limited
  octets _ _ := @readAny_limited 0x04 (by decide) _ _
  implicit _ _ := @readAny_limited 0x80 (by decide) _ _
  sequence _ _ := @readAny_limited 0x30 (by decide) _ _
  both _ _ _ := readBoth_limited

theorem seedCrates_keygen : DocumentedKeygen seedCrates where
  mlDsa65 _ _ := List.length_replicate
  mlKem768 _ _ _ _ := List.length_replicate

end Fixture

/-- A nested Ed25519 seed with its public key outside. -/
theorem fromSeedOid_imports_ed25519 :
    fromSeedOid Fixture.seedCrates.toCrates "1.3.101.112" (Der.tlv 0x04 Fixture.edSeed)
      (some Fixture.edPublic) = .ok ⟨.ed25519, .ec Fixture.edSeed⟩ := by
  have hpublic : Fixture.edPublic =
      Fixture.seedCrates.edwardsBase ((Fixture.seedCrates.sha512 Fixture.edSeed).take 32) := by
    decide
  have houter : PublicMatches Fixture.seedCrates .ed25519 Fixture.edSeed (some Fixture.edPublic) := by
    rintro supplied ⟨⟩
    exact ⟨none, hpublic ▸ .ed25519 (by decide)⟩
  have himports := fromSeedOid_imports Fixture.seedCrates_der Fixture.seedCrates_keygen
    (show seedAlgorithm "1.3.101.112" = some (.ed25519, 32) by decide)
  exact himports.encoded Fixture.edSeed (Der.tlv 0x04 Fixture.edSeed) (some Fixture.edPublic)
    (by decide) .octets houter

end Keys
