import Ckman.KeyStretching

/-!
# The bound on key stretching

`verify_mac` refuses iteration counts above the bound on password-stretching
work. The schemes of content infos and shrouded key bags are decrypted with
whatever iteration count they ask for.
-/
namespace Pkcs12

def WithinBound (scheme : Keys.EncryptionScheme) : Prop := ∀ n ∈ schemeIterations scheme, n ≤ maxIterations

/-- The key derivation of a call, if it is iterated, is within the bound. -/
def Call.WithinBound (q : Call) : Prop := ∀ n ∈ q.iterations, n ≤ maxIterations

end Pkcs12

namespace Stretching

open Host Interaction
open Keys (EncryptionScheme EncryptedPrivateKeyInfo)
open Pkcs12 (Call Convertible Crates MacDigest MacData EncryptedData ContentInfo SafeBag Pfx PfxData maxIterations
  WithinBound oidData oidEncryptedData oidShroudedKeyBag isKeyBag InfoHolds Readable foldlM_collectInfo
  foldlM_collectBag_key foldlM_readable)
open Pkcs12.Calls

variable {Secret Point : Type} {crates : Crates Secret Point} {password : Option Bytes}

/-- Every key of the MAC is derived with an iteration count in the bounds. -/
theorem asks_verifyMac {macData : MacData} {authSafe : Bytes} {P : Call → Prop}
    (hquiet : ∀ q : Call, q.stretches = false → ¬ P q)
    (h : Asks crates P (verifyMac macData authSafe password)) :
    ∃ digest material n, 1 ≤ n ∧ n ≤ maxIterations ∧
      P (.macKey digest material macData.macSalt n digest.outLen) := by
  simp only [verifyMac, asks_bind, asks_orElse, asks_orThrow, false_or, result_orThrow,
    refuse_eq_ok_iff, not_or] at h
  obtain ⟨digest, -, _, hbound, h⟩ := h
  have hkey : ∀ material, Asks crates P (macVerifies digest macData
      (macData.iterations.getD 1) authSafe material) → ∃ digest material n, 1 ≤ n ∧
        n ≤ maxIterations ∧ P (.macKey digest material macData.macSalt n digest.outLen) := by
    intro material hP
    simp only [macVerifies, asks_bind, asks_macKey, asks_hmacVerify] at hP
    rcases hP with hP | ⟨key, -, hP⟩
    · exact ⟨digest, material, _, by omega, by omega, hP⟩
    · exact absurd hP (hquiet _ rfl)
  obtain h | ⟨first, -, h⟩ := h
  · exact hkey _ h
  cases first with
  | true => exact absurd h (asks_pure _)
  | false =>
    simp only [Bool.false_eq_true, if_false, asks_bind, asks_ite, asks_pure, asks_orThrow,
      ite_self, and_false, exists_false, or_false] at h
    split_ifs at h
    exact hkey _ h

section Decrypts

variable (crates) in
/-- An encrypted content info that is well formed and whose scheme passes the check. -/
def ContentsDecrypt (info : ContentInfo) (scheme : EncryptionScheme) : Prop :=
  info.contentType.dotted = oidEncryptedData ∧
    ∃ encrypted ciphertext, crates.decodeEncryptedData info.content = some encrypted ∧
      encrypted.version = 0 ∧ encrypted.content.contentType.dotted = oidData ∧
      crates.encryptionScheme encrypted.content.encryption = some scheme ∧
      Keys.checkEncryptionScheme crates.toCrates scheme = .ok () ∧
      encrypted.content.encryptedContent = some ciphertext

variable (crates) in
/-- A shrouded key bag that is well formed and whose scheme passes the check. -/
def BagDecrypts (bag : SafeBag) (scheme : EncryptionScheme) : Prop :=
  bag.bagId.dotted = oidShroudedKeyBag ∧
    ∃ encrypted, crates.decodeEncryptedKey bag.bagValue = some encrypted ∧
      encrypted.encryptionAlgorithm = scheme ∧
      Keys.checkEncryptionScheme crates.toCrates scheme = .ok ()

variable [DecidableEq Point]

variable (crates) in
/-- Something with this scheme is decrypted in a content info behind these bags, which can be read:
the contents, or the first of all key bags. -/
inductive InfoDecrypts (password : Option Bytes) (earlier : List SafeBag) (info : ContentInfo)
    (scheme : EncryptionScheme) : Prop
  | contents : Readable crates password earlier → ContentsDecrypt crates info scheme →
      InfoDecrypts password earlier info scheme
  | bag {before after : List SafeBag} {bag : SafeBag} :
      InfoHolds crates password info (before ++ bag :: after) →
      Readable crates password (earlier ++ before) →
      (∀ other ∈ earlier ++ before, isKeyBag other = false) → BagDecrypts crates bag scheme →
      InfoDecrypts password earlier info scheme

variable (crates) in
/-- Something with this scheme is decrypted: in a content info of a file whose MAC verifies, behind
content infos that can be opened. -/
def Decrypts (input : Bytes) (password : Option Bytes) (scheme : EncryptionScheme) : Prop :=
  ∃ pfx authSafe before info after lists, crates.pfx input = some pfx ∧
    (pfx.version = 3 ∧ pfx.authSafe.contentType.dotted = oidData) ∧
    crates.decodeOctets pfx.authSafe.content = some authSafe ∧
    Pkcs12.verifyMacData crates pfx.macData authSafe password = .ok () ∧
    crates.contentInfos authSafe = some (before ++ info :: after) ∧
    List.Forall₂ (InfoHolds crates password) before lists ∧
    InfoDecrypts crates password lists.flatten info scheme

end Decrypts

section Asks

/-- A property of calls that a decryption has by its scheme. -/
structure ByScheme (P : Call → Prop) (S : EncryptionScheme → Prop) : Prop where
  quiet : ∀ q : Call, q.stretches = false → ¬ P q
  scryptParams : ∀ params, Convertible params → ¬ P (.scryptParams params)
  decrypt : ∀ scheme password ciphertext, P (.decrypt scheme password ciphertext) ↔ S scheme
  decryptKey : ∀ encrypted password,
    P (.decryptKey encrypted password) ↔ S encrypted.encryptionAlgorithm

variable {P : Call → Prop} {S : EncryptionScheme → Prop}

theorem ByScheme.not_asks_check (h : ByScheme P S) (scheme : EncryptionScheme) :
    ¬ Asks crates P (checkEncryptionScheme scheme) := by
  intro hasks
  obtain ⟨params, hparams, hP⟩ := asks_checkEncryptionScheme hasks
  exact h.scryptParams params hparams hP

theorem asks_safeContents (h : ByScheme P S) {info : ContentInfo} :
    Asks crates P (safeContents info password) ↔
      ∃ scheme, S scheme ∧ ContentsDecrypt crates info scheme := by
  have hnot : oidData ≠ oidEncryptedData := by decide
  have hoctets : ∀ value, ¬ P (.octets value) := fun value => h.quiet (.octets value) rfl
  have hencryptedData : ∀ value, ¬ P (.encryptedData value) := fun value => h.quiet (.encryptedData value) rfl
  have hencryptionScheme : ∀ algorithm, ¬ P (.encryptionScheme algorithm) :=
    fun algorithm => h.quiet (.encryptionScheme algorithm) rfl
  simp only [safeContents, decryptContents, asks_ite, asks_bind, asks_orElse, asks_orThrow,
    h.not_asks_check, asks_fetch, h.decrypt, hoctets, hencryptedData, hencryptionScheme, false_or,
    result_fetch, result_orThrow, result_orElse, result_checkEncryptionScheme, okOr_eq_ok_iff, refuse_eq_ok_iff,
    not_or, not_not]
  constructor
  · intro hasks
    split_ifs at hasks with hdata hencrypted
    obtain ⟨encrypted, hdecode, _, ⟨hversion, htype⟩, scheme, hscheme, _, hcheck, ciphertext,
      hcipher, hS⟩ := hasks
    exact ⟨scheme, hS, hencrypted, encrypted, ciphertext, hdecode, hversion, htype, hscheme, hcheck,
      hcipher⟩
  · rintro ⟨scheme, hS, hencrypted, encrypted, ciphertext, hdecode, hversion, htype, hscheme, hcheck,
      hcipher⟩
    rw [if_neg (fun hdata => hnot (hdata.symm.trans hencrypted)), if_pos hencrypted]
    exact ⟨encrypted, hdecode, (), ⟨hversion, htype⟩, scheme, hscheme, (), hcheck, ciphertext,
      hcipher, hS⟩

variable [DecidableEq Point]

theorem asks_collectBag (h : ByScheme P S) {data : PfxData} {bag : SafeBag} :
    Asks crates P (collectBag crates password data bag) ↔
      data.key = none ∧ ∃ scheme, S scheme ∧ BagDecrypts crates bag scheme := by
  have hnot : Pkcs12.oidKeyBag ≠ oidShroudedKeyBag := by decide
  have hbagDer : ∀ value, ¬ P (.bagDer value) := fun value => h.quiet (.bagDer value) rfl
  have hencryptedKey : ∀ value, ¬ P (.encryptedKey value) := fun value => h.quiet (.encryptedKey value) rfl
  have hcertBag : ∀ value, ¬ P (.certBag value) := fun value => h.quiet (.certBag value) rfl
  have hoctets : ∀ value, ¬ P (.octets value) := fun value => h.quiet (.octets value) rfl
  simp only [collectBag, keyBag, certBag, shroudedKeyBag, asks_ite, asks_bind, asks_orThrow, asks_pure,
    h.not_asks_check, asks_fetch, h.decryptKey, hbagDer, hencryptedKey, hcertBag, hoctets, and_false, exists_false,
    or_false, false_or, result_fetch, result_checkEncryptionScheme, okOr_eq_ok_iff, ite_self]
  constructor
  · intro hasks
    split_ifs at hasks with hplain hshrouded
    obtain ⟨encrypted, hdecode, _, hcheck, hS⟩ := hasks
    exact ⟨hshrouded.2, _, hS, hshrouded.1, encrypted, hdecode, rfl, hcheck⟩
  · rintro ⟨hnone, scheme, hS, hshrouded, encrypted, hdecode, rfl, hcheck⟩
    rw [if_neg (fun hplain => hnot (hplain.1.symm.trans hshrouded)), if_pos ⟨hshrouded, hnone⟩]
    exact ⟨encrypted, hdecode, (), hcheck, hS⟩

theorem asks_collectInfo (h : ByScheme P S) {data : PfxData} {info : ContentInfo} :
    Asks crates P (collectInfo crates password data info) ↔
      ∃ scheme, S scheme ∧ (ContentsDecrypt crates info scheme ∨
        ∃ before bag after next, InfoHolds crates password info (before ++ bag :: after) ∧
          before.foldlM (Pkcs12.collectBag crates password) data = .ok next ∧ next.key = none ∧
            BagDecrypts crates bag scheme) := by
  have hsafeBags : ∀ contents, ¬ P (.safeBags contents) := fun contents => h.quiet (.safeBags contents) rfl
  simp only [collectInfo, collectBags, asks_bind, asks_fetch, hsafeBags, false_or, result_fetch,
    result_safeContents, okOr_eq_ok_iff, asks_safeContents h, asks_foldlM (result_collectBag password),
    asks_collectBag h]
  constructor
  · rintro (⟨scheme, hS, hinfo⟩ |
      ⟨contents, hcontents, _, hbags, before, bag, after, next, rfl, hbefore, hnone, scheme, hS, hbag⟩)
    · exact ⟨scheme, hS, .inl hinfo⟩
    · exact ⟨scheme, hS, .inr ⟨before, bag, after, next, ⟨contents, hcontents, hbags⟩, hbefore, hnone, hbag⟩⟩
  · rintro ⟨scheme, hS, hinfo | ⟨before, bag, after, next, ⟨contents, hcontents, hbags⟩, hbefore, hnone, hbag⟩⟩
    · exact .inl ⟨scheme, hS, hinfo⟩
    · exact .inr ⟨contents, hcontents, _, hbags, before, bag, after, next, rfl, hbefore, hnone, scheme, hS, hbag⟩

/-- What the loop has collected from the bags before is there if they can be read. -/
theorem infoDecrypts_iff {earlier : List SafeBag} {info : ContentInfo} {scheme : EncryptionScheme} :
    (∃ data, earlier.foldlM (Pkcs12.collectBag crates password) ⟨none, []⟩ = .ok data ∧
      (ContentsDecrypt crates info scheme ∨
        ∃ before bag after next, InfoHolds crates password info (before ++ bag :: after) ∧
          before.foldlM (Pkcs12.collectBag crates password) data = .ok next ∧ next.key = none ∧
            BagDecrypts crates bag scheme)) ↔
      InfoDecrypts crates password earlier info scheme := by
  have happend : ∀ before next, (earlier ++ before).foldlM (Pkcs12.collectBag crates password)
      ⟨none, []⟩ = .ok next ↔ ∃ data, earlier.foldlM (Pkcs12.collectBag crates password)
        ⟨none, []⟩ = .ok data ∧ before.foldlM (Pkcs12.collectBag crates password) data = .ok next := by
    intro before next
    rw [List.foldlM_append, Except.bind_eq_ok_iff]
  constructor
  · rintro ⟨data, hearlier, hinfo | ⟨before, bag, after, next, hholds, hbefore, hnone, hbag⟩⟩
    · exact .contents (foldlM_readable.mp ⟨data, hearlier⟩) hinfo
    · have hall := (happend before next).mpr ⟨data, hearlier, hbefore⟩
      exact .bag hholds (foldlM_readable.mp ⟨next, hall⟩) ((foldlM_collectBag_key hall).mp hnone).2 hbag
  · rintro (⟨hreadable, hinfo⟩ | ⟨hholds, hreadable, hnone, hbag⟩)
    · obtain ⟨data, hearlier⟩ := foldlM_readable.mpr hreadable
      exact ⟨data, hearlier, .inl hinfo⟩
    · obtain ⟨next, hall⟩ := foldlM_readable.mpr hreadable
      obtain ⟨data, hearlier, hbefore⟩ := (happend _ next).mp hall
      have hkey := (foldlM_collectBag_key hall).mpr ⟨rfl, hnone⟩
      exact ⟨data, hearlier, .inr ⟨_, _, _, next, hholds, hbefore, hkey, hbag⟩⟩

omit [DecidableEq Point] in
theorem not_asks_openPfx (h : ByScheme P S) (input : Bytes) : ¬ Asks crates P (openPfx input) := by
  have hpfx : ∀ input, ¬ P (.pfx input) := fun input => h.quiet (.pfx input) rfl
  have hauthSafe : ∀ content, ¬ P (.authSafe content) := fun content => h.quiet (.authSafe content) rfl
  simp only [openPfx, asks_bind, asks_fetch, hpfx, hauthSafe, asks_orThrow, asks_pure, and_false, exists_false,
    or_false, not_false_eq_true]

/-- What a parse asks for behind the MAC goes by the schemes that it comes to decrypt with. -/
theorem asks_parsePfx (h : ByScheme P S) {input : Bytes}
    (hmac : ∀ macData authSafe, ¬ Asks crates P (verifyMacData macData authSafe password)) :
    Asks crates P (parsePfx crates input password) ↔
      ∃ scheme, S scheme ∧ Decrypts crates input password scheme := by
  have hcontentInfos : ∀ authSafe, ¬ P (.contentInfos authSafe) := fun authSafe => h.quiet (.contentInfos authSafe) rfl
  simp only [parsePfx, collectInfos, asks_bind, not_asks_openPfx h, Prod.exists, result_openPfx_eq_ok_iff, asks_fetch,
    hcontentInfos, asks_orThrow, asks_pure, hmac, and_false, exists_false, or_false, false_or, result_fetch,
    result_verifyMacData, okOr_eq_ok_iff, asks_foldlM (result_collectInfo password), asks_collectInfo h,
    foldlM_collectInfo]
  constructor
  · rintro ⟨pfx, authSafe, ⟨hpfx, hhead, hsafe⟩, _, hverified, _, hinfos, before, info, after, data, rfl,
      ⟨lists, hlists, hbefore⟩, scheme, hS, hinfo⟩
    exact ⟨scheme, hS, pfx, authSafe, before, info, after, lists, hpfx, hhead, hsafe, hverified,
      hinfos, hlists, infoDecrypts_iff.mp ⟨data, hbefore, hinfo⟩⟩
  · rintro ⟨scheme, hS, pfx, authSafe, before, info, after, lists, hpfx, hhead, hsafe, hverified,
      hinfos, hlists, hdecrypts⟩
    obtain ⟨data, hbefore, hinfo⟩ := infoDecrypts_iff.mpr hdecrypts
    exact ⟨pfx, authSafe, ⟨hpfx, hhead, hsafe⟩, (), hverified, _, hinfos, before, info, after, data, rfl,
      ⟨lists, hlists, hbefore⟩, scheme, hS, hinfo⟩

end Asks

theorem byScheme_bound : ByScheme (fun q => ¬ q.WithinBound) (fun scheme => ¬ WithinBound scheme) where
  quiet q hq h := h fun n hn => by
    rw [(Call.quiet hq).2.2.1] at hn
    cases hn
  scryptParams params _ h := h fun n hn => by cases hn
  decrypt scheme password ciphertext := Iff.rfl
  decryptKey encrypted password := Iff.rfl

theorem verifyMacData_withinBound (macData : Option MacData) (authSafe : Bytes) :
    ¬ Asks crates (fun q => ¬ q.WithinBound) (verifyMacData macData authSafe password) := by
  intro h
  cases macData with
  | none => exact asks_pure () h
  | some macData =>
    obtain ⟨digest, material, n, -, hn, h⟩ := asks_verifyMac byScheme_bound.quiet h
    refine h fun m hm => ?_
    cases hm
    exact hn

/-- No key is derived with more iterations than the bound exactly if no scheme that the parser
comes to decrypt with asks for more. -/
theorem parsePfx_withinBound_iff [DecidableEq Point] (input : Bytes) (password : Option Bytes) :
    (∀ q ∈ requests crates (parsePfx crates input password), q.WithinBound) ↔
      ∀ scheme, Decrypts crates input password scheme → WithinBound scheme := by
  have hasks : Asks crates _ (parsePfx crates input password) ↔ _ :=
    asks_parsePfx byScheme_bound verifyMacData_withinBound
  constructor
  · intro h scheme hscheme
    by_contra hover
    obtain ⟨q, hq, hP⟩ := hasks.mpr ⟨scheme, hover, hscheme⟩
    exact hP (h q hq)
  · intro h q hq
    by_contra hover
    obtain ⟨scheme, hS, hscheme⟩ := hasks.mp ⟨q, hq, hover⟩
    exact hS (h scheme hscheme)

namespace Fixture

open Attestation.Fixture (ofHex)
open Pkcs12.Fixture (octetsAny dataOid certContents)

def smeg : Bytes := [0x73, 0x6d, 0x65, 0x67]

/-- PBKDF2 with one iteration more than the bound, and AES-256. -/
def slowScheme : EncryptionScheme :=
  .pbes2 (.pbkdf2 ⟨ofHex 8 0x0001020304050607, 10000001, none, "1.2.840.113549.2.9"⟩)
    (.aes256Cbc (ofHex 16 0x000102030405060708090a0b0c0d0e0f))

def slowParameters : X509.Any := ⟨.other 0x30,
  ofHex 44 0x302b06092a864886f70d01050c301e04080001020304050607020400989681300c06082a864886f70d020905 ++
  ofHex 32 0x00301d060960864801650304012a0410000102030405060708090a0b0c0d0e0f⟩

def slowCiphertext : Bytes :=
  ofHex 44 0x5ed6d698a2871409422de9952b5d5a49e512ad8d488b6b520384e624283a87a4322ab15e9dc67386aa3f1d80 ++
  ofHex 4 0xeb442875

def slowValue : X509.Any := ⟨.other 0x30,
  ofHex 44 0x02010030819806092a864886f70d010701305906092a864886f70d01050d304c302b06092a864886f70d0105 ++
  ofHex 44 0x0c301e04080001020304050607020400989681300c06082a864886f70d02090500301d060960864801650304 ++
  ofHex 22 0x012a0410000102030405060708090a0b0c0d0e0f8030 ++ slowCiphertext⟩

def slowSafe : Bytes := ofHex 23 0x3081b23081af06092a864886f70d010706a081a130819e ++ slowValue.value

/-- A bundle without a MAC, with a certificate in an encrypted content info. -/
def slowDer : Bytes :=
  ofHex 26 0x3081cc0201033081c606092a864886f70d010701a081b80481b5 ++ slowSafe

def slowCrates : Crates Unit Unit :=
  { Pkcs12.Fixture.bundleCrates with
    pfx := fun input =>
      if input = slowDer then some ⟨3, ⟨dataOid, octetsAny slowSafe⟩, none⟩ else none
    contentInfos := fun der =>
      if der = slowSafe then some [⟨⟨[1, 2, 840, 113549, 1, 7, 6]⟩, slowValue⟩] else none
    decodeEncryptedData := fun value =>
      if value = slowValue then
        some ⟨0, ⟨dataOid, ⟨⟨[1, 2, 840, 113549, 1, 5, 13]⟩, some slowParameters⟩, some slowCiphertext⟩⟩
      else none
    encryptionScheme := fun algorithm =>
      if algorithm = ⟨⟨[1, 2, 840, 113549, 1, 5, 13]⟩, some slowParameters⟩ then some slowScheme
      else none
    decrypt := fun scheme password ciphertext =>
      if scheme = slowScheme ∧ password = smeg ∧ ciphertext = slowCiphertext then some certContents
      else none }

end Fixture

/-- A bundle is decrypted with more iterations than the bound. -/
theorem parsePfx_exceeds :
    ¬ ∀ input password, ∀ q ∈ requests Fixture.slowCrates (parsePfx Fixture.slowCrates input password),
      q.WithinBound := by
  intro h
  have hasked : Call.decrypt Fixture.slowScheme Fixture.smeg Fixture.slowCiphertext ∈
      requests Fixture.slowCrates (parsePfx Fixture.slowCrates Fixture.slowDer (some Fixture.smeg)) := by
    decide +kernel
  exact absurd (h _ _ _ hasked 10000001 rfl) (by decide)

end Stretching
