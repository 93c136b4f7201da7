import Ckman.KeyFormats
import Ckman.StretchingBound

/-!
# Encryption schemes

`check_encryption_scheme` comes before the password is used. A file whose first
encrypted part has a scheme that the check rejects is refused with one error
whatever the password is, and no key is derived for it.
-/
namespace Stretching

open Host Interaction
open Pem (Base64 KeyError pemDecode pemEncode IsPemText)
open Keys (ImportedKey EncryptionScheme EncryptedPrivateKeyInfo DocumentedShapes privateKeyLabel
  encryptedLabel rsaLabel ecLabel)
open Pkcs12 (Call Convertible Crates Derivable MacData EncryptedData ContentInfo SafeBag Pfx PfxData oidData
  oidEncryptedData oidShroudedKeyBag)
open Pkcs12.Calls

variable {Secret Point : Type} {crates : Crates Secret Point} {α β : Type}

section Quiet

variable (crates) in
/-- The run returns this result and derives no key on the way. -/
def Quiet (p : Calling α) (r : Except KeyError α) : Prop :=
  result crates p = r ∧ ¬ Asks crates (fun q => q.derives = true) p

theorem quiet_orThrow (r : Except KeyError α) : Quiet crates (orThrow r) r := ⟨rfl, asks_orThrow r⟩

theorem quiet_orElse (o : Option α) (error : KeyError) : Quiet crates (orElse o error) (okOr o error) :=
  quiet_orThrow _

theorem quiet_fetch {q : Call} {error : KeyError} {h : q.Answer = Option α} {a : α} (hq : q.derives = false)
    (ha : h ▸ crates.answer q = some a) : Quiet crates (fetch q error h) (.ok a) := by
  refine ⟨by rw [result_fetch, ha]; rfl, ?_⟩
  rw [asks_fetch, hq]
  exact Bool.false_ne_true

theorem quiet_fetch_none {q : Call} {error : KeyError} {h : q.Answer = Option α} (hq : q.derives = false)
    (hnone : h ▸ crates.answer q = none) : Quiet crates (fetch q error h) (.error error) := by
  refine ⟨by rw [result_fetch, hnone]; rfl, ?_⟩
  rw [asks_fetch, hq]
  exact Bool.false_ne_true

theorem Quiet.bind {p : Calling α} {f : α → Calling β} {a : α} {r : Except KeyError β}
    (hp : Quiet crates p (.ok a)) (hf : Quiet crates (f a) r) : Quiet crates (p >>= f) r := by
  refine ⟨by rw [result_bind, hp.1, Except.ok_bind, hf.1], ?_⟩
  rw [asks_bind]
  rintro (h | ⟨b, hb, h⟩)
  · exact hp.2 h
  · cases hp.1.symm.trans hb
    exact hf.2 h

/-- A sequence whose first part fails. -/
theorem Quiet.error {p : Calling α} (f : α → Calling β) {e : KeyError}
    (hp : Quiet crates p (.error e)) : Quiet crates (p >>= f) (.error e) := by
  refine ⟨by rw [result_bind, hp.1, Except.error_bind], ?_⟩
  rw [asks_bind]
  rintro (h | ⟨b, hb, h⟩)
  · exact hp.2 h
  · cases hp.1.symm.trans hb

theorem quiet_check (scheme : EncryptionScheme) : Quiet crates (checkEncryptionScheme scheme)
    (Keys.checkEncryptionScheme crates.toCrates scheme) := by
  refine ⟨result_checkEncryptionScheme scheme, fun h => ?_⟩
  obtain ⟨params, -, h⟩ := asks_checkEncryptionScheme h
  cases h

theorem Quiet.orEncoding {first next : Calling ImportedKey} {r : Except KeyError ImportedKey}
    (hfirst : Quiet crates first (.error .encoding)) (hnext : Quiet crates next r) :
    Quiet crates (orEncoding first next) r := by
  refine ⟨by rw [result_orEncoding, hfirst.1, hnext.1]; rfl, ?_⟩
  rw [asks_orEncoding]
  rintro (h | ⟨-, h⟩)
  · exact hfirst.2 h
  · exact hnext.2 h

/-- An error that does not stand for another encoding is final. -/
theorem Quiet.orEncoding_final {first : Calling ImportedKey} (next : Calling ImportedKey)
    {e : KeyError} (hfirst : Quiet crates first (.error e)) (he : e ≠ .encoding) :
    Quiet crates (Stretching.orEncoding first next) (.error e) := by
  refine ⟨?_, ?_⟩
  · rw [result_orEncoding, hfirst.1]
    cases e <;> first | exact absurd rfl he | rfl
  · rw [asks_orEncoding]
    rintro (h | ⟨hencoding, -⟩)
    · exact hfirst.2 h
    · exact he (Except.error.inj (hfirst.1.symm.trans hencoding))

end Quiet

section Bundle

variable [DecidableEq Point]

variable (crates) in
/-- The parser reads these bags without decrypting one. -/
inductive ReadsPlain : PfxData → List SafeBag → PfxData → Prop
  | nil (data : PfxData) : ReadsPlain data [] data
  | cons {data next last : PfxData} {bag : SafeBag} {bags : List SafeBag} :
      ¬ (bag.bagId.dotted = oidShroudedKeyBag ∧ data.key = none) →
      Pkcs12.collectBag crates none data bag = .ok next → ReadsPlain next bags last →
      ReadsPlain data (bag :: bags) last

variable (crates) in
/-- The first encrypted content info or shrouded key bag that the parser comes to has this scheme. -/
inductive FirstEncrypted : PfxData → List ContentInfo → EncryptionScheme → Prop
  | contents {data : PfxData} {info : ContentInfo} {infos : List ContentInfo}
      {encrypted : EncryptedData} {scheme : EncryptionScheme} :
      info.contentType.dotted = oidEncryptedData →
      crates.decodeEncryptedData info.content = some encrypted →
      crates.encryptionScheme encrypted.content.encryption = some scheme →
      FirstEncrypted data (info :: infos) scheme
  | bag {data next : PfxData} {info : ContentInfo} {infos : List ContentInfo} {contents : Bytes}
      {before after : List SafeBag} {bag : SafeBag} {encrypted : EncryptedPrivateKeyInfo} :
      info.contentType.dotted = oidData → crates.decodeOctets info.content = some contents →
      crates.safeBags contents = some (before ++ bag :: after) → ReadsPlain crates data before next →
      bag.bagId.dotted = oidShroudedKeyBag → next.key = none →
      crates.decodeEncryptedKey bag.bagValue = some encrypted →
      FirstEncrypted data (info :: infos) encrypted.encryptionAlgorithm
  | later {data next : PfxData} {info : ContentInfo} {infos : List ContentInfo} {contents : Bytes}
      {bags : List SafeBag} {scheme : EncryptionScheme} :
      info.contentType.dotted = oidData → crates.decodeOctets info.content = some contents →
      crates.safeBags contents = some bags → ReadsPlain crates data bags next →
      FirstEncrypted next infos scheme → FirstEncrypted data (info :: infos) scheme

variable (crates) in
/-- A bundle without a MAC whose first encrypted part has this scheme. -/
def BundleUses (der : Bytes) (scheme : EncryptionScheme) : Prop :=
  ∃ pfx authSafe infos, crates.pfx der = some pfx ∧ pfx.version = 3 ∧
    pfx.authSafe.contentType.dotted = oidData ∧ pfx.macData = none ∧
    crates.decodeOctets pfx.authSafe.content = some authSafe ∧
    crates.contentInfos authSafe = some infos ∧ FirstEncrypted crates ⟨none, []⟩ infos scheme

variable {password : Option Bytes} {scheme : EncryptionScheme} {e : KeyError}

/-- A bag that is not decrypted is read alike with every password. -/
theorem quiet_collectBag {data next : PfxData} {bag : SafeBag}
    (hplain : ¬ (bag.bagId.dotted = oidShroudedKeyBag ∧ data.key = none))
    (h : Pkcs12.collectBag crates none data bag = .ok next) :
    Quiet crates (collectBag crates password data bag) (.ok next) := by
  have hsame : Pkcs12.collectBag crates password data bag = Pkcs12.collectBag crates none data bag := by
    simp only [Pkcs12.collectBag, if_neg hplain]
  refine ⟨(result_collectBag password data bag).trans (hsame.trans h), ?_⟩
  simp only [collectBag, keyBag, certBag, if_neg hplain, asks_ite, asks_bind, asks_fetch, Call.derives, asks_orThrow,
    asks_pure, Bool.false_eq_true, and_false, exists_false, or_false, ite_self, not_false_eq_true]

theorem quiet_bags {data next : PfxData} {bags : List SafeBag} {more : List SafeBag}
    {r : Except KeyError PfxData} (h : ReadsPlain crates data bags next)
    (hmore : Quiet crates (more.foldlM (collectBag crates password) next) r) :
    Quiet crates ((bags ++ more).foldlM (collectBag crates password) data) r := by
  induction h with
  | nil => exact hmore
  | cons hplain hbag _ ih =>
    rw [List.cons_append, List.foldlM_cons]
    exact (quiet_collectBag hplain hbag).bind (ih hmore)

omit [DecidableEq Point] in
/-- The check comes before the password is used. -/
theorem quiet_shroudedKeyBag {bag : SafeBag} {encrypted : EncryptedPrivateKeyInfo}
    (hdecode : crates.decodeEncryptedKey bag.bagValue = some encrypted)
    (hcheck : Keys.checkEncryptionScheme crates.toCrates encrypted.encryptionAlgorithm = .error e) :
    Quiet crates (shroudedKeyBag bag password) (.error e) := by
  have hrefused : Quiet crates _ _ := quiet_check encrypted.encryptionAlgorithm
  rw [hcheck] at hrefused
  rw [shroudedKeyBag]
  exact .bind (quiet_fetch rfl hdecode) (hrefused.error _)

omit [DecidableEq Point] in
theorem quiet_decryptContents {encrypted : EncryptedData}
    (hscheme : crates.encryptionScheme encrypted.content.encryption = some scheme)
    (hcheck : Keys.checkEncryptionScheme crates.toCrates scheme = .error e) :
    ∃ e', ∀ password, Quiet crates (decryptContents encrypted password) (.error e') := by
  have hrefused : Quiet crates _ _ := quiet_check scheme
  rw [hcheck] at hrefused
  by_cases hhead : encrypted.version ≠ 0 ∨ encrypted.content.contentType.dotted ≠ oidData
  · refine ⟨.encoding, fun password => ?_⟩
    have hbad : Quiet crates _ _ := quiet_orThrow (refuse (encrypted.version ≠ 0 ∨
      encrypted.content.contentType.dotted ≠ oidData) KeyError.encoding)
    rw [refuse_eq_error_iff.mpr ⟨hhead, rfl⟩] at hbad
    rw [decryptContents, refuse_eq_error_iff.mpr ⟨hhead, rfl⟩]
    exact hbad.error _
  · refine ⟨e, fun password => ?_⟩
    rw [decryptContents, refuse_eq_ok_iff.mpr hhead]
    exact (quiet_orThrow (.ok ())).bind (.bind (quiet_fetch rfl hscheme) (hrefused.error _))

omit [DecidableEq Point] in
theorem quiet_plainContents {info : ContentInfo} {contents : Bytes}
    (htype : info.contentType.dotted = oidData)
    (hcontents : crates.decodeOctets info.content = some contents) :
    Quiet crates (safeContents info password) (.ok contents) := by
  rw [safeContents, if_pos htype]
  exact quiet_fetch rfl hcontents

/-- A plain content info is a loop over its bags. -/
theorem quiet_plainInfo {data : PfxData} {info : ContentInfo} {contents : Bytes} {bags : List SafeBag}
    {r : Except KeyError PfxData} (htype : info.contentType.dotted = oidData)
    (hcontents : crates.decodeOctets info.content = some contents)
    (hbags : crates.safeBags contents = some bags)
    (hloop : Quiet crates (bags.foldlM (collectBag crates password) data) r) :
    Quiet crates (collectInfo crates password data info) r := by
  rw [collectInfo]
  refine (quiet_plainContents htype hcontents).bind ?_
  rw [collectBags]
  exact .bind (quiet_fetch rfl hbags) hloop

/-- The first encrypted part ends the loop with an error that no password changes. -/
theorem quiet_infos {data : PfxData} {infos : List ContentInfo}
    (h : FirstEncrypted crates data infos scheme)
    (hcheck : Keys.checkEncryptionScheme crates.toCrates scheme = .error e) :
    ∃ e', ∀ password, Quiet crates (infos.foldlM (collectInfo crates password) data) (.error e') := by
  induction h with
  | @contents data info infos encrypted scheme htype hdecode hscheme =>
    obtain ⟨e', hrefused⟩ := quiet_decryptContents hscheme hcheck
    refine ⟨e', fun password => ?_⟩
    have hplain : ¬ info.contentType.dotted = oidData := by
      rw [htype]
      decide
    rw [List.foldlM_cons]
    refine Quiet.error _ ?_
    rw [collectInfo]
    refine Quiet.error _ ?_
    rw [safeContents, if_neg hplain, if_pos htype]
    exact .bind (quiet_fetch rfl hdecode) (hrefused password)
  | @bag data next info infos contents before after bag encrypted htype hcontents hbags hplain hshrouded
      hnone hdecode =>
    refine ⟨e, fun password => ?_⟩
    have hkey : ¬ (bag.bagId.dotted = Pkcs12.oidKeyBag ∧ next.key = none) := by
      rw [hshrouded]
      exact fun h => absurd h.1 (by decide)
    rw [List.foldlM_cons]
    refine Quiet.error _ (quiet_plainInfo htype hcontents hbags (quiet_bags hplain ?_))
    rw [List.foldlM_cons]
    refine Quiet.error _ ?_
    rw [collectBag, if_neg hkey, if_pos ⟨hshrouded, hnone⟩]
    exact (quiet_shroudedKeyBag hdecode hcheck).error _
  | @later data next info infos contents bags scheme htype hcontents hbags hplain _ ih =>
    obtain ⟨e', hrefused⟩ := ih hcheck
    refine ⟨e', fun password => ?_⟩
    have hread : Quiet crates (bags.foldlM (collectBag crates password) data) (.ok next) := by
      have hnil : Quiet crates (([] : List SafeBag).foldlM (collectBag crates password) next) (.ok next) :=
        quiet_orThrow (.ok next)
      have := quiet_bags hplain hnil
      rwa [List.append_nil] at this
    rw [List.foldlM_cons]
    exact (quiet_plainInfo htype hcontents hbags hread).bind (hrefused password)

theorem quiet_keyFromPfx {der : Bytes} (h : BundleUses crates der scheme)
    (hcheck : Keys.checkEncryptionScheme crates.toCrates scheme = .error e) :
    ∃ e', ∀ password, Quiet crates (keyFromPfx crates der password) (.error e') := by
  obtain ⟨pfx, authSafe, infos, hpfx, hversion, htype, hmac, hsafe, hinfos, hfirst⟩ := h
  obtain ⟨e', hrefused⟩ := quiet_infos hfirst hcheck
  refine ⟨e', fun password => ?_⟩
  have hhead : ¬ (pfx.version ≠ 3 ∨ pfx.authSafe.contentType.dotted ≠ oidData) := by
    simp [hversion, htype]
  rw [keyFromPfx]
  refine Quiet.error _ ?_
  have hopened : Quiet crates (openPfx der) (.ok (pfx, authSafe)) := by
    rw [openPfx]
    refine .bind (quiet_fetch rfl hpfx) ?_
    rw [refuse_eq_ok_iff.mpr hhead]
    exact (quiet_orThrow (.ok ())).bind (.bind (quiet_fetch rfl hsafe) (quiet_orThrow (.ok _)))
  rw [parsePfx]
  refine hopened.bind ?_
  dsimp only
  rw [hmac, collectInfos]
  refine .bind (quiet_orThrow (.ok ())) ?_
  exact .bind (quiet_fetch rfl hinfos) ((hrefused password).error _)

end Bundle

/-- The contents of every object identifier below 1.2.840.113549.1 begin so. -/
def pkcsArc : Bytes := [0x2a, 0x86, 0x48, 0x86, 0xf7, 0x0d, 0x01]

/-- Which SEQUENCEs the decoders of containers accept, and that the object identifiers of an
encryption scheme of PKCS#5 and of PKCS#7 data lie in them. -/
structure DocumentedContainers (crates : Crates Secret Point) : Prop extends DocumentedShapes crates where
  privateKeyInfo_octets : ∀ der info, crates.privateKeyInfo der = some info →
    Der.sequenceTags 3 der = some [0x02, 0x30, 0x04]
  encryptedPrivateKeyInfo_oid : ∀ der encrypted, crates.encryptedPrivateKeyInfo der = some encrypted →
    pkcsArc <:+: der
  pfx : ∀ der pfx, crates.pfx der = some pfx → Der.sequenceTags 2 der = some [0x02, 0x30]
  /-- Nothing but the MAC data stands behind the authenticated safe. -/
  pfx_mac : ∀ der pfx, crates.pfx der = some pfx → pfx.macData = none →
    Der.sequenceTags 3 der = none
  pfx_oid : ∀ der pfx, crates.pfx der = some pfx → pfx.authSafe.contentType.dotted = oidData →
    pkcsArc <:+: der

/-- Bytes with such an object identifier are no text. -/
theorem not_isPemText {der : Bytes} (h : pkcsArc <:+: der) : ¬ IsPemText der := by
  rintro ⟨text, rfl, -⟩
  have hpair : [0x2a, 0x86] <:+: pkcsArc := ⟨[], [0x48, 0x86, 0xf7, 0x0d, 0x01], rfl⟩
  exact Text.not_infix_utf8 (by decide) (by decide) (by decide) text (hpair.trans h)

/-- The file is this DER, or armour with it under one of the labels. -/
def File (base64 : Base64) (labels : List (List Char)) (input der : Bytes) : Prop :=
  input = der ∨ ∃ label ∈ labels,
    pemDecode base64 input [privateKeyLabel, encryptedLabel, rsaLabel, ecLabel] = .ok (label, der)

section Files

variable [DecidableEq Point] {base64 : Base64} {input der : Bytes} {e : KeyError}

theorem quiet_unlabelled {password : Option Bytes} (hpem : ¬ IsPemText der)
    (h : Quiet crates (parseUnlabelled crates der password) (.error e))
    (hfile : File base64 [privateKeyLabel] input der) :
    Quiet crates (parsePrivateKey crates base64 input password) (.error e) := by
  have hdecode : ∃ label, label ≠ encryptedLabel ∧ label ≠ rsaLabel ∧ label ≠ ecLabel ∧
      pemDecode base64 input [privateKeyLabel, encryptedLabel, rsaLabel, ecLabel] = .ok (label, der) := by
    rcases hfile with rfl | ⟨label, hlabel, hdecode⟩
    · exact ⟨[], by decide, by decide, by decide, Pem.pemDecode_eq_input_iff.mpr hpem⟩
    · obtain rfl := List.mem_singleton.mp hlabel
      exact ⟨privateKeyLabel, by decide, by decide, by decide, hdecode⟩
  obtain ⟨label, hencrypted, hrsa, hec, hdecode⟩ := hdecode
  rw [parsePrivateKey, hdecode]
  refine (quiet_orThrow (.ok (label, der))).bind ?_
  simp only [if_neg hencrypted, if_neg hrsa, if_neg hec]
  exact h

theorem quiet_decryptPkcs8 {encrypted : EncryptedPrivateKeyInfo} {password : Option Bytes}
    (hdecode : crates.encryptedPrivateKeyInfo der = some encrypted)
    (hcheck : Keys.checkEncryptionScheme crates.toCrates encrypted.encryptionAlgorithm = .error e) :
    Quiet crates (decryptPkcs8 crates der password) (.error e) := by
  have hrefused : Quiet crates _ _ := quiet_check encrypted.encryptionAlgorithm
  rw [hcheck] at hrefused
  rw [decryptPkcs8, hdecode]
  exact (quiet_orElse (some encrypted) _).bind (hrefused.error _)

/-- DER that is none of the formats before PKCS#12. -/
theorem quiet_parseUnlabelled {password : Option Bytes} {r : Except KeyError ImportedKey}
    (hpkcs8 : crates.privateKeyInfo der = none)
    (hencrypted : Quiet crates (decryptPkcs8 crates der password) (.error .encoding))
    (hrsa : crates.rsaPrivateKey der = none) (hec : crates.ecPrivateKey der = none)
    (hpfx : Quiet crates (keyFromPfx crates der password) r) :
    Quiet crates (parseUnlabelled crates der password) r := by
  have hsec1 : Keys.fromSec1 crates.toCrates der = .error .encoding := by
    rw [Keys.fromSec1, Keys.fromEcPrivate, hec]
    rfl
  have hplain : Quiet crates _ _ := quiet_orThrow (Keys.fromPkcs8 crates.toCrates der)
  have hother : Quiet crates _ _ := quiet_orThrow
    (Keys.orEncoding (Keys.fromPkcs1 crates.toCrates der) (Keys.fromSec1 crates.toCrates der))
  rw [Keys.fromPkcs8_error hpkcs8] at hplain
  rw [Keys.fromPkcs1_error hrsa, hsec1] at hother
  rw [parseUnlabelled, Keys.fromPkcs8_error hpkcs8, Keys.fromPkcs1_error hrsa, hsec1]
  exact hplain.orEncoding (hencrypted.orEncoding (hother.orEncoding hpfx))

/-- An encrypted PKCS#8 key whose scheme is rejected is refused with the error of the check. -/
theorem quiet_encryptedKey (hdoc : DocumentedContainers crates) {encrypted : EncryptedPrivateKeyInfo}
    (hfile : File base64 [privateKeyLabel, encryptedLabel] input der)
    (hdecode : crates.encryptedPrivateKeyInfo der = some encrypted)
    (hcheck : Keys.checkEncryptionScheme crates.toCrates encrypted.encryptionAlgorithm = .error e)
    (password : Option Bytes) :
    Quiet crates (parsePrivateKey crates base64 input password) (.error e) := by
  have hpem := not_isPemText (hdoc.encryptedPrivateKeyInfo_oid der encrypted hdecode)
  have hrefused : Quiet crates (decryptPkcs8 crates der password) (.error e) :=
    quiet_decryptPkcs8 hdecode hcheck
  have htags := hdoc.encryptedPrivateKeyInfo der encrypted hdecode
  have hpkcs8 := Keys.eq_none_of_tags (hdoc.privateKeyInfo der) htags (by decide)
  have hunlabelled : Quiet crates (parseUnlabelled crates der password) (.error e) := by
    by_cases he : e = .encoding
    · subst he
      have hrsa := Keys.eq_none_of_tags (hdoc.rsaPrivateKey der) htags (by decide)
      have hec := Keys.eq_none_of_tags (hdoc.ecPrivateKey der) htags (by decide)
      have hpfx := Keys.eq_none_of_tags (hdoc.pfx der) htags (by decide)
      refine quiet_parseUnlabelled hpkcs8 hrefused hrsa hec ?_
      rw [keyFromPfx, parsePfx, openPfx]
      exact .error _ (.error _ (.error _ (quiet_fetch_none rfl hpfx)))
    · have hplain : Quiet crates _ _ := quiet_orThrow (Keys.fromPkcs8 crates.toCrates der)
      rw [Keys.fromPkcs8_error hpkcs8] at hplain
      rw [parseUnlabelled, Keys.fromPkcs8_error hpkcs8]
      exact hplain.orEncoding (hrefused.orEncoding_final _ he)
  rcases hfile with rfl | ⟨label, hlabel, harmour⟩
  · exact quiet_unlabelled hpem hunlabelled (.inl rfl)
  · rcases List.mem_pair.mp hlabel with rfl | rfl
    · exact quiet_unlabelled hpem hunlabelled (.inr ⟨privateKeyLabel, List.mem_singleton_self _, harmour⟩)
    · rw [parsePrivateKey, harmour]
      exact (quiet_orThrow (.ok (encryptedLabel, der))).bind hrefused

theorem quiet_bundle (hdoc : DocumentedContainers crates) {scheme : EncryptionScheme}
    (hfile : File base64 [privateKeyLabel] input der) (huses : BundleUses crates der scheme)
    (hcheck : Keys.checkEncryptionScheme crates.toCrates scheme = .error e) :
    ∃ e', ∀ password, Quiet crates (parsePrivateKey crates base64 input password) (.error e') := by
  obtain ⟨e', hrefused⟩ := quiet_keyFromPfx huses hcheck
  refine ⟨e', fun password => ?_⟩
  obtain ⟨pfx, -, -, hpfx, -, htype, hmac, -⟩ := huses
  have htags := hdoc.pfx der pfx hpfx
  have hpkcs8 : crates.privateKeyInfo der = none := by
    refine Option.eq_none_iff_forall_ne_some.mpr fun info hinfo => ?_
    have hthree := hdoc.privateKeyInfo_octets der info hinfo
    rw [hdoc.pfx_mac der pfx hpfx hmac] at hthree
    cases hthree
  have hencrypted := Keys.eq_none_of_tags (hdoc.encryptedPrivateKeyInfo der) htags (by decide)
  have hrsa := Keys.eq_none_of_tags (hdoc.rsaPrivateKey der) htags (by decide)
  have hec := Keys.eq_none_of_tags (hdoc.ecPrivateKey der) htags (by decide)
  have hdecrypt : Quiet crates (decryptPkcs8 crates der password) (.error .encoding) := by
    rw [decryptPkcs8, hencrypted]
    exact (quiet_orElse none _).error _
  exact quiet_unlabelled (not_isPemText (hdoc.pfx_oid der pfx hpfx htype))
    (quiet_parseUnlabelled hpkcs8 hdecrypt hrsa hec (hrefused password)) hfile

end Files

section Domains

variable [DecidableEq Point] {base64 : Base64}

theorem byScheme_domain : ByScheme (fun q => ¬ q.InDomain) (fun scheme => ¬ Derivable scheme) where
  quiet q hq h := h (Call.quiet hq).2.2.2
  scryptParams _ hparams h := h hparams
  decrypt scheme _ _ := by simp [Call.InDomain, Call.scheme]
  decryptKey encrypted _ := by simp [Call.InDomain, Call.scheme]

theorem parsePfx_inDomain (input : Bytes) (password : Option Bytes) :
    ¬ Asks crates (fun q => ¬ q.InDomain) (parsePfx crates input password) := by
  have hmac : ∀ macData authSafe, ¬ Asks crates (fun q => ¬ q.InDomain)
      (verifyMacData macData authSafe password) := by
    intro macData authSafe h
    cases macData with
    | none => exact asks_pure () h
    | some macData =>
      obtain ⟨digest, material, n, hn, -, h⟩ := asks_verifyMac byScheme_domain.quiet h
      exact h hn
  rw [asks_parsePfx byScheme_domain hmac]
  rintro ⟨scheme, hS, pfx, authSafe, before, info, after, lists, -, -, -, -, -, -, hinfo⟩
  rcases hinfo with ⟨-, -, encrypted, ciphertext, -, -, -, -, hcheck, -⟩ |
    ⟨-, -, -, -, encrypted, -, -, hcheck⟩
  · exact hS (derivable_of_check hcheck)
  · exact hS (derivable_of_check hcheck)

/-- Whatever a run asks for lies in the domain of the function that it calls. -/
theorem parsePrivateKey_inDomain (input : Bytes) (password : Option Bytes) :
    ∀ q ∈ requests crates (parsePrivateKey crates base64 input password), q.InDomain := by
  have hpkcs8 : ∀ der, ¬ Asks crates (fun q => ¬ q.InDomain) (decryptPkcs8 crates der password) := by
    intro der h
    simp only [decryptPkcs8, asks_bind, asks_orElse, asks_orThrow, byScheme_domain.not_asks_check,
      asks_fetch, byScheme_domain.decryptKey, and_false, exists_false, or_false, false_or,
      result_orElse, result_checkEncryptionScheme] at h
    obtain ⟨encrypted, -, _, hcheck, _, -, hS⟩ := h
    exact hS (derivable_of_check hcheck)
  intro q hq
  by_contra hout
  have h : Asks crates (fun q => ¬ q.InDomain) (parsePrivateKey crates base64 input password) :=
    ⟨q, hq, hout⟩
  simp only [parsePrivateKey, parseUnlabelled, keyFromPfx, asks_bind, asks_orThrow, asks_orElse,
    asks_ite, asks_orEncoding, hpkcs8, parsePfx_inDomain, and_false, exists_false, or_false,
    ite_self] at h

end Domains

/-- What `check_encryption_scheme` is good for: a file whose scheme it rejects is refused alike with
every password and none, without a key derivation, and a scheme that it accepts can be derived
with. -/
structure ChecksFirst [DecidableEq Point] (base64 : Base64) (crates : Crates Secret Point) : Prop where
  encryptedKey : ∀ input der encrypted e, File base64 [privateKeyLabel, encryptedLabel] input der →
    crates.encryptedPrivateKeyInfo der = some encrypted →
    Keys.checkEncryptionScheme crates.toCrates encrypted.encryptionAlgorithm = .error e →
    ∀ password, Keys.parsePrivateKey base64 crates input password = .error e ∧
      ∀ q ∈ requests crates (parsePrivateKey crates base64 input password), q.derives = false
  bundle : ∀ input der scheme e, File base64 [privateKeyLabel] input der →
    BundleUses crates der scheme → Keys.checkEncryptionScheme crates.toCrates scheme = .error e →
    ∃ e', ∀ password, Keys.parsePrivateKey base64 crates input password = .error e' ∧
      ∀ q ∈ requests crates (parsePrivateKey crates base64 input password), q.derives = false
  accepted : ∀ scheme, Keys.checkEncryptionScheme crates.toCrates scheme = .ok () → Derivable scheme
  inDomain : ∀ input password,
    ∀ q ∈ requests crates (parsePrivateKey crates base64 input password), q.InDomain

theorem Quiet.refused [DecidableEq Point] {base64 : Base64} {input : Bytes} {password : Option Bytes}
    {e : KeyError} (h : Quiet crates (parsePrivateKey crates base64 input password) (.error e)) :
    Keys.parsePrivateKey base64 crates input password = .error e ∧
      ∀ q ∈ requests crates (parsePrivateKey crates base64 input password), q.derives = false := by
  refine ⟨(result_parsePrivateKey base64 input password).symm.trans h.1, fun q hq => ?_⟩
  rw [← Bool.not_eq_true]
  exact fun hderives => h.2 ⟨q, hq, hderives⟩

theorem checkEncryptionScheme_first [DecidableEq Point] (hdoc : DocumentedContainers crates)
    (base64 : Base64) : ChecksFirst base64 crates where
  encryptedKey input der encrypted e hfile hdecode hcheck password :=
    (quiet_encryptedKey hdoc hfile hdecode hcheck password).refused
  bundle input der scheme e hfile huses hcheck := by
    obtain ⟨e', hrefused⟩ := quiet_bundle hdoc hfile huses hcheck
    exact ⟨e', fun password => (hrefused password).refused⟩
  accepted scheme h := derivable_of_check h
  inDomain input password := parsePrivateKey_inDomain input password

namespace Fixture

open Attestation.Fixture (ofHex testBase64)
open Keys.Fixture (edDer edInfo testCrates)

def pbes1Parameters : Bytes := ofHex 14 0x0408e3c04987e794a39d02020800

def pbes1Ciphertext : Bytes :=
  ofHex 28 0x8bf91049b387f90f0f6d577ae9fca37a8c388d9d48c47144f213a1b6 ++
  ofHex 28 0xc83274c2a816e1d83c508cfb99fdc6fb26923b852a0117b2f18efdb9

/-- A PKCS#8 key that is encrypted with DES under a key from MD5. -/
def pbes1Der : Bytes :=
  ofHex 17 0x3057301b06092a864886f70d010503300e ++ pbes1Parameters ++ ofHex 2 0x0438 ++ pbes1Ciphertext

def pbes1Crates : Crates Unit Unit :=
  { testCrates with
    encryptedPrivateKeyInfo := fun der =>
      if der = pbes1Der then some ⟨.pbes1 pbes1Parameters, pbes1Ciphertext⟩ else none }

theorem pbes1Crates_documented : DocumentedContainers pbes1Crates where
  privateKeyInfo der info h := by
    have hder : (if der = edDer then some edInfo else none) = some info := h
    split_ifs at hder with heq
    rw [heq]
    decide
  encryptedPrivateKeyInfo der encrypted h := by
    have hder : (if der = pbes1Der then some _ else none) = some encrypted := h
    split_ifs at hder with heq
    rw [heq]
    decide
  rsaPrivateKey _ _ h := by cases h
  ecPrivateKey _ _ h := by cases h
  privateKeyInfo_octets der info h := by
    have hder : (if der = edDer then some edInfo else none) = some info := h
    split_ifs at hder with heq
    rw [heq]
    decide
  encryptedPrivateKeyInfo_oid der encrypted h := by
    have hder : (if der = pbes1Der then some _ else none) = some encrypted := h
    split_ifs at hder with heq
    rw [heq]
    decide
  pfx _ _ h := by cases h
  pfx_mac _ _ h := by cases h
  pfx_oid _ _ h := by cases h

end Fixture

/-- The key is refused for its scheme, with a password and without. -/
theorem checkEncryptionScheme_first_pbes1 :
    Keys.parsePrivateKey Attestation.Fixture.testBase64 Fixture.pbes1Crates Fixture.pbes1Der none =
        .error .unsupportedEncryption ∧
      Keys.parsePrivateKey Attestation.Fixture.testBase64 Fixture.pbes1Crates Fixture.pbes1Der
        (some Fixture.smeg) = .error .unsupportedEncryption := by
  have hfirst := checkEncryptionScheme_first Fixture.pbes1Crates_documented Attestation.Fixture.testBase64
  have hdecode : Fixture.pbes1Crates.encryptedPrivateKeyInfo Fixture.pbes1Der =
      some ⟨.pbes1 Fixture.pbes1Parameters, Fixture.pbes1Ciphertext⟩ := by
    decide
  have hrefused := hfirst.encryptedKey Fixture.pbes1Der Fixture.pbes1Der _ .unsupportedEncryption
    (.inl rfl) hdecode rfl
  exact ⟨(hrefused none).1, (hrefused (some Fixture.smeg)).1⟩

end Stretching
