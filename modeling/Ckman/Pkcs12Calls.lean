import Ckman.InteractionTrace
import Ckman.Pkcs12Kdf

/-!
# The calls of a PKCS#12 parse

`parse_pfx` with its calls of other crates, and of the key derivation of the MAC,
as requests. It gives the same result, how the bags are spread over content infos
makes no difference to it, and none of them is opened before the MAC has verified.
-/
namespace Pkcs12

open Host
open Pem (KeyError)
open Keys (ImportedKey fromPkcs8)

set_option maxRecDepth 4000

variable {Secret Point : Type} {crates : Crates Secret Point}

/-- A call in `parse_pfx` whose result the run depends on. -/
inductive Call where
  | pfx (input : Bytes)
  | authSafe (content : X509.Any)
  /-- The key of the MAC, which `MacDigest::kdf` derives. -/
  | macKey (digest : MacDigest) (material salt : Bytes) (iterations outLen : Nat)
  | hmac (digest : MacDigest) (key data expected : Bytes)
  | contentInfos (authSafe : Bytes)
  | octets (value : X509.Any)
  | encryptedData (value : X509.Any)
  | encryptionScheme (algorithm : Attestation.AlgorithmIdentifier)
  /-- `scrypt::Params::try_from`. -/
  | scryptParams (params : Keys.ScryptParams)
  /-- A decryption derives its key from the password first. -/
  | decrypt (scheme : Keys.EncryptionScheme) (password ciphertext : Bytes)
  | safeBags (contents : Bytes)
  | bagDer (value : X509.Any)
  | encryptedKey (value : X509.Any)
  | decryptKey (encrypted : Keys.EncryptedPrivateKeyInfo) (password : Bytes)
  | certBag (value : X509.Any)
  deriving DecidableEq, Repr

namespace Call

abbrev Answer : Call → Type
  | .pfx _ => Option Pfx
  | .macKey .. => Bytes
  | .hmac .. | .scryptParams _ => Bool
  | .contentInfos _ => Option (List ContentInfo)
  | .encryptedData _ => Option EncryptedData
  | .encryptionScheme _ => Option Keys.EncryptionScheme
  | .safeBags _ => Option (List SafeBag)
  | .encryptedKey _ => Option Keys.EncryptedPrivateKeyInfo
  | .certBag _ => Option CertBag
  | .authSafe _ | .octets _ | .decrypt .. | .bagDer _ | .decryptKey .. => Option Bytes

/-- The calls that decode or decrypt a content info, or what lies in it. -/
def opens : Call → Bool
  | .pfx _ | .authSafe _ | .macKey .. | .hmac .. => false
  | _ => true

end Call

def Crates.answer (crates : Crates Secret Point) : (q : Call) → q.Answer
  | .pfx input => crates.pfx input
  | .authSafe content => crates.decodeOctets content
  | .macKey digest material salt iterations outLen => digest.kdf crates 3 material salt iterations outLen
  | .hmac digest key data expected => crates.hmacVerify digest key data expected
  | .contentInfos authSafe => crates.contentInfos authSafe
  | .octets value => crates.decodeOctets value
  | .encryptedData value => crates.decodeEncryptedData value
  | .encryptionScheme algorithm => crates.encryptionScheme algorithm
  | .scryptParams params => crates.scryptParams params
  | .decrypt scheme password ciphertext => crates.decrypt scheme password ciphertext
  | .safeBags contents => crates.safeBags contents
  | .bagDer value => crates.anyDer value
  | .encryptedKey value => crates.decodeEncryptedKey value
  | .decryptKey encrypted password => crates.decryptKey encrypted password
  | .certBag value => crates.decodeCertBag value

namespace Calls

open Interaction
open Keys (EncryptionScheme ScryptParams)

abbrev Calling (α : Type) : Type := Fallible Call.Answer KeyError α

def call (q : Call) : Calling q.Answer := attempt (.ask q fun answer => .pure (.ok answer))

/-- `?` on an option. -/
def orElse {α : Type} (o : Option α) (error : KeyError) : Calling α := orThrow (okOr o error)

/-- `?` on the answer of a call. -/
def fetch {α : Type} (q : Call) (error : KeyError) (h : q.Answer = Option α := by rfl) : Calling α := do
  let answer ← call q
  orElse (h ▸ answer) error

def macKey (digest : MacDigest) (material salt : Bytes) (iterations outLen : Nat) : Calling Bytes :=
  call (.macKey digest material salt iterations outLen)

def hmacVerify (digest : MacDigest) (key data expected : Bytes) : Calling Bool :=
  call (.hmac digest key data expected)

def macVerifies (digest : MacDigest) (macData : MacData) (iterations : Nat)
    (authSafe material : Bytes) : Calling Bool := do
  let key ← macKey digest material macData.macSalt iterations digest.outLen
  hmacVerify digest key authSafe macData.mac.digest

def verifyMac (macData : MacData) (authSafe : Bytes) (password : Option Bytes) : Calling Unit := do
  let digest ← orElse (MacDigest.fromOid macData.mac.algorithm.oid) .unsupported
  let iterations := macData.iterations.getD 1
  orThrow (refuse (iterations = 0 ∨ iterations > maxIterations) .encoding)
  let passwordBytes := password.getD []
  let first ← macVerifies digest macData iterations authSafe (bmpString passwordBytes)
  if first then pure ()
  else do
    let second ← (if passwordBytes = [] then macVerifies digest macData iterations authSafe []
      else pure false)
    if second then pure ()
    else if password = none then orThrow (.error .password)
    else orThrow (.error .macMismatch)

def verifyMacData (macData : Option MacData) (authSafe : Bytes) (password : Option Bytes) :
    Calling Unit :=
  match macData with
  | none => pure ()
  | some macData => verifyMac macData authSafe password

def converts (params : ScryptParams) : Calling Bool := call (.scryptParams params)

def checkScrypt (params : ScryptParams) : Calling Unit := do
  orThrow (refuse (params.costParameter < 2 ∨
    2 ^ Nat.log2 params.costParameter ≠ params.costParameter) .encoding)
  let converted ← converts params
  orThrow (refuse (converted = false) .encoding)

def checkEncryptionScheme : EncryptionScheme → Calling Unit
  | .pbes1 _ => orThrow (.error .unsupportedEncryption)
  | .pbes2 kdf encryption => do
    orThrow (refuse (kdf.keyLength.any (· ≠ encryption.keySize)) .encoding)
    match kdf with
    | .pbkdf2 params => orThrow (refuse (params.iterationCount = 0) .encoding)
    | .scrypt params => checkScrypt params

def decryptContents (data : EncryptedData) (password : Option Bytes) : Calling Bytes := do
  orThrow (refuse (data.version ≠ 0 ∨ data.content.contentType.dotted ≠ oidData) .encoding)
  let scheme ← fetch (.encryptionScheme data.content.encryption) .unsupported
  checkEncryptionScheme scheme
  let ciphertext ← orElse data.content.encryptedContent .encoding
  fetch (.decrypt scheme (password.getD []) ciphertext) .password

def safeContents (info : ContentInfo) (password : Option Bytes) : Calling Bytes :=
  if info.contentType.dotted = oidData then fetch (.octets info.content) .encoding
  else if info.contentType.dotted = oidEncryptedData then do
    let data ← fetch (.encryptedData info.content) .encoding
    decryptContents data password
  else orThrow (.error .unsupported)

def keyBag (bag : SafeBag) : Calling Bytes := fetch (.bagDer bag.bagValue) .encoding

def shroudedKeyBag (bag : SafeBag) (password : Option Bytes) : Calling Bytes := do
  let encrypted ← fetch (.encryptedKey bag.bagValue) .encoding
  checkEncryptionScheme encrypted.encryptionAlgorithm
  fetch (.decryptKey encrypted (password.getD [])) .password

def certBag (bag : SafeBag) (data : PfxData) : Calling PfxData := do
  let cert : CertBag ← fetch (.certBag bag.bagValue) .encoding
  if cert.certId.dotted ≠ oidX509Cert then pure data
  else do
    let octets ← fetch (.octets cert.certValue) .encoding
    pure { data with certificates := data.certificates ++ [octets] }

def openPfx (input : Bytes) : Calling (Pfx × Bytes) := do
  let pfx ← fetch (.pfx input) .encoding
  orThrow (refuse (pfx.version ≠ 3 ∨ pfx.authSafe.contentType.dotted ≠ oidData) .encoding)
  let authSafe ← fetch (.authSafe pfx.authSafe.content) .encoding
  pure (pfx, authSafe)

section Program

variable (crates : Crates Secret Point) [DecidableEq Point]

def collectBag (password : Option Bytes) (data : PfxData) (bag : SafeBag) : Calling PfxData :=
  if bag.bagId.dotted = oidKeyBag ∧ data.key = none then do
    let der ← keyBag bag
    let key ← orThrow (fromPkcs8 crates.toCrates der)
    pure { data with key := some key }
  else if bag.bagId.dotted = oidShroudedKeyBag ∧ data.key = none then do
    let der ← shroudedKeyBag bag password
    let key ← orThrow (fromPkcs8 crates.toCrates der)
    pure { data with key := some key }
  else if bag.bagId.dotted = oidCertBag then certBag bag data
  else pure data

def collectBags (contents : Bytes) (password : Option Bytes) (data : PfxData) : Calling PfxData := do
  let bags : List SafeBag ← fetch (.safeBags contents) .encoding
  bags.foldlM (collectBag crates password) data

def collectInfo (password : Option Bytes) (data : PfxData) (info : ContentInfo) : Calling PfxData := do
  let contents ← safeContents info password
  collectBags crates contents password data

def collectInfos (authSafe : Bytes) (password : Option Bytes) : Calling PfxData := do
  let infos : List ContentInfo ← fetch (.contentInfos authSafe) .encoding
  let data ← infos.foldlM (collectInfo crates password) ⟨none, []⟩
  orThrow (refuse (data.key = none ∧ data.certificates = []) .encoding)
  pure data

/-- `parse_pfx` with its calls. -/
def parsePfx (input : Bytes) (password : Option Bytes) : Calling PfxData := do
  let (pfx, authSafe) ← openPfx input
  verifyMacData pfx.macData authSafe password
  collectInfos crates authSafe password

end Program

section Result

variable (crates)

def result {α : Type} (p : Calling α) : Except KeyError α := Prog.eval crates.answer p

variable {crates}

@[simp] theorem result_bind {α β : Type} (p : Calling α) (f : α → Calling β) :
    result crates (p >>= f) = result crates p >>= fun a => result crates (f a) :=
  Fallible.eval_bind crates.answer p f

@[simp] theorem result_pure {α : Type} (a : α) : result crates (pure a : Calling α) = .ok a := rfl

@[simp] theorem result_fetch {α : Type} (q : Call) (error : KeyError) (h : q.Answer = Option α) :
    result crates (fetch q error h) = okOr (h ▸ crates.answer q) error := rfl

@[simp] theorem result_converts (params : ScryptParams) :
    result crates (converts params) = .ok (crates.scryptParams params) := rfl

@[simp] theorem result_orThrow {α : Type} (r : Except KeyError α) :
    result crates (orThrow r) = r := rfl

@[simp] theorem result_orElse {α : Type} (o : Option α) (error : KeyError) :
    result crates (orElse o error) = okOr o error := rfl

@[simp] theorem result_ite {α : Type} (c : Prop) [Decidable c] (p p' : Calling α) :
    result crates (if c then p else p') = if c then result crates p else result crates p' :=
  apply_ite _ c p p'

theorem result_foldlM {σ α : Type} {step : σ → α → Calling σ} {step' : σ → α → Except KeyError σ}
    (h : ∀ s a, result crates (step s a) = step' s a) (items : List α) (s : σ) :
    result crates (items.foldlM step s) = items.foldlM step' s :=
  Fallible.eval_foldlM h items s

theorem result_macVerifies (digest : MacDigest) (macData : MacData) (iterations : Nat)
    (authSafe material : Bytes) : result crates (macVerifies digest macData iterations authSafe material) =
      .ok (Pkcs12.macVerifies crates digest macData iterations authSafe material) := rfl

theorem result_verifyMac (macData : MacData) (authSafe : Bytes) (password : Option Bytes) :
    result crates (verifyMac macData authSafe password) =
      Pkcs12.verifyMac crates macData authSafe password := by
  rw [verifyMac, Pkcs12.verifyMac, result_bind, result_orElse]
  refine congrArg _ (funext fun digest => ?_)
  dsimp only
  rw [result_bind, result_orThrow]
  refine congrArg _ (funext fun _ => ?_)
  refine (Fallible.eval_secondCheck _ (result_macVerifies digest _ _ _ _)
    (result_macVerifies digest _ _ _ _)).trans ?_
  refine if_congr Iff.rfl rfl (if_congr Iff.rfl rfl ?_)
  exact result_ite _ _ _

@[simp] theorem result_verifyMacData (macData : Option MacData) (authSafe : Bytes) (password : Option Bytes) :
    result crates (verifyMacData macData authSafe password) =
      Pkcs12.verifyMacData crates macData authSafe password := by
  cases macData with
  | none => rfl
  | some macData => exact result_verifyMac macData authSafe password

@[simp] theorem result_checkEncryptionScheme (scheme : EncryptionScheme) :
    result crates (checkEncryptionScheme scheme) = Keys.checkEncryptionScheme crates.toCrates scheme := by
  cases scheme with
  | pbes1 parameters => rfl
  | pbes2 kdf encryption =>
    simp only [checkEncryptionScheme, Keys.checkEncryptionScheme, result_bind, result_orThrow]
    cases kdf with
    | pbkdf2 params => rfl
    | scrypt params =>
      simp only [checkScrypt, Keys.checkScrypt, result_bind, result_orThrow, result_converts, Except.ok_bind]

theorem result_decryptContents (data : EncryptedData) (password : Option Bytes) :
    result crates (decryptContents data password) =
      Pkcs12.decryptContents crates data password := by
  simp only [decryptContents, result_bind, result_orElse, result_orThrow, result_fetch,
    result_checkEncryptionScheme]
  rfl

@[simp] theorem result_safeContents (info : ContentInfo) (password : Option Bytes) :
    result crates (safeContents info password) =
      Pkcs12.safeContents crates info password := by
  simp only [safeContents, result_bind, result_orThrow, result_fetch, result_ite,
    result_decryptContents]
  rfl

theorem result_shroudedKeyBag (bag : SafeBag) (password : Option Bytes) :
    result crates (shroudedKeyBag bag password) = Pkcs12.shroudedKeyBag crates bag password := by
  simp only [shroudedKeyBag, result_bind, result_fetch, result_checkEncryptionScheme]
  rfl

theorem result_certBag (bag : SafeBag) (data : PfxData) :
    result crates (certBag bag data) = Pkcs12.certBag crates bag data := by
  simp only [certBag, result_bind, result_fetch, result_ite, result_pure]
  rfl

/-- A file that can be opened: its version, the type of its contents and the authenticated safe. -/
theorem result_openPfx_eq_ok_iff {input : Bytes} {pfx : Pfx} {authSafe : Bytes} :
    result crates (openPfx input) = .ok (pfx, authSafe) ↔ crates.pfx input = some pfx ∧
      (pfx.version = 3 ∧ pfx.authSafe.contentType.dotted = oidData) ∧
      crates.decodeOctets pfx.authSafe.content = some authSafe := by
  simp only [openPfx, result_bind, result_orThrow, result_fetch, result_pure, Except.bind_eq_ok_iff,
    okOr_eq_ok_iff, refuse_eq_ok_iff, not_or, not_not, Except.ok.injEq, Prod.mk.injEq]
  constructor
  · rintro ⟨_, hpfx, _, hhead, _, hsafe, rfl, rfl⟩
    exact ⟨hpfx, hhead, hsafe⟩
  · rintro ⟨hpfx, hhead, hsafe⟩
    exact ⟨pfx, hpfx, (), hhead, authSafe, hsafe, rfl, rfl⟩

variable [DecidableEq Point]

theorem result_collectBag (password : Option Bytes) (data : PfxData) (bag : SafeBag) :
    result crates (collectBag crates password data bag) =
      Pkcs12.collectBag crates password data bag := by
  simp only [collectBag, keyBag, result_shroudedKeyBag, result_bind, result_orThrow,
    result_fetch, result_ite, result_pure, result_certBag]
  rfl

theorem result_collectInfo (password : Option Bytes) (data : PfxData) (info : ContentInfo) :
    result crates (collectInfo crates password data info) =
      Pkcs12.collectInfo crates password data info := by
  have hloop := @result_foldlM _ _ crates _ _ _ _ (@result_collectBag _ _ crates _ password)
  simp only [collectInfo, collectBags, result_bind, result_fetch, result_safeContents, hloop]
  rfl

theorem result_collectInfos (authSafe : Bytes) (password : Option Bytes) :
    result crates (collectInfos crates authSafe password) = (do
      let infos ← okOr (crates.contentInfos authSafe) .encoding
      let data ← infos.foldlM (Pkcs12.collectInfo crates password) ⟨none, []⟩
      refuse (data.key = none ∧ data.certificates = []) .encoding
      pure data) := by
  have hloop := @result_foldlM _ _ crates _ _ _ _ (@result_collectInfo _ _ crates _ password)
  simp only [collectInfos, result_bind, result_orThrow, result_fetch, result_pure, hloop]
  rfl

/-- The program with calls is the parser. -/
@[simp] theorem result_parsePfx (input : Bytes) (password : Option Bytes) :
    result crates (parsePfx crates input password) = Pkcs12.parsePfx crates input password := by
  simp only [parsePfx, openPfx, result_bind, result_orThrow, result_fetch, result_pure,
    result_collectInfos, result_verifyMacData, bind_assoc, Except.ok_bind]
  rfl

end Result

section Order

variable (crates)

abbrev Log : Type := List (Event Call.Answer)

/-- The MAC over the whole authenticated safe has been verified, with a key from the password. -/
def MacVerified (macData : MacData) (authSafe : Bytes) (password : Option Bytes) (log : Log) : Prop :=
  ∃ digest material, MacDigest.fromOid macData.mac.algorithm.oid = some digest ∧
    (material = bmpString (password.getD []) ∨ password.getD [] = [] ∧ material = []) ∧
    (⟨.hmac digest (digest.kdf crates 3 material macData.macSalt (macData.iterations.getD 1)
      digest.outLen) authSafe macData.mac.digest, true⟩ : Event Call.Answer) ∈ log

/-- Whatever is opened is opened after the file has been read and its MAC has been verified. -/
def MacFirst (input : Bytes) (password : Option Bytes) (log : Log) : Prop :=
  ∀ before event after, log = before ++ event :: after → event.request.opens = true →
    ∃ pfx authSafe, (⟨.pfx input, some pfx⟩ : Event Call.Answer) ∈ before ∧
      (⟨.authSafe pfx.authSafe.content, some authSafe⟩ : Event Call.Answer) ∈ before ∧
      ∀ macData ∈ pfx.macData, MacVerified crates macData authSafe password before

/-- The crates have answered every call. -/
def Answered (log : Log) : Prop := ∀ event ∈ log, event.answer = crates.answer event.request

variable {crates}

theorem traces_call {q : Call} {tr : Log} {answer : q.Answer}
    (h : Fallible.Traces (call q) tr (some (.ok answer))) : tr = [⟨q, answer⟩] := by
  obtain ⟨-, hnone⟩ | ⟨r, htr, hresult⟩ := Fallible.traces_request_iff.mp h
  · cases hnone
  · cases hresult
    exact htr

theorem traces_fetch {α : Type} {q : Call} {error : KeyError} {h : q.Answer = Option α} {tr : Log} {a : α}
    (htr : Fallible.Traces (fetch q error h) tr (some (.ok a))) :
    ∃ answer, h ▸ answer = some a ∧ tr = [⟨q, answer⟩] := by
  obtain ⟨answer, first, rest, rfl, hfirst, hrest⟩ := Fallible.traces_bind_ok_iff.mp htr
  obtain rfl := traces_call hfirst
  obtain ⟨rfl, hanswer⟩ := Fallible.traces_orThrow_iff.mp hrest
  exact ⟨answer, okOr_eq_ok_iff.mp (Option.some.inj hanswer).symm, rfl⟩

theorem traces_orElse_bind {α β : Type} {o : Option α} {error : KeyError} {f : α → Calling β}
    {tr : Log} {b : β} (h : Fallible.Traces (orElse o error >>= f) tr (some (.ok b))) :
    ∃ a, o = some a ∧ Fallible.Traces (f a) tr (some (.ok b)) := by
  obtain ⟨e, -, -, h⟩ | ⟨a, ha, h⟩ := Fallible.traces_orThrow_bind_iff.mp h
  · cases h
  · exact ⟨a, okOr_eq_ok_iff.mp ha, h⟩

theorem traces_refuse_bind {β : Type} {bad : Prop} [Decidable bad] {error : KeyError}
    {f : Unit → Calling β} {tr : Log} {b : β}
    (h : Fallible.Traces (orThrow (refuse bad error) >>= f) tr (some (.ok b))) :
    ¬ bad ∧ Fallible.Traces (f ()) tr (some (.ok b)) := by
  obtain ⟨e, -, -, h⟩ | ⟨_, hbad, h⟩ := Fallible.traces_orThrow_bind_iff.mp h
  · cases h
  · exact ⟨refuse_eq_ok_iff.mp hbad, h⟩

theorem macVerifies_traces {digest : MacDigest} {macData : MacData} {iterations : Nat}
    {authSafe material : Bytes} {tr : Log} {verified : Bool}
    (h : Fallible.Traces (macVerifies digest macData iterations authSafe material) tr (some (.ok verified))) :
    ∃ key, tr = [⟨.macKey digest material macData.macSalt iterations digest.outLen, key⟩,
      ⟨.hmac digest key authSafe macData.mac.digest, verified⟩] := by
  obtain ⟨key, first, second, rfl, hfirst, hsecond⟩ := Fallible.traces_bind_ok_iff.mp h
  obtain rfl := traces_call hfirst
  obtain rfl := traces_call hsecond
  exact ⟨key, rfl⟩

/-- A comparison that succeeded, with the key that the crates derive. -/
theorem MacVerified.of_macVerifies {digest : MacDigest} {macData : MacData} {authSafe material : Bytes}
    {password : Option Bytes} {tr log : Log} (hdigest : MacDigest.fromOid macData.mac.algorithm.oid = some digest)
    (hmaterial : material = bmpString (password.getD []) ∨ password.getD [] = [] ∧ material = [])
    (h : Fallible.Traces (macVerifies digest macData (macData.iterations.getD 1) authSafe material) tr
      (some (.ok true)))
    (hlog : tr ⊆ log) (hanswered : Answered crates log) : MacVerified crates macData authSafe password log := by
  obtain ⟨key, rfl⟩ := macVerifies_traces h
  obtain ⟨hderived, hverified⟩ := List.cons_subset.mp hlog
  cases hanswered _ hderived
  exact ⟨digest, material, hdigest, hmaterial, hverified (List.mem_singleton_self _)⟩

/-- The check of the MAC returns after a comparison that succeeded. -/
theorem verifyMac_verified {macData : MacData} {authSafe : Bytes} {password : Option Bytes}
    {tr : Log} (h : Fallible.Traces (verifyMac macData authSafe password) tr (some (.ok ())))
    (hanswered : Answered crates tr) : MacVerified crates macData authSafe password tr := by
  obtain ⟨digest, hdigest, h⟩ := traces_orElse_bind h
  obtain ⟨-, h⟩ := traces_refuse_bind h
  obtain ⟨verified, first, more, rfl, hfirst, h⟩ := Fallible.traces_bind_ok_iff.mp h
  cases verified with
  | true => exact .of_macVerifies hdigest (.inl rfl) hfirst (List.subset_append_left _ _) hanswered
  | false =>
    obtain ⟨verified, second, rest, rfl, hsecond, h⟩ := Fallible.traces_bind_ok_iff.mp h
    cases verified with
    | true =>
      by_cases hempty : password.getD [] = []
      · rw [if_pos hempty] at hsecond
        exact .of_macVerifies hdigest (.inr ⟨hempty, rfl⟩) hsecond (fun event hevent => by simp [hevent]) hanswered
      · rw [if_neg hempty] at hsecond
        cases (Fallible.traces_pure_iff.mp hsecond).2
    | false =>
      rw [if_neg (by decide)] at h
      split_ifs at h
      · cases (Fallible.traces_orThrow_iff.mp h).2
      · cases (Fallible.traces_orThrow_iff.mp h).2

theorem openPfx_traces {input : Bytes} {pfx : Pfx} {authSafe : Bytes} {tr : Log}
    (h : Fallible.Traces (openPfx input) tr (some (.ok (pfx, authSafe)))) :
    tr = [⟨.pfx input, some pfx⟩, ⟨.authSafe pfx.authSafe.content, some authSafe⟩] := by
  obtain ⟨pfx', first, more, rfl, hfirst, hmore⟩ := Fallible.traces_bind_ok_iff.mp h
  obtain ⟨-, hmore⟩ := traces_refuse_bind hmore
  obtain ⟨authSafe', second, rest, rfl, hsecond, hrest⟩ := Fallible.traces_bind_ok_iff.mp hmore
  obtain ⟨rfl, hresult⟩ := Fallible.traces_pure_iff.mp hrest
  cases hresult
  obtain ⟨_, rfl, rfl⟩ := traces_fetch hfirst
  obtain ⟨_, rfl, rfl⟩ := traces_fetch hsecond
  rfl

theorem only_call {P : Call → Prop} {q : Call} (h : P q) : Prog.Only P (call q) :=
  Fallible.only_request h

theorem only_fetch {P : Call → Prop} {α : Type} {q : Call} {error : KeyError} {h : q.Answer = Option α}
    (hq : P q) : Prog.Only P (fetch q error h) :=
  Fallible.only_bind (only_call hq) fun _ => trivial

theorem openPfx_only (input : Bytes) :
    Prog.Only (fun q => ¬ q.opens = true) (openPfx input) := by
  refine Fallible.only_bind (only_fetch (by simp [Call.opens])) fun pfx => ?_
  refine Fallible.only_bind trivial fun _ => ?_
  exact Fallible.only_bind (only_fetch (by simp [Call.opens])) fun authSafe => trivial

theorem macVerifies_only (digest : MacDigest) (macData : MacData) (iterations : Nat) (authSafe material : Bytes) :
    Prog.Only (fun q => ¬ q.opens = true) (macVerifies digest macData iterations authSafe material) :=
  Fallible.only_bind (only_call (by simp [Call.opens])) fun _ => only_call (by simp [Call.opens])

theorem verifyMacData_only (macData : Option MacData) (authSafe : Bytes) (password : Option Bytes) :
    Prog.Only (fun q => ¬ q.opens = true) (verifyMacData macData authSafe password) := by
  cases macData with
  | none => trivial
  | some macData =>
    refine Fallible.only_bind trivial fun digest => ?_
    refine Fallible.only_bind trivial fun _ => ?_
    refine Fallible.only_bind (macVerifies_only _ _ _ _ _) fun first => ?_
    cases first with
    | true => trivial
    | false =>
      refine Fallible.only_bind ?_ fun second => ?_
      · by_cases hempty : password.getD [] = []
        · rw [if_pos hempty]
          exact macVerifies_only _ _ _ _ _
        · rw [if_neg hempty]
          trivial
      · split_ifs <;> trivial

/-- In every run, nothing is opened before the MAC has verified. -/
theorem parsePfx_macFirst [DecidableEq Point] {input : Bytes} {password : Option Bytes} {tr : Log}
    {o : Option (Except KeyError PfxData)} (h : Fallible.Traces (parsePfx crates input password) tr o)
    (hanswered : Answered crates tr) : MacFirst crates input password tr := by
  rintro before event after rfl hopens
  obtain ⟨⟨pfx, authSafe⟩, first, between, rfl, hfirst, h⟩ :=
    Fallible.first_before (P := fun q => q.opens = true) (openPfx_only input) h hopens
  obtain ⟨_, check, rest, rfl, hcheck, h⟩ :=
    Fallible.first_before (P := fun q => q.opens = true)
      (verifyMacData_only pfx.macData authSafe password) h hopens
  obtain rfl := openPfx_traces hfirst
  refine ⟨pfx, authSafe, by simp, by simp, ?_⟩
  intro macData hmacData
  rw [Option.mem_def] at hmacData
  rw [hmacData] at hcheck
  obtain ⟨digest, material, hdigest, hmaterial, hmem⟩ :=
    verifyMac_verified hcheck fun event hevent => hanswered event (by simp [hevent])
  exact ⟨digest, material, hdigest, hmaterial, by simp [hmem]⟩

end Order

end Calls

section Bundle

variable [DecidableEq Point]

variable (crates) in
/-- What a parse of this file that returns this data has done. -/
structure Collects (input : Bytes) (password : Option Bytes) (data : PfxData) : Prop where
  holds : ∃ bags, BagsOf crates input password bags ∧ BagsHold crates password bags data
  /-- Another file with the same bags in the same order gives the same data. -/
  partition : ∀ input' data' bags, BagsOf crates input password bags →
    BagsOf crates input' password bags → parsePfx crates input' password = .ok data' → data' = data
  macFirst : ∃ log, Interaction.Prog.against (fun q => some (crates.answer q))
    (Calls.parsePfx crates input password) = (log, some (.ok data)) ∧
      Calls.MacFirst crates input password log

theorem parsePfx_collects {input : Bytes} {password : Option Bytes} {data : PfxData}
    (h : parsePfx crates input password = .ok data) : Collects crates input password data := by
  refine ⟨parsePfx_holds h, ?_, ?_⟩
  · intro input' data' same hsame hsame' h'
    obtain ⟨bags, hbags, hloop⟩ := parsePfx_bags h
    obtain ⟨bags', hbags', hloop'⟩ := parsePfx_bags h'
    obtain rfl := hbags.unique hsame
    obtain rfl := hbags'.unique hsame'
    exact Except.ok.inj (hloop'.symm.trans hloop)
  · have hresult := Interaction.Prog.against_total crates.answer
      (Calls.parsePfx crates input password)
    have htrace := Interaction.Trace.against (fun q => some (crates.answer q))
      (Calls.parsePfx crates input password)
    replace hresult : (Interaction.Prog.against (fun q => some (crates.answer q))
        (Calls.parsePfx crates input password)).2 = some (.ok data) :=
      hresult.trans (congrArg some ((Calls.result_parsePfx input password).trans h))
    have hanswered : Calls.Answered crates (Interaction.Prog.against (fun q => some (crates.answer q))
        (Calls.parsePfx crates input password)).1 := fun event hevent =>
      (Option.some.inj (Interaction.Prog.against_answers event hevent)).symm
    exact ⟨_, Prod.ext rfl hresult, Calls.parsePfx_macFirst htrace hanswered⟩

end Bundle

namespace Fixture

open Attestation.Fixture (ofHex)
open Keys.Fixture (edDer edSeed)

def bundleCert : Bytes := ofHex 5 0x3003020101

def certContents : Bytes :=
  ofHex 42 0x30283026060b2a864886f70d010c0a0103a0173015060a2a864886f70d01091601a00704053003020101

def keyContents : Bytes :=
  ofHex 44 0x30643062060b2a864886f70d010c0a0101a0533051020101300506032b6570042204209d61b19deffd5a60ba ++
  ofHex 44 0x844af492ec2cc44449c5697b326919703bac031cae7f60812100d75a980182b10ab7d54bfed3c964073a0ee1 ++
  ofHex 14 0x72f3daa62325af021a68f707511a

def bundleSafe : Bytes :=
  ofHex 44 0x3081b2303906092a864886f70d010701a02c042a30283026060b2a864886f70d010c0a0103a0173015060a2a ++
  ofHex 44 0x864886f70d01091601a00704053003020101307506092a864886f70d010701a068046630643062060b2a8648 ++
  ofHex 44 0x86f70d010c0a0101a0533051020101300506032b6570042204209d61b19deffd5a60ba844af492ec2cc44449 ++
  ofHex 44 0xc5697b326919703bac031cae7f60812100d75a980182b10ab7d54bfed3c964073a0ee172f3daa62325af021a ++
  ofHex 5 0x68f707511a

/-- A bundle with a certificate in one content info, a key in another one, and a MAC. -/
def bundleDer : Bytes :=
  ofHex 44 0x3081fb0201033081c606092a864886f70d010701a081b80481b53081b2303906092a864886f70d010701a02c ++
  ofHex 44 0x042a30283026060b2a864886f70d010c0a0103a0173015060a2a864886f70d01091601a00704053003020101 ++
  ofHex 44 0x307506092a864886f70d010701a068046630643062060b2a864886f70d010c0a0101a0533051020101300506 ++
  ofHex 44 0x032b6570042204209d61b19deffd5a60ba844af492ec2cc44449c5697b326919703bac031cae7f60812100d7 ++
  ofHex 44 0x5a980182b10ab7d54bfed3c964073a0ee172f3daa62325af021a68f707511a302d3021300906052b0e03021a ++
  ofHex 34 0x0500041475a3aba356667f19bd309fa8330f3fd657bc5f2c04080a58cf64530d823f

def bundleMacKey : Bytes := ofHex 20 0x9ba6ef317b8cb9f4760ab2fa2e51c066f0dce645

def bundleMac : Bytes := ofHex 20 0x75a3aba356667f19bd309fa8330f3fd657bc5f2c

def octetsAny (contents : Bytes) : X509.Any := ⟨.other 0x04, contents⟩

def dataOid : X509.Oid := ⟨[1, 2, 840, 113549, 1, 7, 1]⟩

def bundlePfx : Pfx :=
  ⟨3, ⟨dataOid, octetsAny bundleSafe⟩,
    some ⟨⟨⟨⟨[1, 3, 14, 3, 2, 26]⟩, some ⟨.other 0x05, []⟩⟩, bundleMac⟩, smegSalt, none⟩⟩

def certValue : X509.Any := ⟨.other 0x30, certContents.drop 21⟩

def keyValue : X509.Any := ⟨.other 0x30, edDer.drop 2⟩

def bundleCrates : Crates Unit Unit :=
  { Keys.Fixture.testCrates with
    pfx := fun input => if input = bundleDer then some bundlePfx else none
    contentInfos := fun der =>
      if der = bundleSafe then
        some [⟨dataOid, octetsAny certContents⟩, ⟨dataOid, octetsAny keyContents⟩]
      else none
    safeBags := fun contents =>
      if contents = certContents then some [⟨⟨[1, 2, 840, 113549, 1, 12, 10, 1, 3]⟩, certValue⟩]
      else if contents = keyContents then some [⟨⟨[1, 2, 840, 113549, 1, 12, 10, 1, 1]⟩, keyValue⟩]
      else none
    decodeOctets := fun value => if value.tag = .other 0x04 then some value.value else none
    decodeCertBag := fun value =>
      if value = certValue then some ⟨⟨[1, 2, 840, 113549, 1, 9, 22, 1]⟩, octetsAny bundleCert⟩
      else none
    anyDer := fun value => if value = keyValue then some edDer else none
    digest := fun _ bytes =>
      if bytes = List.replicate 64 3 ++ (MacDigest.fill 64 smegSalt ++ MacDigest.fill 64 smeg) then
        bundleMacKey
      else List.replicate 20 0
    hmacVerify := fun digest key data expected =>
      digest = .sha1 ∧ key = bundleMacKey ∧ data = bundleSafe ∧ expected = bundleMac }

end Fixture

/-- The bundle is read with the password `smeg`. -/
theorem parsePfx_collects_bundle :
    Collects Fixture.bundleCrates Fixture.bundleDer (some [0x73, 0x6d, 0x65, 0x67])
      ⟨some ⟨.ed25519, .ec Keys.Fixture.edSeed⟩, [Fixture.bundleCert]⟩ :=
  parsePfx_collects (by decide)

end Pkcs12
