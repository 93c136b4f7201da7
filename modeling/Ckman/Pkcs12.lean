import Ckman.KeyFile

/-!
# PKCS#12 bundles

`parse_pfx` for plaintext and PBES2-encrypted safe contents, key bags, shrouded
key bags and X.509 certificate bags, with the password-integrity MAC. The
digests, the DER decoders and the ciphers are parameters.
-/
namespace Pkcs12

open Host
open Text
open X509 (Oid Any)
open Attestation (AlgorithmIdentifier)
open Pem (KeyError)
open Keys (ImportedKey EncryptionScheme EncryptedPrivateKeyInfo checkEncryptionScheme fromPkcs8)

def oidData : String := "1.2.840.113549.1.7.1"
def oidEncryptedData : String := "1.2.840.113549.1.7.6"
def oidKeyBag : String := "1.2.840.113549.1.12.10.1.1"
def oidShroudedKeyBag : String := "1.2.840.113549.1.12.10.1.2"
def oidCertBag : String := "1.2.840.113549.1.12.10.1.3"
def oidX509Cert : String := "1.2.840.113549.1.9.22.1"

/-- Bound on password-stretching work accepted from a file. -/
def maxIterations : Nat := 10000000

structure ContentInfo where
  contentType : Oid
  content : Any
  deriving DecidableEq, Repr

structure DigestInfo where
  algorithm : AlgorithmIdentifier
  digest : Bytes
  deriving DecidableEq, Repr

structure MacData where
  mac : DigestInfo
  macSalt : Bytes
  iterations : Option Nat
  deriving DecidableEq, Repr

structure Pfx where
  version : UInt8
  authSafe : ContentInfo
  macData : Option MacData
  deriving DecidableEq, Repr

/-- A bag; its attributes are not read. -/
structure SafeBag where
  bagId : Oid
  bagValue : Any
  deriving DecidableEq, Repr

structure CertBag where
  certId : Oid
  certValue : Any
  deriving DecidableEq, Repr

structure EncryptedContentInfo where
  contentType : Oid
  encryption : AlgorithmIdentifier
  encryptedContent : Option Bytes
  deriving DecidableEq, Repr

structure EncryptedData where
  version : UInt8
  content : EncryptedContentInfo
  deriving DecidableEq, Repr

/-- The first private key and every X.509 certificate, in file order. -/
structure PfxData where
  key : Option ImportedKey
  certificates : List Bytes
  deriving DecidableEq, Repr

inductive MacDigest where
  | sha1 | sha256 | sha384 | sha512
  deriving DecidableEq, Repr

structure Crates (Secret Point : Type) extends Keys.Crates Secret Point where
  /-- `Pfx::from_der`. -/
  pfx : Bytes → Option Pfx
  /-- `Vec::<ContentInfo>::from_der`. -/
  contentInfos : Bytes → Option (List ContentInfo)
  /-- `Vec::<SafeBag>::from_der`. -/
  safeBags : Bytes → Option (List SafeBag)
  /-- `AnyRef::decode_as::<OctetStringRef>`. -/
  decodeOctets : Any → Option Bytes
  decodeEncryptedData : Any → Option EncryptedData
  decodeEncryptedKey : Any → Option EncryptedPrivateKeyInfo
  decodeCertBag : Any → Option CertBag
  /-- `AnyRef::to_der`. -/
  anyDer : Any → Option Bytes
  /-- `EncryptionScheme::try_from` an algorithm identifier. -/
  encryptionScheme : AlgorithmIdentifier → Option EncryptionScheme
  /-- `EncryptionScheme::decrypt` with a password. -/
  decrypt : EncryptionScheme → Bytes → Bytes → Option Bytes
  digest : MacDigest → Bytes → Bytes
  /-- `verify_slice` of the HMAC with this key over this data. -/
  hmacVerify : MacDigest → Bytes → Bytes → Bytes → Bool

variable {Secret Point : Type} (crates : Crates Secret Point)

namespace MacDigest

def fromOid (oid : Oid) : Option MacDigest :=
  if oid.dotted = "1.3.14.3.2.26" then some .sha1
  else if oid.dotted = "2.16.840.1.101.3.4.2.1" then some .sha256
  else if oid.dotted = "2.16.840.1.101.3.4.2.2" then some .sha384
  else if oid.dotted = "2.16.840.1.101.3.4.2.3" then some .sha512
  else none

def outLen : MacDigest → Nat
  | sha1 => 20
  | sha256 => 32
  | sha384 => 48
  | sha512 => 64

def blockLen : MacDigest → Nat
  | sha1 | sha256 => 64
  | sha384 | sha512 => 128

/-- `iter().cycle().take(n)`. -/
def cycleTake (n : Nat) (material : Bytes) : Bytes :=
  if material = [] then [] else (List.range n).map fun i => material.getD (i % material.length) 0

/-- Repeat material to a multiple of the block; empty material stays empty. -/
def fill (v : Nat) (material : Bytes) : Bytes :=
  cycleTake (v * ((material.length + v - 1) / v)) material

/-- The carry loop over the bytes of a block, last byte first. -/
def addReversed : Bytes → Bytes → Nat → Bytes
  | byte :: bytes, add :: adds, carry =>
    UInt8.ofNat (byte.toNat + add.toNat + carry) ::
      addReversed bytes adds ((byte.toNat + add.toNat + carry) / 256)
  | bytes, _, _ => bytes

/-- `I_j = (I_j + B + 1) mod 2^(8v)`. -/
def addBlock (b block : Bytes) : Bytes := (addReversed block.reverse b.reverse 1).reverse

/-- The digest, applied to its own output until it has run `iterations` times. -/
def stretch (self : MacDigest) (input : Bytes) (iterations : Nat) : Bytes :=
  (crates.digest self)^[iterations - 1] (crates.digest self input)

/-- The `while` loop; every round adds one digest to `out`. -/
def kdfLoop (self : MacDigest) (d : Bytes) (iterations outLen : Nat) : Nat → Bytes → Bytes → Bytes
  | 0, _, out => out
  | fuel + 1, i, out =>
    if out.length < outLen then
      let a := stretch crates self (d ++ i) iterations
      let b := cycleTake self.blockLen a
      kdfLoop self d iterations outLen fuel ((i.toChunks self.blockLen).flatMap (addBlock b)) (out ++ a)
    else out

/-- The password-based key derivation for the purpose `id`. -/
def kdf (self : MacDigest) (id : UInt8) (bmp salt : Bytes) (iterations outLen : Nat) : Bytes :=
  let v := self.blockLen
  (kdfLoop crates self (List.replicate v id) iterations outLen outLen (fill v salt ++ fill v bmp) []).take
    outLen

end MacDigest

def utf16Bytes (c : Char) : Bytes :=
  if c.toNat < 0x10000 then BigEndian.encode 2 c.toNat
  else BigEndian.encode 2 (0xd800 + (c.toNat - 0x10000) / 0x400) ++
    BigEndian.encode 2 (0xdc00 + (c.toNat - 0x10000) % 0x400)

def bmpString (password : Bytes) : Bytes := (fromUtf8Lossy password).flatMap utf16Bytes ++ [0, 0]

def macVerifies (digest : MacDigest) (macData : MacData) (iterations : Nat)
    (authSafe material : Bytes) : Bool :=
  let key := digest.kdf crates 3 material macData.macSalt iterations digest.outLen
  crates.hmacVerify digest key authSafe macData.mac.digest

def verifyMac (macData : MacData) (authSafe : Bytes) (password : Option Bytes) :
    Except KeyError Unit := do
  let digest ← okOr (MacDigest.fromOid macData.mac.algorithm.oid) .unsupported
  let iterations := macData.iterations.getD 1
  refuse (iterations = 0 ∨ iterations > maxIterations) .encoding
  let passwordBytes := password.getD []
  -- OpenSSL derives the key for an empty password from no material at all.
  if macVerifies crates digest macData iterations authSafe (bmpString passwordBytes) then pure ()
  else if passwordBytes = [] ∧ macVerifies crates digest macData iterations authSafe [] then pure ()
  else if password = none then .error .password
  else .error .macMismatch

/-- `if let Some(mac_data) = &pfx.mac_data`. -/
def verifyMacData (macData : Option MacData) (authSafe : Bytes) (password : Option Bytes) :
    Except KeyError Unit :=
  match macData with
  | none => pure ()
  | some macData => verifyMac crates macData authSafe password

/-- The contents of an encrypted content info; an empty password is tried too. -/
def decryptContents (data : EncryptedData) (password : Option Bytes) : Except KeyError Bytes := do
  refuse (data.version ≠ 0 ∨ data.content.contentType.dotted ≠ oidData) .encoding
  let scheme ← okOr (crates.encryptionScheme data.content.encryption) .unsupported
  checkEncryptionScheme crates.toCrates scheme
  let ciphertext ← okOr data.content.encryptedContent .encoding
  okOr (crates.decrypt scheme (password.getD []) ciphertext) .password

def safeContents (info : ContentInfo) (password : Option Bytes) : Except KeyError Bytes :=
  if info.contentType.dotted = oidData then okOr (crates.decodeOctets info.content) .encoding
  else if info.contentType.dotted = oidEncryptedData then do
    let data ← okOr (crates.decodeEncryptedData info.content) .encoding
    decryptContents crates data password
  else .error .unsupported

def keyBag (bag : SafeBag) : Except KeyError Bytes := okOr (crates.anyDer bag.bagValue) .encoding

/-- The PKCS#8 key in a shrouded bag; an empty password is tried too. -/
def shroudedKeyBag (bag : SafeBag) (password : Option Bytes) : Except KeyError Bytes := do
  let encrypted ← okOr (crates.decodeEncryptedKey bag.bagValue) .encoding
  checkEncryptionScheme crates.toCrates encrypted.encryptionAlgorithm
  okOr (crates.decryptKey encrypted (password.getD [])) .password

def certBag (bag : SafeBag) (data : PfxData) : Except KeyError PfxData := do
  let cert ← okOr (crates.decodeCertBag bag.bagValue) .encoding
  if cert.certId.dotted ≠ oidX509Cert then pure data
  else do
    let octets ← okOr (crates.decodeOctets cert.certValue) .encoding
    pure { data with certificates := data.certificates ++ [octets] }

/-- One bag. Extra keys and other bags carry nothing importable. -/
def collectBag [DecidableEq Point] (password : Option Bytes) (data : PfxData) (bag : SafeBag) :
    Except KeyError PfxData :=
  if bag.bagId.dotted = oidKeyBag ∧ data.key = none then do
    let der ← keyBag crates bag
    let key ← fromPkcs8 crates.toCrates der
    pure { data with key := some key }
  else if bag.bagId.dotted = oidShroudedKeyBag ∧ data.key = none then do
    let der ← shroudedKeyBag crates bag password
    let key ← fromPkcs8 crates.toCrates der
    pure { data with key := some key }
  else if bag.bagId.dotted = oidCertBag then certBag crates bag data
  else pure data

def collectBags [DecidableEq Point] (contents : Bytes) (password : Option Bytes) (data : PfxData) :
    Except KeyError PfxData := do
  let bags ← okOr (crates.safeBags contents) .encoding
  bags.foldlM (collectBag crates password) data

def collectInfo [DecidableEq Point] (password : Option Bytes) (data : PfxData) (info : ContentInfo) :
    Except KeyError PfxData := do
  let contents ← safeContents crates info password
  collectBags crates contents password data

def parsePfx [DecidableEq Point] (input : Bytes) (password : Option Bytes) :
    Except KeyError PfxData := do
  let pfx ← okOr (crates.pfx input) .encoding
  refuse (pfx.version ≠ 3 ∨ pfx.authSafe.contentType.dotted ≠ oidData) .encoding
  let authSafe ← okOr (crates.decodeOctets pfx.authSafe.content) .encoding
  verifyMacData crates pfx.macData authSafe password
  let infos ← okOr (crates.contentInfos authSafe) .encoding
  let data ← infos.foldlM (collectInfo crates password) ⟨none, []⟩
  refuse (data.key = none ∧ data.certificates = []) .encoding
  pure data

def keyFromPfx [DecidableEq Point] (input : Bytes) (password : Option Bytes) :
    Except KeyError ImportedKey := do
  let data ← parsePfx crates input password
  okOr data.key .encoding

end Pkcs12
