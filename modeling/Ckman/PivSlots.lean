import Ckman.PivCard

/-!
# Key slots and certificate containers

The slots of the PIV applet with the references under which the code names
them, and what a key generation is asked for. Slot F9 holds the attestation
signer; it is no ordinary key slot.
-/
namespace Piv

open Host

structure RetiredSlot where
  index : Nat
  positive : 1 ≤ index
  bounded : index ≤ 20
  deriving DecidableEq, Repr

inductive Slot where
  | authentication | signature | keyManagement | cardAuthentication
  | retired (slot : RetiredSlot)
  deriving DecidableEq, Repr

/-- `Slot::reference`. -/
def Slot.reference : Slot → UInt8
  | authentication => 0x9a
  | signature => 0x9c
  | keyManagement => 0x9d
  | cardAuthentication => 0x9e
  | retired slot => UInt8.ofNat (0x81 + slot.index)

def slotName (slot : Slot) : String := hexEncode [slot.reference]

/-- A certificate container, separate from the private-key slots. -/
inductive CertificateReference where
  | key (slot : Slot)
  | attestation
  deriving DecidableEq, Repr

def certificateSlotName : CertificateReference → String
  | .key slot => slotName slot
  | .attestation => "f9"

inductive KeyReference where
  | key (slot : Slot)
  | attestation
  deriving DecidableEq, Repr

namespace KeyReference

def certificate : KeyReference → CertificateReference
  | key slot => .key slot
  | attestation => .attestation

def name (reference : KeyReference) : String := certificateSlotName reference.certificate

end KeyReference

inductive Algorithm where
  | rsa1024 | rsa2048 | rsa3072 | rsa4096 | eccP256 | eccP384 | eccP521 | secp256k1 | sm2
  | ed25519 | x25519 | mlDsa65 | mlKem768
  deriving DecidableEq, Repr

structure KeyParameters where
  slot : Slot
  algorithm : Algorithm
  pinPolicy : PinPolicy
  touchPolicy : TouchPolicy
  deriving DecidableEq, Repr

end Piv
