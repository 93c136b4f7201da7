import Ckman.Canokey
import Mathlib.Logic.Function.Basic

/-!
# The PIV applet behind libcanokey

The types and operations of libcanokey that the PIV code uses, an abstract card
with the state these operations act on, and what is documented about them:
each operation leaves the card alone or applies its one change, and it applies
it when it succeeds. Nothing is assumed about how a failed operation ends.
-/
namespace Piv

open Host Interaction

inductive ManagementKeyAlgorithm where
  | tdes | aes192
  deriving DecidableEq, Repr

inductive ManagementTouchPolicy where
  | never | always
  deriving DecidableEq, Repr

structure Pin where
  bytes : Bytes
  deriving DecidableEq, Repr

structure Puk where
  bytes : Bytes
  deriving DecidableEq, Repr

structure ManagementKey where
  algorithm : ManagementKeyAlgorithm
  bytes : Bytes
  deriving DecidableEq, Repr

inductive ManagementAuthentication where
  | external (key : ManagementKey)
  | mutualChallenge (key : ManagementKey) (challenge : Bytes)
  deriving DecidableEq, Repr

inductive Access where
  | none
  | pin (pin : Pin)
  | management (authentication : ManagementAuthentication)
  | pinAndManagement (pin : Pin) (management : ManagementAuthentication)
  deriving DecidableEq, Repr

structure ObjectId where
  bytes : Bytes
  deriving DecidableEq, Repr

inductive KnownOrUnknown (α : Type) where
  | known (value : α)
  | unknown (raw : UInt8)
  deriving DecidableEq, Repr

inductive KeyOrigin where
  | notPresent | generated | imported
  deriving DecidableEq, Repr

inductive PinPolicy where
  | default | never | once | always
  deriving DecidableEq, Repr

inductive TouchPolicy where
  | default | never | always | cached
  deriving DecidableEq, Repr

structure PublicKey where
  algorithm : UInt8
  point : Bytes
  deriving DecidableEq, Repr

/-- The metadata fields that the code reads. -/
structure MetadataFields where
  algorithmId : Option UInt8
  pinPolicy : Option (KnownOrUnknown PinPolicy)
  touchPolicy : Option (KnownOrUnknown TouchPolicy)
  origin : Option (KnownOrUnknown KeyOrigin)
  isDefault : Option (KnownOrUnknown Bool)
  publicKey : Option PublicKey
  deriving DecidableEq, Repr

inductive MetadataReference where
  | pin | puk | management
  deriving DecidableEq, Repr

structure Tlv where
  /-- `TlvWriter::push` onto what was written so far; it may exceed a limit. -/
  push : Bytes → UInt8 → Bytes → Option Bytes
  /-- `TlvReader::next`: the tag and the value of a field, and the rest. -/
  next : Bytes → Except Error (Option (Nat × Bytes × Bytes))

/-- The functions of libcanokey, for one device profile, and of the PBKDF2
crate. An operation factory may refuse its arguments before any command. -/
structure Crates where
  tlv : Tlv
  checkPin : Bytes → Except Error Unit
  checkPuk : Bytes → Except Error Unit
  checkManagementKey : ManagementKeyAlgorithm → Bytes → Except Error Unit
  checkMutual : ManagementKey → Bytes → Except Error Unit
  blockLen : ManagementKeyAlgorithm → Nat
  pbkdf2HmacSha1 : Bytes → Bytes → Nat → (n : Nat) → { output : Bytes // output.length = n }
  readObject : ObjectId → Access → Except Error (Operation Bytes)
  writeObject : ObjectId → Bytes → Access → Except Error (Operation Unit)
  setManagementKey : ManagementKey → ManagementTouchPolicy → Access → Except Error (Operation Unit)
  authenticateManagementKey : ManagementAuthentication → Except Error (Operation Unit)
  pinManaged : Option Bytes → Access → Except Error (Operation Bytes)
  verifyPin : Pin → Except Error (Operation Unit)
  changePin : Pin → Pin → Except Error (Operation Unit)
  changePuk : Puk → Puk → Except Error (Operation Unit)
  unblockPin : Puk → Pin → Except Error (Operation Unit)
  resetPinPukRetries : UInt8 → UInt8 → Access → Except Error (Operation Unit)
  metadata : MetadataReference → Access → Except Error (Operation MetadataFields)

namespace Crates

variable (crates : Crates)

/-- `Pin::from_bytes`. -/
def pin (bytes : Bytes) : Except Error Pin := (crates.checkPin bytes).map (fun _ => ⟨bytes⟩)

/-- `Puk::from_bytes`. -/
def puk (bytes : Bytes) : Except Error Puk := (crates.checkPuk bytes).map (fun _ => ⟨bytes⟩)

/-- `ManagementKey::from_bytes`. -/
def managementKey (algorithm : ManagementKeyAlgorithm) (bytes : Bytes) :
    Except Error ManagementKey :=
  (crates.checkManagementKey algorithm bytes).map (fun _ => ⟨algorithm, bytes⟩)

/-- `ManagementAuthentication::mutual`. -/
def mutualAuthentication (key : ManagementKey) (challenge : Bytes) : Except Error ManagementAuthentication :=
  (crates.checkMutual key challenge).map (fun _ => .mutualChallenge key challenge)

variable {crates}

theorem pin_bytes {bytes : Bytes} {pin : Pin} (h : crates.pin bytes = .ok pin) :
    pin.bytes = bytes := by
  rw [Crates.pin] at h
  cases hc : crates.checkPin bytes <;> rw [hc] at h <;> cases h
  rfl

theorem managementKey_eq {algorithm : ManagementKeyAlgorithm} {bytes : Bytes} {key : ManagementKey}
    (h : crates.managementKey algorithm bytes = .ok key) : key = ⟨algorithm, bytes⟩ := by
  rw [Crates.managementKey] at h
  cases hc : crates.checkManagementKey algorithm bytes <;> rw [hc] at h <;> cases h
  rfl

end Crates

def defaultPin : Bytes := [0x31, 0x32, 0x33, 0x34, 0x35, 0x36]
def defaultPuk : Bytes := [0x31, 0x32, 0x33, 0x34, 0x35, 0x36, 0x37, 0x38]

inductive Mutation where
  | setManagementKey (key : ManagementKey)
  | putData (id : ObjectId) (value : Bytes)
  | changePin (new : Bytes)
  | changePuk (new : Bytes)
  | pukFailed
  | unblockPin (new : Bytes)
  | setRetries (pukRetries : Nat)
  deriving DecidableEq, Repr

/-- The card state that the results speak about; `applied` is a history. -/
structure Card where
  managementKey : ManagementKey
  objects : ObjectId → Option Bytes
  pin : Bytes
  puk : Bytes
  pukLimit : Nat
  pukRetries : Nat
  /-- The changes the card has applied, oldest first. -/
  applied : List Mutation

namespace Card

/-- The effect of one change. An empty object is a deleted object, the PUK
counter returns to its limit when the PUK is presented, and setting the retry
limits resets the PIN and the PUK to their defaults. -/
def effect (card : Card) : Mutation → Card
  | .setManagementKey key => { card with managementKey := key }
  | .putData id value =>
    { card with objects := Function.update card.objects id (if value = [] then none else some value) }
  | .changePin new => { card with pin := new }
  | .changePuk new => { card with puk := new, pukRetries := card.pukLimit }
  | .pukFailed => { card with pukRetries := card.pukRetries - 1 }
  | .unblockPin new => { card with pin := new, pukRetries := card.pukLimit }
  | .setRetries n =>
    { card with pin := defaultPin, puk := defaultPuk, pukLimit := n, pukRetries := n }

def apply (card : Card) (m : Mutation) : Card :=
  { card.effect m with applied := card.applied ++ [m] }

def applyAll (card : Card) (ms : List Mutation) : Card := ms.foldl apply card

@[simp] theorem applyAll_nil (card : Card) : card.applyAll [] = card := rfl
@[simp] theorem applyAll_cons (card : Card) (m : Mutation) (ms : List Mutation) :
    card.applyAll (m :: ms) = (card.apply m).applyAll ms := rfl

theorem applyAll_append (card : Card) (ms ns : List Mutation) :
    card.applyAll (ms ++ ns) = (card.applyAll ms).applyAll ns := by
  simp [applyAll]

theorem applied_applyAll (card : Card) (ms : List Mutation) :
    (card.applyAll ms).applied = card.applied ++ ms := by
  induction ms generalizing card with
  | nil => simp
  | cons m ms ih => rw [applyAll_cons, ih]; simp [apply]

theorem apply_putData_objects_self (card : Card) (id : ObjectId) (value : Bytes) :
    (card.apply (.putData id value)).objects id = if value = [] then none else some value := by
  simp [apply, effect]

theorem apply_putData_objects_other (card : Card) {id other : ObjectId} (value : Bytes)
    (h : other ≠ id) : (card.apply (.putData id value)).objects other = card.objects other := by
  simp [apply, effect, h]

end Card

def Mutation.OfPuk : Mutation → Prop
  | .changePuk _ => True
  | .pukFailed => True
  | _ => False

/-- PUK commands change nothing but the PUK and its counter. -/
theorem Card.applyAll_ofPuk (card : Card) {ms : List Mutation} (h : ∀ m ∈ ms, m.OfPuk) :
    (card.applyAll ms).managementKey = card.managementKey ∧
      (card.applyAll ms).objects = card.objects ∧ (card.applyAll ms).pin = card.pin := by
  induction ms generalizing card with
  | nil => exact ⟨rfl, rfl, rfl⟩
  | cons m ms ih =>
    obtain ⟨hk, ho, hp⟩ := ih (card.apply m) (fun n hn => h n (List.mem_cons_of_mem m hn))
    have hm := h m (by simp)
    rw [Card.applyAll_cons, hk, ho, hp]
    cases m with
    | changePuk new => exact ⟨rfl, rfl, rfl⟩
    | pukFailed => exact ⟨rfl, rfl, rfl⟩
    | _ => exact hm.elim

variable {E σ T : Type}

/-- What an operation may do: the card before, how the run of the operation
ended (nothing when it was stopped), the card after. -/
abbrev Behaviour (E T : Type) := Card → Option (Except (DriveError E) T) → Card → Prop

/-- Every run of the operation behaves as stated. -/
def Acts (device : Device E σ) (view : σ → Card) (operation : Except Error (Operation T))
    (behaviour : Behaviour E T) : Prop :=
  ∀ op, operation = .ok op → ∀ w o u, Fallible.Runs (environment device) (execute op) w o u →
    behaviour (view w.card) o (view u.card)

def Keeps : Behaviour E T := fun c _ d => d = c

/-- An object is read as it is; `NotFound` means that it is absent. -/
def Reads (id : ObjectId) : Behaviour E Bytes := fun c o d =>
  d = c ∧ (∀ value, o = some (.ok value) → c.objects id = some value) ∧
    ∀ e, o = some (.error (.protocol e)) → e.kind = .notFound → c.objects id = none

/-- The change is fully applied or not applied, and applied on success. -/
def Commits (m : Mutation) : Behaviour E T := fun c o d =>
  (d = c ∧ ∀ t, o ≠ some (.ok t)) ∨ d = c.apply m

/-- Success means that the PUK was presented and the change applied. -/
def PresentsPuk (m : Mutation) : Behaviour E T := fun c o d =>
  ∀ t, o = some (.ok t) → 0 < c.pukRetries ∧ d = c.apply m

def Completes (m : Mutation) : Behaviour E T := fun c o d => ∀ t, o = some (.ok t) → d = c.apply m

/-- Only PUK commands are applied, and success leaves no PUK retries. -/
def BlocksPuk : Behaviour E T := fun c o d =>
  (∃ ms, (∀ m ∈ ms, m.OfPuk) ∧ d = c.applyAll ms) ∧ ∀ t, o = some (.ok t) → d.pukRetries = 0

def instruction (command : Bytes) : UInt8 := command.getD 1 0

def putDataInstruction : UInt8 := 0xdb
def setManagementKeyInstruction : UInt8 := 0xff

/-- Neither PUT DATA nor SET MANAGEMENT KEY. -/
def Harmless (command : Bytes) : Prop :=
  instruction command ≠ putDataInstruction ∧ instruction command ≠ setManagementKeyInstruction

structure Tlv.Documented (tlv : Tlv) : Prop where
  next_nil : tlv.next [] = .ok none
  /-- A field that was written is read back, whatever follows it. -/
  next_push : ∀ written tag value out, tlv.push written tag value = some out →
    ∃ field, out = written ++ field ∧
      ∀ rest, tlv.next (field ++ rest) = .ok (some (tag.toNat, value, rest))
  /-- A field takes up at least one byte. -/
  next_shrinks : ∀ bytes tag value rest, tlv.next bytes = .ok (some (tag, value, rest)) →
    rest.length < bytes.length

structure Documented (crates : Crates) (device : Device E σ) (view : σ → Card) : Prop where
  tlv : crates.tlv.Documented
  readObject : ∀ id access, Acts device view (crates.readObject id access) (Reads id)
  readObject_only : ∀ id access op, crates.readObject id access = .ok op → op.Only Harmless
  /-- Only the card says that an object is absent. -/
  readObject_refused : ∀ id access e, crates.readObject id access = .error e → e.kind ≠ .notFound
  writeObject : ∀ id value access,
    Acts device view (crates.writeObject id value access) (Commits (.putData id value))
  setManagementKey : ∀ key touch access,
    Acts device view (crates.setManagementKey key touch access) (Commits (.setManagementKey key))
  authenticateManagementKey : ∀ authentication,
    Acts device view (crates.authenticateManagementKey authentication) Keeps
  verifyPin : ∀ pin, Acts device view (crates.verifyPin pin) Keeps
  changePin : ∀ old new, Acts device view (crates.changePin old new) (Commits (.changePin new.bytes))
  changePuk : ∀ old new,
    Acts device view (crates.changePuk old new) (PresentsPuk (.changePuk new.bytes))
  unblockPin : ∀ puk new,
    Acts device view (crates.unblockPin puk new) (PresentsPuk (.unblockPin new.bytes))
  resetPinPukRetries : ∀ pinRetries pukRetries access,
    Acts device view (crates.resetPinPukRetries pinRetries pukRetries access)
      (Completes (.setRetries pukRetries.toNat))
  /-- Recovering a stored key only reads. -/
  pinManaged_none : ∀ access, Acts device view (crates.pinManaged none access) Keeps
  /-- Completing the protection blocks the PUK. -/
  pinManaged_some : ∀ replacement access,
    Acts device view (crates.pinManaged (some replacement) access) BlocksPuk
  metadata : ∀ reference access, Acts device view (crates.metadata reference access) Keeps

/-- What `run` does with an operation: it is refused before any command, or it
behaves as documented. -/
theorem Acts.run {device : Device E σ} {view : σ → Card} {operation : Except Error (Operation T)}
    {behaviour : Behaviour E T} (h : Acts device view operation behaviour) {w u : World σ}
    {o : Option (Except (PivError E) T)}
    (hr : Fallible.Runs (environment device) (Piv.run operation) w o u) :
    (∃ e, o = some (.error (.drive (.protocol e))) ∧ u = w ∧ operation = .error e) ∨
      ∃ o', o = o'.map (Except.mapError .drive) ∧ behaviour (view w.card) o' (view u.card) := by
  rcases Runs.run_iff.mp hr with ⟨e, he, ho, hu⟩ | ⟨op, o', hop, ho, hx⟩
  · exact .inl ⟨e, ho, hu, he⟩
  · exact .inr ⟨o', ho, h op hop w o' u hx⟩

end Piv
