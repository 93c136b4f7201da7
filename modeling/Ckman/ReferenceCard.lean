import Ckman.Der
import Ckman.Pivman

/-!
# A card and a codec that behave as documented

A small card that answers the commands of the PIV operations, the operations
that issue them, and a codec for short fields. They satisfy everything that is
documented about libcanokey, so the documented behaviour is consistent, and
concrete runs can be computed with them. Block ciphers, PBKDF2 and the keys in the
slots enter through known answers.
-/
namespace Reference

open Host Interaction Piv

def malformed : Error := (Error.new .invalidResponse).at .parsing

def tlvLimit : Nat := 4096

def nextField (bytes : Bytes) : Except Error (Option (Nat × Bytes × Bytes)) :=
  if bytes = [] then .ok none
  else
    match Der.read bytes with
    | some (tag, value, rest) =>
      if (Der.tlv tag value).length ≤ tlvLimit then .ok (some (tag.toNat, value, rest)) else .error malformed
    | none => .error malformed

/-- Fields with tags of one byte and lengths in as few bytes as it takes. -/
def tlv : Tlv where
  push written tag value :=
    if written.length + (Der.tlv tag value).length ≤ tlvLimit then some (written ++ Der.tlv tag value) else none
  next := nextField

theorem push_eq_some_iff {written value out : Bytes} {tag : UInt8} :
    tlv.push written tag value = some out ↔
      written.length + (Der.tlv tag value).length ≤ tlvLimit ∧ out = written ++ Der.tlv tag value := by
  by_cases h : written.length + (Der.tlv tag value).length ≤ tlvLimit
  · simp [tlv, h, eq_comm]
  · simp [tlv, h]

theorem next_eq_some_iff {bytes value rest : Bytes} {tag : Nat} :
    tlv.next bytes = .ok (some (tag, value, rest)) ↔
      ∃ t : UInt8, tag = t.toNat ∧ bytes = Der.tlv t value ++ rest ∧ (Der.tlv t value).length ≤ tlvLimit := by
  constructor
  · intro h
    by_cases hbytes : bytes = []
    · simp [tlv, nextField, hbytes] at h
    simp only [tlv, nextField, if_neg hbytes] at h
    split at h
    · rename_i t value' rest' hread
      split at h
      · rename_i hlimit
        cases h
        exact ⟨t, rfl, (Der.read_eq_some_iff.mp hread).1, hlimit⟩
      · cases h
    · cases h
  · rintro ⟨t, rfl, rfl, hlimit⟩
    have hlength : value.length < 256 ^ 127 := by
      have hlong := (Der.length_tlv t value).1
      exact lt_of_le_of_lt (show value.length ≤ tlvLimit by omega) (by rw [tlvLimit]; norm_num)
    have hbytes : Der.tlv t value ++ rest ≠ [] := by simp [Der.tlv]
    simp only [tlv, nextField, if_neg hbytes, Der.read_tlv_append hlength, if_pos hlimit]

theorem tlv_documented : tlv.Documented where
  next_nil := rfl
  next_push := by
    intro written tag value out hout
    obtain ⟨hlimit, rfl⟩ := push_eq_some_iff.mp hout
    exact ⟨Der.tlv tag value, rfl, fun rest => next_eq_some_iff.mpr ⟨tag, rfl, rfl, by omega⟩⟩
  next_shrinks := by
    intro bytes tag value rest h
    obtain ⟨t, -, rfl, -⟩ := next_eq_some_iff.mp h
    have hlength := (Der.length_tlv t value).1
    rw [List.length_append]
    omega

structure CipherVector where
  key : ManagementKey
  plain : Bytes
  cipher : Bytes

/-- A PBKDF2-HMAC-SHA1 vector with 10000 iterations and 24 bytes of output. -/
structure Pbkdf2Vector where
  password : Bytes
  salt : Bytes
  output : KeyBytes

structure KeyVector where
  command : Bytes
  response : Bytes

structure Vectors where
  ciphers : List CipherVector
  pbkdf2 : List Pbkdf2Vector
  keys : List KeyVector

variable (vectors : Vectors)

def encrypt (key : ManagementKey) (block : Bytes) : Option Bytes :=
  (vectors.ciphers.find? fun v => v.key = key ∧ v.plain = block).map fun v => v.cipher

def decrypt (key : ManagementKey) (block : Bytes) : Option Bytes :=
  (vectors.ciphers.find? fun v => v.key = key ∧ v.cipher = block).map fun v => v.plain

def pbkdf2HmacSha1 (password salt : Bytes) (iterations n : Nat) :
    { output : Bytes // output.length = n } :=
  match vectors.pbkdf2.find? fun v => v.password = password ∧ v.salt = salt with
  | some v => if h : iterations = 10000 ∧ v.output.val.length = n then ⟨v.output.val, h.2⟩
    else ⟨List.replicate n 0, List.length_replicate⟩
  | none => ⟨List.replicate n 0, List.length_replicate⟩

def algorithmByte : ManagementKeyAlgorithm → UInt8
  | .tdes => 0x03
  | .aes192 => 0x0a

def blockLen : ManagementKeyAlgorithm → Nat
  | .tdes => 8
  | .aes192 => 16

/-- PINs and PUKs are padded to eight bytes. -/
def padded (secret : Bytes) : Bytes := secret ++ List.replicate (8 - secret.length) 0xff

def unpadded (block : Bytes) : Bytes := block.takeWhile (fun b => b ≠ 0xff)

def validSecret (secret : Bytes) : Bool :=
  6 ≤ secret.length && secret.length ≤ 8 && secret.all (fun b => b ≠ 0xff)

theorem unpadded_padded {secret : Bytes} (h : validSecret secret = true) :
    unpadded (padded secret) = secret := by
  simp only [validSecret, Bool.and_eq_true, decide_eq_true_eq, List.all_eq_true] at h
  rw [unpadded, padded, List.takeWhile_append_of_pos (by simpa using h.2)]
  have htail : (List.replicate (8 - secret.length) (0xff : UInt8)).takeWhile (fun b => b ≠ 0xff) = [] := by
    cases 8 - secret.length <;> simp [List.replicate_succ]
  rw [htail, List.append_nil]

theorem length_padded {secret : Bytes} (h : validSecret secret = true) : (padded secret).length = 8 := by
  simp only [validSecret, Bool.and_eq_true, decide_eq_true_eq] at h
  rw [padded, List.length_append, List.length_replicate]
  omega

def selectCommand : Bytes := [0x00, 0xa4, 0x04, 0x00, 0x05, 0xa0, 0x00, 0x00, 0x03, 0x08]
def verifyCommand (pin : Bytes) : Bytes := [0x00, 0x20, 0x00, 0x80, 0x08] ++ padded pin
def challengeCommand (algorithm : ManagementKeyAlgorithm) : Bytes :=
  [0x00, 0x87, algorithmByte algorithm, 0x9b, 0x04, 0x7c, 0x02, 0x81, 0x00]
def witnessCommand (algorithm : ManagementKeyAlgorithm) : Bytes :=
  [0x00, 0x87, algorithmByte algorithm, 0x9b, 0x04, 0x7c, 0x02, 0x80, 0x00]
def responseCommand (algorithm : ManagementKeyAlgorithm) (response : Bytes) : Bytes :=
  [0x00, 0x87, algorithmByte algorithm, 0x9b, UInt8.ofNat (response.length + 4), 0x7c,
    UInt8.ofNat (response.length + 2), 0x82, UInt8.ofNat response.length] ++ response
def mutualCommand (algorithm : ManagementKeyAlgorithm) (witness challenge : Bytes) : Bytes :=
  [0x00, 0x87, algorithmByte algorithm, 0x9b, UInt8.ofNat (witness.length + challenge.length + 6), 0x7c,
    UInt8.ofNat (witness.length + challenge.length + 4), 0x80, UInt8.ofNat witness.length] ++ witness ++
    [0x81, UInt8.ofNat challenge.length] ++ challenge
def getDataCommand (id : ObjectId) : Bytes :=
  [0x00, 0xcb, 0x3f, 0xff, 0x05, 0x5c, 0x03] ++ id.bytes ++ [0x00]
def putDataCommand (id : ObjectId) (value : Bytes) : Bytes :=
  [0x00, 0xdb, 0x3f, 0xff, UInt8.ofNat ((Der.tlv 0x53 value).length + 5), 0x5c, 0x03] ++ id.bytes ++
    Der.tlv 0x53 value
def setKeyCommand (key : ManagementKey) (touch : ManagementTouchPolicy) : Bytes :=
  [0x00, 0xff, 0xff, if touch = .always then 0xfe else 0xff, 0x1b, algorithmByte key.algorithm, 0x9b,
    0x18] ++ key.bytes
def changeReferenceCommand (reference : UInt8) (old new : Bytes) : Bytes :=
  [0x00, 0x24, 0x00, reference, 0x10] ++ padded old ++ padded new
def resetRetryCommand (puk pin : Bytes) : Bytes :=
  [0x00, 0x2c, 0x00, 0x80, 0x10] ++ padded puk ++ padded pin
def setRetriesCommand (pinRetries pukRetries : UInt8) : Bytes := [0x00, 0xfa, pinRetries, pukRetries]
def metadataCommand (reference : UInt8) : Bytes := [0x00, 0xf7, 0x00, reference, 0x00]

structure Chip where
  card : Card
  verified : Bool
  authenticated : Bool
  /-- What the host has to answer to the pending challenge. -/
  expected : Option Bytes

def success : Bytes := [0x90, 0x00]
def notFound : Bytes := [0x6a, 0x82]
def denied : Bytes := [0x69, 0x82]
def blocked : Bytes := [0x69, 0x83]
def wrong : Bytes := [0x63, 0xc2]
def unsupported : Bytes := [0x6d, 0x00]

/-- The challenge that the card draws; it is the same every time here. -/
def cardChallenge : ManagementKeyAlgorithm → Bytes
  | .tdes => [0xfe, 0xdc, 0xba, 0x98, 0x76, 0x54, 0x32, 0x10]
  | .aes192 => [0x00, 0x11, 0x22, 0x33, 0x44, 0x55, 0x66, 0x77, 0x88, 0x99, 0xaa, 0xbb, 0xcc, 0xdd, 0xee, 0xff]

/-- `n` bytes of a command from position `i`. -/
def part (command : Bytes) (i n : Nat) : Bytes := (command.drop i).take n

/-- A challenge, witness or response in its dynamic authentication template. -/
def template (tag : UInt8) (block : Bytes) : Bytes :=
  [0x7c, UInt8.ofNat (block.length + 2), tag, UInt8.ofNat block.length] ++ block ++ success

def keyAnswer (command : Bytes) : Bytes :=
  ((vectors.keys.find? fun v => v.command = command).map fun v => v.response).getD unsupported

def general (chip : Chip) (command : Bytes) : Bytes × Chip :=
  let key := chip.card.managementKey
  let n := blockLen key.algorithm
  if command.getD 3 0 ≠ 0x9b then (keyAnswer vectors command, chip)
  else if command = challengeCommand key.algorithm then
    (template 0x81 (cardChallenge key.algorithm),
      { chip with expected := encrypt vectors key (cardChallenge key.algorithm) })
  else if command = witnessCommand key.algorithm then
    match encrypt vectors key (cardChallenge key.algorithm) with
    | some witness =>
      (template 0x80 witness, { chip with expected := some (cardChallenge key.algorithm) })
    | none => (unsupported, chip)
  else if chip.expected = some (part command 9 n) ∧
      command = responseCommand key.algorithm (part command 9 n) then
    (success, { chip with authenticated := true, expected := none })
  else if chip.expected = some (part command 9 n) ∧
      command = mutualCommand key.algorithm (part command 9 n) (part command (11 + n) n) then
    match encrypt vectors key (part command (11 + n) n) with
    | some response => (template 0x82 response, { chip with authenticated := true, expected := none })
    | none => (unsupported, chip)
  else (denied, { chip with expected := none })

def readData (chip : Chip) (id : ObjectId) : Bytes :=
  if id = pivmanProtectedObjectId ∧ chip.verified = false then denied
  else
    match chip.card.objects id with
    | none => notFound
    | some value => if value.length ≤ tlvLimit then Der.tlv 0x53 value ++ success else unsupported

def readMetadata (chip : Chip) (reference : UInt8) : Bytes :=
  if reference = 0x9b then [0x01, 0x01, algorithmByte chip.card.managementKey.algorithm] ++ success
  else if reference = 0x81 then
    [0x06, 0x02, UInt8.ofNat (min chip.card.pukLimit 255), UInt8.ofNat (min chip.card.pukRetries 255)] ++ success
  else keyAnswer vectors (metadataCommand reference)

def Chip.commit (chip : Chip) (m : Mutation) : Bytes × Chip :=
  (success, { chip with card := chip.card.apply m })

/-- Present a PUK: it is counted, and a correct one makes a change. -/
def presentPuk (chip : Chip) (puk : Bytes) (m : Mutation) : Bytes × Chip :=
  if chip.card.pukRetries = 0 then (blocked, chip)
  else if puk = padded chip.card.puk then chip.commit m
  else (wrong, { chip with card := chip.card.apply .pukFailed })

def keyAlgorithm (b : UInt8) : ManagementKeyAlgorithm := if b = 0x0a then .aes192 else .tdes

def respond (chip : Chip) (command : Bytes) : Bytes × Chip :=
  match instruction command with
  | 0xa4 => (success, ⟨chip.card, false, false, none⟩)
  | 0x20 =>
    if command = verifyCommand chip.card.pin then (success, { chip with verified := true })
    else (wrong, { chip with verified := false })
  | 0x87 => general vectors chip command
  | 0xcb => (readData chip ⟨part command 7 3⟩, chip)
  | 0xf7 => (readMetadata vectors chip (command.getD 3 0), chip)
  | 0xdb =>
    match chip.authenticated, Der.element 0x53 (command.drop 10) with
    | true, some value => chip.commit (.putData ⟨part command 7 3⟩ value)
    | _, _ => (denied, chip)
  | 0xff =>
    if chip.authenticated then
      chip.commit (.setManagementKey ⟨keyAlgorithm (command.getD 5 0), command.drop 8⟩)
    else (denied, chip)
  | 0x24 =>
    if command.getD 3 0 = 0x80 then
      if part command 5 8 = padded chip.card.pin then chip.commit (.changePin (unpadded (command.drop 13)))
      else (wrong, chip)
    else presentPuk chip (part command 5 8) (.changePuk (unpadded (command.drop 13)))
  | 0x2c => presentPuk chip (part command 5 8) (.unblockPin (unpadded (command.drop 13)))
  | 0xfa =>
    if chip.authenticated && chip.verified then chip.commit (.setRetries (command.getD 3 0).toNat)
    else (denied, chip)
  | _ => (unsupported, chip)

/-- The exchange works, or it fails before or after the card saw the command. -/
def device {E : Type} : Device E Chip := fun chip command response after =>
  (response = .ok (respond vectors chip command).1 ∧ after = (respond vectors chip command).2) ∨
    ((∃ e, response = .error e) ∧ (after = chip ∨ after = (respond vectors chip command).2))

section Operations

variable {T : Type}

def failure (kind : ErrorKind) : Error := (Error.new kind).at .command

@[simp] theorem failure_kind (kind : ErrorKind) : (failure kind).kind = kind := rfl

def blockOf (response : Bytes) : Bytes := part response 4 (response.length - 6)

def step (command : Bytes) (next : Operation T) : Operation T :=
  .exchange command fun response =>
    if response = success then next else .complete (.error (failure .authenticationFailed))

def finish (command : Bytes) (result : Bytes → Except Error T) : Operation T :=
  .exchange command fun response => .complete (result response)

def external (key : ManagementKey) (next : Operation T) : Operation T :=
  .exchange (challengeCommand key.algorithm) fun response =>
    match encrypt vectors key (blockOf response) with
    | some answer => step (responseCommand key.algorithm answer) next
    | none => .complete (.error (failure .authenticationFailed))

def mutualAuthentication (key : ManagementKey) (challenge : Bytes) (next : Operation T) : Operation T :=
  .exchange (witnessCommand key.algorithm) fun witness =>
    match decrypt vectors key (blockOf witness) with
    | some answer =>
      .exchange (mutualCommand key.algorithm answer challenge) fun response =>
        if some (blockOf response) = encrypt vectors key challenge then next
        else .complete (.error (failure .authenticationFailed))
    | none => .complete (.error (failure .authenticationFailed))

def authentication (auth : ManagementAuthentication) (next : Operation T) : Operation T :=
  match auth with
  | .external key => external vectors key next
  | .mutualChallenge key challenge => mutualAuthentication vectors key challenge next

/-- Every operation selects the applet and authenticates from its access. -/
def withAccess (access : Access) (next : Operation T) : Operation T :=
  step selectCommand
    (match access with
    | .none => next
    | .pin pin => step (verifyCommand pin.bytes) next
    | .management auth => authentication vectors auth next
    | .pinAndManagement pin auth => authentication vectors auth (step (verifyCommand pin.bytes) next))

def statusOf (response : Bytes) : Except Error Unit :=
  if response = success then .ok ()
  else if response = denied then .error (failure .securityStatusNotSatisfied)
  else if response = blocked then .error (failure .pinBlocked)
  else .error (failure .authenticationFailed)

def objectOf (response : Bytes) : Except Error Bytes :=
  if response = notFound then .error (failure .notFound)
  else
    match Der.read response with
    | some (0x53, value, [0x90, 0x00]) => .ok value
    | _ => .error (failure .securityStatusNotSatisfied)

def metadataOf (response : Bytes) : Except Error MetadataFields :=
  match response with
  | [0x01, 0x01, algorithm, 0x90, 0x00] => .ok ⟨some algorithm, none, none, none, none, none⟩
  | 0x06 :: _ => .ok ⟨none, none, none, none, none, none⟩
  | _ => .error (failure .unsupportedFeature)

def accept (acceptable : Bool) (operation : Operation T) : Except Error (Operation T) :=
  if acceptable then .ok operation else .error (Error.new .invalidArgument)

/-- ADMIN DATA claims a stored key and a blocked PUK. -/
def claimsProtection (response : Bytes) : Bool :=
  match (objectOf response).bind (PivmanData.fromValue tlv) with
  | .ok data => data.hasStoredKey && data.pukBlocked
  | .error _ => false

def storedKeyOf (response : Bytes) : Option KeyBytes :=
  match (objectOf response).bind (PivmanProtectedData.fromValue tlv) with
  | .ok printed => printed.key
  | .error _ => none

/-- Authenticate the stored key once the records claim it and the PUK is blocked. -/
def storedKey : Operation Bytes :=
  .exchange (getDataCommand pivmanObjectId) fun admin =>
    .exchange (metadataCommand 0x81) fun puk =>
      if claimsProtection admin = true ∧ puk.getD 3 1 = 0 then
        .exchange (getDataCommand pivmanProtectedObjectId) fun printed =>
          .exchange (metadataCommand 0x9b) fun algorithm =>
            match storedKeyOf printed with
            | some key =>
              external vectors ⟨keyAlgorithm (algorithm.getD 2 0), key.val⟩ (.complete (.ok key.val))
            | none => .complete (.error (failure .conditionsNotSatisfied))
      else .complete (.error (failure .conditionsNotSatisfied))

def crates : Crates where
  tlv := tlv
  checkPin secret := if validSecret secret then .ok () else .error (Error.new .invalidArgument)
  checkPuk secret := if validSecret secret then .ok () else .error (Error.new .invalidArgument)
  checkManagementKey _ bytes :=
    if bytes.length = 24 then .ok () else .error (Error.new .invalidArgument)
  checkMutual key challenge :=
    if challenge.length = blockLen key.algorithm then .ok () else .error (Error.new .invalidArgument)
  blockLen := blockLen
  pbkdf2HmacSha1 := pbkdf2HmacSha1 vectors
  readObject id access :=
    accept (id.bytes.length = 3) (withAccess vectors access (finish (getDataCommand id) objectOf))
  writeObject id value access := accept (id.bytes.length = 3 && (Der.tlv 0x53 value).length ≤ 250)
    (withAccess vectors access (finish (putDataCommand id value) statusOf))
  setManagementKey key touch access := .ok
    (withAccess vectors access (finish (setKeyCommand key touch) statusOf))
  authenticateManagementKey auth :=
    .ok (withAccess vectors (.management auth) (.complete (.ok ())))
  pinManaged _ access := .ok (withAccess vectors access (storedKey vectors))
  verifyPin pin := .ok (withAccess vectors (.pin pin) (.complete (.ok ())))
  changePin old new := accept (validSecret old.bytes && validSecret new.bytes)
    (withAccess vectors .none (finish (changeReferenceCommand 0x80 old.bytes new.bytes) statusOf))
  changePuk old new := accept (validSecret old.bytes && validSecret new.bytes)
    (withAccess vectors .none (finish (changeReferenceCommand 0x81 old.bytes new.bytes) statusOf))
  unblockPin puk new := accept (validSecret puk.bytes && validSecret new.bytes)
    (withAccess vectors .none (finish (resetRetryCommand puk.bytes new.bytes) statusOf))
  resetPinPukRetries pinRetries pukRetries access := .ok
    (withAccess vectors access (finish (setRetriesCommand pinRetries pukRetries) statusOf))
  metadata reference access := .ok (withAccess vectors access (finish
    (metadataCommand (match reference with | .pin => 0x80 | .puk => 0x81 | .management => 0x9b)) metadataOf))

end Operations

section Documented

variable {vectors} {E T : Type}

/-- Commands that only read or authenticate. -/
def Inert (command : Bytes) : Prop :=
  instruction command ∈ ([0xa4, 0x20, 0x87, 0xcb, 0xf7] : List UInt8)

section Inert

variable (algorithm : ManagementKeyAlgorithm) (block block' : Bytes)

theorem inert_select : Inert selectCommand := by simp [Inert, instruction, selectCommand]
theorem inert_verify : Inert (verifyCommand block) := by simp [Inert, instruction, verifyCommand]
theorem inert_challenge : Inert (challengeCommand algorithm) := by
  simp [Inert, instruction, challengeCommand]
theorem inert_witness : Inert (witnessCommand algorithm) := by
  simp [Inert, instruction, witnessCommand]
theorem inert_response : Inert (responseCommand algorithm block) := by
  simp [Inert, instruction, responseCommand]
theorem inert_mutual : Inert (mutualCommand algorithm block block') := by
  simp [Inert, instruction, mutualCommand]
theorem inert_getData (id : ObjectId) : Inert (getDataCommand id) := by
  simp [Inert, instruction, getDataCommand]
theorem inert_metadata (reference : UInt8) : Inert (metadataCommand reference) := by
  simp [Inert, instruction, metadataCommand]

end Inert

theorem Inert.harmless {command : Bytes} (h : Inert command) : Harmless command := by
  simp only [Inert, List.mem_cons, List.not_mem_nil, or_false] at h
  rcases h with h | h | h | h | h <;> rw [Harmless, h] <;> decide

theorem general_card (chip : Chip) (command : Bytes) :
    (general vectors chip command).2.card = chip.card := by
  simp only [general]
  split
  · rfl
  · split
    · rfl
    · split
      · split <;> rfl
      · split
        · rfl
        · split
          · split <;> rfl
          · rfl

theorem respond_inert {command : Bytes} (h : Inert command) (chip : Chip) :
    (respond vectors chip command).2.card = chip.card := by
  simp only [Inert, List.mem_cons, List.not_mem_nil, or_false] at h
  rcases h with h | h | h | h | h <;> simp only [respond, h]
  · split <;> rfl
  · exact general_card chip command

def Leads (vectors : Vectors) (card : Card)
    (P : Option (Except (DriveError E) T) → Card → Prop) (operation : Operation T) : Prop :=
  ∀ w o u, w.card.card = card →
    Fallible.Runs (environment (device vectors)) (execute operation) w o u → P o u.card.card

/-- An outcome that is no result and does not say that an object is absent. -/
def Inconclusive (o : Option (Except (DriveError E) T)) : Prop :=
  (∀ t, o ≠ some (.ok t)) ∧ ∀ e, o = some (.error (.protocol e)) → e.kind ≠ .notFound

/-- Whatever ends early leaves the card as it was. -/
def Lenient (card : Card) (P : Option (Except (DriveError E) T) → Card → Prop) : Prop :=
  ∀ o, Inconclusive o → P o card

variable {card : Card} {P : Option (Except (DriveError E) T) → Card → Prop}

theorem leads_complete {result : Except Error T} (hP : P (some (result.mapError .protocol)) card) :
    Leads vectors card P (.complete result) := by
  intro w o u hw hr
  obtain ⟨rfl, rfl⟩ := Fallible.orThrow_iff.mp hr
  rw [hw]
  exact hP

theorem leads_failure (hP : Lenient card P) {kind : ErrorKind} (hkind : kind ≠ .notFound) :
    Leads vectors card P (.complete (.error (failure kind))) := by
  refine leads_complete (hP _ ⟨by simp [Except.mapError], ?_⟩)
  intro e he
  cases he
  exact hkind

/-- An inert command, and the rest of the operation for the card's answer. -/
theorem leads_inert {command : Bytes} {advance : Bytes → Operation T} (hinert : Inert command)
    (hP : Lenient card P)
    (hnext : ∀ chip : Chip, chip.card = card → Leads vectors card P (advance (respond vectors chip command).1)) :
    Leads vectors card P (.exchange command advance) := by
  intro w o u hw hr
  have hstays : (respond vectors w.card command).2.card = w.card.card := respond_inert hinert w.card
  rw [execute] at hr
  rcases Run.ask_iff.mp hr with ⟨rfl, rfl⟩ | ⟨r, v, ⟨hstep, -⟩, hrest⟩
  · rw [hw]
    exact hP none ⟨by simp, by simp⟩
  · have hv : v.card.card = card := by
      rcases hstep with ⟨-, heq⟩ | ⟨-, heq | heq⟩
      · rw [heq, hstays, hw]
      · rw [heq, hw]
      · rw [heq, hstays, hw]
    cases r with
    | error e =>
      obtain ⟨rfl, rfl⟩ := Run.pure_iff.mp hrest
      rw [hv]
      exact hP _ ⟨by simp, by simp⟩
    | ok response =>
      rcases hstep with ⟨heq, -⟩ | ⟨⟨e, he⟩, -⟩
      · cases heq
        exact hnext w.card hw v o u hv hrest
      · cases he

theorem leads_step {command : Bytes} {next : Operation T} (hinert : Inert command)
    (hP : Lenient card P) (hnext : Leads vectors card P next) :
    Leads vectors card P (step command next) := by
  refine leads_inert hinert hP fun chip _ => ?_
  split
  · exact hnext
  · exact leads_failure hP (by simp)

theorem leads_external {key : ManagementKey} {next : Operation T} (hP : Lenient card P)
    (hnext : Leads vectors card P next) : Leads vectors card P (external vectors key next) := by
  refine leads_inert (inert_challenge _) hP fun chip _ => ?_
  split
  · exact leads_step (inert_response _ _) hP hnext
  · exact leads_failure hP (by simp)

theorem leads_authentication {auth : ManagementAuthentication} {next : Operation T}
    (hP : Lenient card P) (hnext : Leads vectors card P next) :
    Leads vectors card P (authentication vectors auth next) := by
  cases auth with
  | external key => exact leads_external hP hnext
  | mutualChallenge key challenge =>
    refine leads_inert (inert_witness _) hP fun chip _ => ?_
    split
    · refine leads_inert (inert_mutual _ _ _) hP fun chip _ => ?_
      split
      · exact hnext
      · exact leads_failure hP (by simp)
    · exact leads_failure hP (by simp)

theorem leads_withAccess {access : Access} {next : Operation T} (hP : Lenient card P)
    (hnext : Leads vectors card P next) : Leads vectors card P (withAccess vectors access next) := by
  have hverify : ∀ pin : Pin, Leads vectors card P (step (verifyCommand pin.bytes) next) := fun pin =>
    leads_step (inert_verify _) hP hnext
  refine leads_step inert_select hP ?_
  cases access with
  | none => exact hnext
  | pin pin => exact hverify pin
  | management auth => exact leads_authentication hP hnext
  | pinAndManagement pin auth => exact leads_authentication hP (hverify pin)

/-- The last command of an operation, whether or not its answer arrives. -/
theorem leads_finish {command : Bytes} {result : Bytes → Except Error T} (hP : Lenient card P)
    (hlost : ∀ chip : Chip, chip.card = card → ∀ e,
      P (some (.error (.transport e))) (respond vectors chip command).2.card)
    (hanswer : ∀ chip : Chip, chip.card = card →
      P (some ((result (respond vectors chip command).1).mapError .protocol))
        (respond vectors chip command).2.card) :
    Leads vectors card P (finish command result) := by
  intro w o u hw hr
  rw [finish, execute] at hr
  rcases Run.ask_iff.mp hr with ⟨rfl, rfl⟩ | ⟨r, v, ⟨hstep, -⟩, hrest⟩
  · rw [hw]
    exact hP none ⟨by simp, by simp⟩
  · cases r with
    | error e =>
      obtain ⟨rfl, rfl⟩ := Run.pure_iff.mp hrest
      rcases hstep with ⟨heq, -⟩ | ⟨-, heq | heq⟩
      · cases heq
      · rw [heq, hw]
        exact hP _ ⟨by simp, by simp⟩
      · rw [heq]
        exact hlost w.card hw e
    | ok response =>
      obtain ⟨rfl, rfl⟩ := Fallible.orThrow_iff.mp hrest
      rcases hstep with ⟨heq, hcard⟩ | ⟨⟨e, he⟩, -⟩
      · cases heq
        rw [hcard]
        exact hanswer w.card hw
      · cases he

theorem lenient_commits (card : Card) (m : Mutation) : Lenient (T := T) card (Commits (E := E) m card) :=
  fun _ h => .inl ⟨rfl, h.1⟩

theorem lenient_completes (card : Card) (m : Mutation) :
    Lenient (T := T) card (Completes (E := E) m card) :=
  fun _ h t ht => absurd ht (h.1 t)

theorem lenient_presentsPuk (card : Card) (m : Mutation) :
    Lenient (T := T) card (PresentsPuk (E := E) m card) :=
  fun _ h t ht => absurd ht (h.1 t)

theorem lenient_reads (card : Card) (id : ObjectId) : Lenient card (Reads (E := E) id card) :=
  fun _ h => ⟨rfl, fun value hvalue => absurd hvalue (h.1 value), fun e he hk => absurd hk (h.2 e he)⟩

theorem lenient_blocksPuk (card : Card) : Lenient (T := T) card (BlocksPuk (E := E) card) :=
  fun _ h => ⟨⟨[], by simp, rfl⟩, fun t ht => absurd ht (h.1 t)⟩

theorem lenient_keeps (card : Card) : Lenient (T := T) card (Keeps (E := E) card) := fun _ _ => rfl

/-- A command that makes one change or is refused. -/
def MakesChange (vectors : Vectors) (command : Bytes) (m : Mutation) : Prop :=
  ∀ chip, respond vectors chip command = chip.commit m ∨
    ∃ refusal, respond vectors chip command = (refusal, chip) ∧ refusal ≠ success

theorem statusOf_refusal {refusal : Bytes} (h : refusal ≠ success) :
    ∃ e, statusOf refusal = .error e := by
  rw [statusOf, if_neg h]
  split
  · exact ⟨_, rfl⟩
  · split
    · exact ⟨_, rfl⟩
    · exact ⟨_, rfl⟩

theorem leads_commits {command : Bytes} {m : Mutation} (h : MakesChange vectors command m) :
    Leads vectors card (Commits (E := E) m card) (finish command statusOf) := by
  refine leads_finish (lenient_commits card m) ?_ ?_
  · rintro chip rfl e
    rcases h chip with heq | ⟨refusal, heq, -⟩
    · rw [heq]
      exact .inr rfl
    · rw [heq]
      exact .inl ⟨rfl, by simp⟩
  · rintro chip rfl
    rcases h chip with heq | ⟨refusal, heq, hne⟩
    · rw [heq]
      exact .inr rfl
    · obtain ⟨e, he⟩ := statusOf_refusal hne
      rw [heq, he]
      exact .inl ⟨rfl, by simp [Except.mapError]⟩

theorem leads_completes {command : Bytes} {m : Mutation} (h : MakesChange vectors command m) :
    Leads vectors card (Completes (E := E) m card) (finish command statusOf) := by
  refine leads_finish (lenient_completes card m) (fun chip _ e t ht => by cases ht) ?_
  rintro chip rfl t ht
  rcases h chip with heq | ⟨refusal, heq, hne⟩
  · rw [heq]
    rfl
  · obtain ⟨e, he⟩ := statusOf_refusal hne
    rw [heq, he] at ht
    cases ht

theorem leads_presentsPuk {command : Bytes} (puk : Bytes) {m : Mutation}
    (h : ∀ chip, respond vectors chip command = presentPuk chip puk m) :
    Leads vectors card (PresentsPuk (E := E) m card) (finish command statusOf) := by
  refine leads_finish (lenient_presentsPuk card m) (fun chip _ e t ht => by cases ht) ?_
  rintro chip rfl t ht
  rw [h chip] at ht ⊢
  by_cases hretries : chip.card.pukRetries = 0
  · simp [presentPuk, hretries, statusOf, blocked, success, denied, Except.mapError] at ht
  · by_cases hpuk : puk = padded chip.card.puk
    · rw [presentPuk, if_neg hretries, if_pos hpuk]
      exact ⟨Nat.pos_of_ne_zero hretries, rfl⟩
    · simp [presentPuk, hretries, hpuk, statusOf, wrong, blocked, success, denied, Except.mapError] at ht

theorem putData_makesChange {id : ObjectId} (hid : id.bytes.length = 3) {value : Bytes}
    (hvalue : value.length < 256 ^ 127) : MakesChange vectors (putDataCommand id value) (.putData id value) := by
  intro chip
  obtain ⟨bytes⟩ := id
  obtain ⟨a, b, c, rfl⟩ := List.length_eq_three.mp hid
  have helement : Der.element 0x53 (Der.tlv 0x53 value) = some value := Der.element_eq_some_iff.mpr ⟨rfl, hvalue⟩
  cases hauth : chip.authenticated with
  | true => exact .inl (by simp [respond, putDataCommand, instruction, part, hauth, helement])
  | false =>
    refine .inr ⟨denied, ?_, by decide⟩
    simp [respond, putDataCommand, instruction, hauth]

theorem setKey_makesChange (key : ManagementKey) (touch : ManagementTouchPolicy) :
    MakesChange vectors (setKeyCommand key touch) (.setManagementKey key) := by
  intro chip
  obtain ⟨algorithm, bytes⟩ := key
  cases hauth : chip.authenticated with
  | true =>
    refine .inl ?_
    cases algorithm <;>
      simp [respond, setKeyCommand, instruction, hauth, keyAlgorithm, algorithmByte]
  | false =>
    refine .inr ⟨denied, ?_, by decide⟩
    simp [respond, setKeyCommand, instruction, hauth]

theorem setRetries_makesChange (pinRetries pukRetries : UInt8) :
    MakesChange vectors (setRetriesCommand pinRetries pukRetries) (.setRetries pukRetries.toNat) := by
  intro chip
  by_cases hauth : (chip.authenticated && chip.verified) = true
  · exact .inl (by simp [respond, setRetriesCommand, instruction, hauth])
  · exact .inr ⟨denied, by simp [respond, setRetriesCommand, instruction, hauth], by decide⟩

/-- The two secrets of a command that presents one and sets another. -/
theorem secrets_of_command (head : Bytes) {old new : Bytes} (hhead : head.length = 5)
    (hold : validSecret old = true) (hnew : validSecret new = true) :
    part (head ++ padded old ++ padded new) 5 8 = padded old ∧
      unpadded ((head ++ padded old ++ padded new).drop 13) = new := by
  have holdLength := length_padded hold
  constructor
  · rw [part, List.append_assoc, List.drop_append_of_le_length (by omega), List.drop_of_length_le (by omega),
      List.nil_append, List.take_append_of_le_length (by omega), List.take_of_length_le (by omega)]
  · rw [List.drop_append, List.drop_of_length_le (by simp; omega), List.nil_append]
    have hzero : 13 - (head ++ padded old).length = 0 := by simp; omega
    rw [hzero, List.drop_zero, unpadded_padded hnew]

theorem respond_changeReference (chip : Chip) (reference : UInt8) {old new : Bytes}
    (hold : validSecret old = true) (hnew : validSecret new = true) :
    respond vectors chip (changeReferenceCommand reference old new) =
      if reference = 0x80 then
        if padded old = padded chip.card.pin then chip.commit (.changePin new) else (wrong, chip)
      else presentPuk chip (padded old) (.changePuk new) := by
  obtain ⟨hpart, hunpadded⟩ := secrets_of_command [0x00, 0x24, 0x00, reference, 0x10] rfl hold hnew
  have hcommand : changeReferenceCommand reference old new =
      [0x00, 0x24, 0x00, reference, 0x10] ++ padded old ++ padded new := rfl
  have hins : instruction (changeReferenceCommand reference old new) = 0x24 := rfl
  have hreference : (changeReferenceCommand reference old new).getD 3 0 = reference := rfl
  rw [hcommand] at hins hreference ⊢
  simp only [respond, hins, hreference, hpart, hunpadded]

theorem changePin_makesChange {old new : Bytes} (hold : validSecret old = true)
    (hnew : validSecret new = true) :
    MakesChange vectors (changeReferenceCommand 0x80 old new) (.changePin new) := by
  intro chip
  rw [respond_changeReference chip 0x80 hold hnew, if_pos rfl]
  by_cases hpin : padded old = padded chip.card.pin
  · rw [if_pos hpin]
    exact .inl rfl
  · rw [if_neg hpin]
    exact .inr ⟨wrong, rfl, by decide⟩

theorem respond_changePuk (chip : Chip) {old new : Bytes} (hold : validSecret old = true)
    (hnew : validSecret new = true) :
    respond vectors chip (changeReferenceCommand 0x81 old new) =
      presentPuk chip (padded old) (.changePuk new) := by
  rw [respond_changeReference chip 0x81 hold hnew, if_neg (by decide)]

theorem respond_resetRetry (chip : Chip) {puk new : Bytes} (hpuk : validSecret puk = true)
    (hnew : validSecret new = true) :
    respond vectors chip (resetRetryCommand puk new) = presentPuk chip (padded puk) (.unblockPin new) := by
  obtain ⟨hpart, hunpadded⟩ := secrets_of_command [0x00, 0x2c, 0x00, 0x80, 0x10] rfl hpuk hnew
  have hcommand : resetRetryCommand puk new =
      [0x00, 0x2c, 0x00, 0x80, 0x10] ++ padded puk ++ padded new := rfl
  have hins : instruction (resetRetryCommand puk new) = 0x2c := rfl
  rw [hcommand] at hins ⊢
  simp only [respond, hins, hpart, hunpadded]

theorem objectOf_container {value : Bytes} (h : value.length ≤ tlvLimit) :
    objectOf (Der.tlv 0x53 value ++ success) = .ok value := by
  have hread : Der.read (Der.tlv 0x53 value ++ success) = some (0x53, value, success) :=
    Der.read_tlv_append (lt_of_le_of_lt h (by rw [tlvLimit]; norm_num))
  have hfound : Der.tlv 0x53 value ++ success ≠ notFound := by simp [Der.tlv, notFound]
  rw [objectOf, if_neg hfound, hread]
  rfl

/-- GET DATA answers with the object, and with `notFound` only without one. -/
theorem objectOf_readData (vectors : Vectors) (chip : Chip) {id : ObjectId} (hid : id.bytes.length = 3) :
    (∀ value, objectOf (respond vectors chip (getDataCommand id)).1 = .ok value →
      chip.card.objects id = some value) ∧
      ∀ e, objectOf (respond vectors chip (getDataCommand id)).1 = .error e → e.kind = .notFound →
        chip.card.objects id = none := by
  obtain ⟨bytes⟩ := id
  obtain ⟨a, b, c, rfl⟩ := List.length_eq_three.mp hid
  have hrespond : (respond vectors chip (getDataCommand ⟨[a, b, c]⟩)).1 = readData chip ⟨[a, b, c]⟩ := rfl
  have hdenied : objectOf denied = .error (failure .securityStatusNotSatisfied) := by decide
  have hunsupported : objectOf unsupported = .error (failure .securityStatusNotSatisfied) := by decide
  rw [hrespond, readData]
  by_cases hprotected : (⟨[a, b, c]⟩ : ObjectId) = pivmanProtectedObjectId ∧ chip.verified = false
  · rw [if_pos hprotected, hdenied]
    simp
  · rw [if_neg hprotected]
    cases hobject : chip.card.objects ⟨[a, b, c]⟩ with
    | none => simp [objectOf]
    | some value =>
      by_cases hlength : value.length ≤ tlvLimit
      · simp only [if_pos hlength, objectOf_container hlength]
        simp
      · simp only [if_neg hlength, hunsupported]
        simp

/-! No command of a read is PUT DATA or SET MANAGEMENT KEY. -/

theorem only_exchange {command : Bytes} {advance : Bytes → Operation T} (hcommand : Inert command)
    (hadvance : ∀ response, (advance response).Only Harmless) :
    (Operation.exchange command advance).Only Harmless :=
  ⟨hcommand.harmless, hadvance⟩

theorem only_step {command : Bytes} {next : Operation T} (hcommand : Inert command)
    (hnext : next.Only Harmless) : (step command next).Only Harmless := by
  refine only_exchange hcommand fun response => ?_
  split
  · exact hnext
  · trivial

theorem only_authentication {auth : ManagementAuthentication} {next : Operation T}
    (hnext : next.Only Harmless) : (authentication vectors auth next).Only Harmless := by
  cases auth with
  | external key =>
    refine only_exchange (inert_challenge _) fun response => ?_
    split
    · exact only_step (inert_response _ _) hnext
    · trivial
  | mutualChallenge key challenge =>
    refine only_exchange (inert_witness _) fun witness => ?_
    split
    · refine only_exchange (inert_mutual _ _ _) fun response => ?_
      split
      · exact hnext
      · trivial
    · trivial

theorem only_withAccess {access : Access} {next : Operation T} (hnext : next.Only Harmless) :
    (withAccess vectors access next).Only Harmless := by
  refine only_step inert_select ?_
  cases access with
  | none => exact hnext
  | pin pin => exact only_step (inert_verify _) hnext
  | management auth => exact only_authentication hnext
  | pinAndManagement pin auth => exact only_authentication (only_step (inert_verify _) hnext)

theorem accept_ok {acceptable : Bool} {operation op : Operation T}
    (h : accept acceptable operation = .ok op) : acceptable = true ∧ op = operation := by
  cases acceptable with
  | false => cases h
  | true =>
    cases h
    exact ⟨rfl, rfl⟩

theorem acts_of_leads {operation : Operation T} {behaviour : Behaviour E T}
    (h : ∀ card, Leads vectors card (behaviour card) operation) :
    Acts (device vectors) Chip.card (.ok operation) behaviour := by
  intro op hop w o u hr
  cases hop
  exact h w.card.card w o u rfl hr

theorem acts_of_accept {acceptable : Bool} {operation : Operation T} {behaviour : Behaviour E T}
    (h : acceptable = true → ∀ card, Leads vectors card (behaviour card) operation) :
    Acts (device vectors) Chip.card (accept acceptable operation) behaviour := by
  intro op hop w o u hr
  obtain ⟨hacceptable, rfl⟩ := accept_ok hop
  exact h hacceptable w.card.card w o u rfl hr

/-- The card reports a blocked PUK only when it is blocked. -/
theorem pukRetries_of_metadata {chip : Chip}
    (h : (respond vectors chip (metadataCommand 0x81)).1.getD 3 1 = 0) : chip.card.pukRetries = 0 := by
  have hreported : UInt8.ofNat (min chip.card.pukRetries 255) = 0 := h
  have hnat := congrArg UInt8.toNat hreported
  rw [UInt8.toNat_ofNat'] at hnat
  simp only [UInt8.toNat_zero] at hnat
  omega

/-- Recovering a stored key only reads; it succeeds with a blocked PUK. -/
theorem leads_storedKey {P : Option (Except (DriveError E) Bytes) → Card → Prop} (hP : Lenient card P)
    (hblocked : ∀ key, card.pukRetries = 0 → P (some (.ok key)) card) :
    Leads vectors card P (storedKey vectors) := by
  refine leads_inert (inert_getData _) hP fun admin _ => ?_
  refine leads_inert (inert_metadata _) hP fun chip hchip => ?_
  split
  · next hclaims =>
    have hretries : card.pukRetries = 0 := hchip ▸ pukRetries_of_metadata hclaims.2
    refine leads_inert (inert_getData _) hP fun printed _ => ?_
    refine leads_inert (inert_metadata _) hP fun algorithm _ => ?_
    split
    · next key _ => exact leads_external hP (leads_complete (hblocked key.val hretries))
    · exact leads_failure hP (by simp)
  · exact leads_failure hP (by simp)

/-- The reference operations and the reference card behave as documented. -/
theorem documented : Documented (E := E) (crates vectors) (device vectors) Chip.card where
  tlv := tlv_documented
  readObject id access := by
    refine acts_of_accept fun hid card => leads_withAccess (lenient_reads card id) ?_
    refine leads_finish (lenient_reads card id) ?_ ?_
    · rintro chip rfl e
      rw [respond_inert (inert_getData id)]
      exact lenient_reads chip.card id _ ⟨by simp, by simp⟩
    · rintro chip rfl
      rw [respond_inert (inert_getData id)]
      obtain ⟨hvalue, hmissing⟩ := objectOf_readData vectors chip (of_decide_eq_true hid)
      refine ⟨rfl, ?_, ?_⟩
      · intro value ho
        cases hobject : objectOf (respond vectors chip (getDataCommand id)).1 with
        | error e => rw [hobject] at ho; cases ho
        | ok found =>
          rw [hobject] at ho
          cases ho
          exact hvalue value hobject
      · intro e ho hk
        cases hobject : objectOf (respond vectors chip (getDataCommand id)).1 with
        | ok found => rw [hobject] at ho; cases ho
        | error e' =>
          rw [hobject] at ho
          cases ho
          exact hmissing e hobject hk
  readObject_only id access op hop := by
    obtain ⟨-, rfl⟩ := accept_ok hop
    exact only_withAccess ⟨(inert_getData id).harmless, fun _ => trivial⟩
  readObject_refused id access e he := by
    by_cases hid : id.bytes.length = 3
    · simp [crates, accept, hid] at he
    · simp only [crates, accept, hid, decide_false, Bool.false_eq_true, if_false, Except.error.injEq] at he
      rw [← he]
      decide
  writeObject id value access := by
    refine acts_of_accept fun hok card => leads_withAccess (lenient_commits card _) (leads_commits ?_)
    simp only [Bool.and_eq_true, decide_eq_true_eq] at hok
    have hlength := (Der.length_tlv 0x53 value).1
    exact putData_makesChange hok.1 (lt_of_le_of_lt (show value.length ≤ 250 by omega) (by norm_num))
  setManagementKey key touch access := by
    refine acts_of_leads fun card => ?_
    exact leads_withAccess (lenient_commits card _) (leads_commits (setKey_makesChange key touch))
  authenticateManagementKey auth := by
    refine acts_of_leads fun card => ?_
    exact leads_withAccess (lenient_keeps card) (leads_complete rfl)
  verifyPin pin := by
    refine acts_of_leads fun card => ?_
    exact leads_withAccess (lenient_keeps card) (leads_complete rfl)
  changePin old new := by
    refine acts_of_accept fun hok card => leads_withAccess (lenient_commits card _) (leads_commits ?_)
    rw [Bool.and_eq_true] at hok
    exact changePin_makesChange hok.1 hok.2
  changePuk old new := by
    refine acts_of_accept fun hok card =>
      leads_withAccess (lenient_presentsPuk card _) (leads_presentsPuk (padded old.bytes) ?_)
    rw [Bool.and_eq_true] at hok
    exact fun chip => respond_changePuk chip hok.1 hok.2
  unblockPin puk new := by
    refine acts_of_accept fun hok card =>
      leads_withAccess (lenient_presentsPuk card _) (leads_presentsPuk (padded puk.bytes) ?_)
    rw [Bool.and_eq_true] at hok
    exact fun chip => respond_resetRetry chip hok.1 hok.2
  resetPinPukRetries pinRetries pukRetries access := by
    refine acts_of_leads fun card => ?_
    exact leads_withAccess (lenient_completes card _)
      (leads_completes (setRetries_makesChange pinRetries pukRetries))
  pinManaged_none access := by
    refine acts_of_leads fun card => ?_
    exact leads_withAccess (lenient_keeps card) (leads_storedKey (lenient_keeps card) fun _ _ => rfl)
  pinManaged_some replacement access := by
    refine acts_of_leads fun card => ?_
    exact leads_withAccess (lenient_blocksPuk card)
      (leads_storedKey (lenient_blocksPuk card) fun _ hretries => ⟨⟨[], by simp, rfl⟩, fun _ _ => hretries⟩)
  metadata reference access := by
    refine acts_of_leads fun card => leads_withAccess (lenient_keeps card) ?_
    refine leads_finish (lenient_keeps card) ?_ ?_
    · rintro chip rfl e
      exact respond_inert (inert_metadata _) chip
    · rintro chip rfl
      exact respond_inert (inert_metadata _) chip

end Documented

section Runs

variable {E α : Type}

inductive Choice (E : Type) where
  /-- The exchange works; the CSPRNG repeats this byte. -/
  | works (seed : UInt8)
  /-- The card does not see the command. -/
  | cut (error : E)
  /-- The card runs the command, but its answer does not arrive. -/
  | lost (error : E)

def answer : Choice E → (q : Request) → World Chip → Option (Answer E q × World Chip)
  | .works _, .exchange command, w =>
    some (.ok (respond vectors w.card command).1,
      ⟨(respond vectors w.card command).2, w.log ++ [command]⟩)
  | .cut e, .exchange command, w => some (.error e, ⟨w.card, w.log ++ [command]⟩)
  | .lost e, .exchange command, w =>
    some (.error e, ⟨(respond vectors w.card command).2, w.log ++ [command]⟩)
  | .works seed, .fill n, w => some (.ok ⟨List.replicate n seed, List.length_replicate⟩, w)
  | _, .fill _, w => some (.error (.os 0), w)
  | _, .panicked, _ => none

theorem answer_environment {c : Choice E} {q : Request} {w v : World Chip} {r : Answer E q}
    (h : answer vectors c q w = some (r, v)) : environment (device vectors) q w r v := by
  cases q with
  | exchange command =>
    cases c with
    | works seed =>
      cases h
      exact ⟨.inl ⟨rfl, rfl⟩, rfl⟩
    | cut e =>
      cases h
      exact ⟨.inr ⟨⟨e, rfl⟩, .inl rfl⟩, rfl⟩
    | lost e =>
      cases h
      exact ⟨.inr ⟨⟨e, rfl⟩, .inr rfl⟩, rfl⟩
  | fill n =>
    cases c with
    | works seed =>
      cases h
      rfl
    | cut e =>
      cases h
      rfl
    | lost e =>
      cases h
      rfl
  | panicked => exact nomatch r

/-- The run of a program on the reference card with these choices. -/
def play (choices : List (Choice E)) (program : Prog (Answer E) α) (w : World Chip) :
    Option α × World Chip :=
  follow (answer vectors) choices program w

theorem play_runs {choices : List (Choice E)} {program : Prog (Answer E) α} {w : World Chip}
    {o : Option α} (h : (play vectors choices program w).1 = o) :
    Run (environment (device vectors)) program w o (play vectors choices program w).2 := by
  have hanswer : ∀ (c : Choice E) (q : Request) (w : World Chip) (r : Answer E q) (v : World Chip),
      answer vectors c q w = some (r, v) → environment (device vectors) q w r v :=
    fun _ _ _ _ _ => answer_environment vectors
  rw [← h]
  exact run_follow hanswer choices program w

/-! Keys with known answers, and cards that hold them. -/

/-- The bytes 00 to 17 of the AES-192 example vector. -/
def exampleKey : KeyBytes := ⟨(List.range 24).map UInt8.ofNat, rfl⟩

def freshKey : KeyBytes := ⟨List.replicate 24 0x42, rfl⟩

def newPin : Bytes := [0x36, 0x35, 0x34, 0x33, 0x32, 0x31]

def oldSalt : Bytes := List.replicate 16 0
def newSalt : Bytes := List.replicate 16 1

/-- The key of the default PIN and the old salt. -/
def oldDerivedKey : KeyBytes := ⟨[0x14, 0x5c, 0x88, 0x3d, 0xb7, 0xee, 0xd2, 0xa8, 0x67, 0xef, 0xeb, 0xed,
  0xe8, 0xc4, 0x5b, 0xbb, 0x9a, 0x2d, 0x4e, 0x45, 0xa1, 0x35, 0xc6, 0xc5], rfl⟩

/-- The key of the new PIN and the new salt. -/
def newDerivedKey : KeyBytes := ⟨[0x4d, 0xec, 0x76, 0xe5, 0x13, 0x15, 0x95, 0xf8, 0x86, 0x36, 0x10, 0x26,
  0xf2, 0x97, 0xa8, 0x51, 0xc6, 0xe7, 0xf3, 0x69, 0xc0, 0x9b, 0x22, 0xd9], rfl⟩

/-- The key of the new PIN and the old salt. -/
def staleDerivedKey : KeyBytes := ⟨[0x3d, 0xa5, 0x64, 0x09, 0x94, 0xd3, 0x8b, 0x9a, 0xfc, 0x2f, 0x4b, 0xb8,
  0xc6, 0x61, 0x0a, 0xdd, 0x98, 0x6c, 0x00, 0xcb, 0x4d, 0xd5, 0x10, 0x30], rfl⟩

def knownAnswers : Vectors where
  ciphers := [
    ⟨⟨.aes192, exampleKey.val⟩, cardChallenge .aes192, [0xdd, 0xa9, 0x7c, 0xa4, 0x86, 0x4c, 0xdf, 0xe0,
      0x6e, 0xaf, 0x70, 0xa0, 0xec, 0x0d, 0x71, 0x91]⟩,
    ⟨⟨.aes192, exampleKey.val⟩, List.replicate 16 0, [0x91, 0x62, 0x51, 0x82, 0x1c, 0x73, 0xa5, 0x22,
      0xc3, 0x96, 0xd6, 0x27, 0x38, 0x01, 0x96, 0x07]⟩,
    ⟨⟨.aes192, freshKey.val⟩, cardChallenge .aes192, [0x34, 0x64, 0x9a, 0x4c, 0x75, 0x53, 0x42, 0x82,
      0x09, 0x71, 0x38, 0xdd, 0x85, 0xbc, 0x0f, 0x38]⟩,
    ⟨⟨.tdes, oldDerivedKey.val⟩, cardChallenge .tdes, [0xb2, 0x9a, 0xa8, 0x82, 0xc6, 0xac, 0x7f, 0xa5]⟩,
    ⟨⟨.tdes, newDerivedKey.val⟩, cardChallenge .tdes, [0xb6, 0x07, 0x79, 0xf2, 0xcd, 0x2e, 0xdf, 0x5f]⟩]
  pbkdf2 := [⟨defaultPin, oldSalt, oldDerivedKey⟩, ⟨newPin, newSalt, newDerivedKey⟩,
    ⟨newPin, oldSalt, staleDerivedKey⟩]
  keys := []

/-- A card with the default PIN and PUK, right after power-up. -/
def cardWith (key : ManagementKey) (objects : List (ObjectId × Bytes)) (pukRetries : Nat) : World Chip where
  card := {
    card := {
      managementKey := key
      objects := fun id => objects.lookup id
      pin := defaultPin
      puk := defaultPuk
      pukLimit := 3
      pukRetries := pukRetries
      applied := [] }
    verified := false
    authenticated := false
    expected := none }
  log := []

end Runs

end Reference
