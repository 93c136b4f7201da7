import Ckman.BigEndian
import Ckman.Host

/-!
# CTAPHID framing

Reports, the framer and the message decoder of the HID transport. Arithmetic
that the source performs on machine integers is checked: a missing result is
the panic of an overflowing counter or an underflowing subtraction.
-/
namespace CtapHid

open Host

def reportLen : Nat := 64
def initHeader : Nat := 7
def contHeader : Nat := 5
def initPayload : Nat := reportLen - initHeader
def contPayload : Nat := reportLen - contHeader
def maxSeq : UInt8 := 0x7f
def maxMessageLen : Nat := initPayload + (maxSeq.toNat + 1) * contPayload
def broadcastCid : UInt32 := 0xffffffff

inductive Command where
  | ping | msg | lock | init | wink | cbor | cancel | error | keepalive
  deriving DecidableEq, Repr

namespace Command

def byte : Command → UInt8
  | ping => 0x81
  | msg => 0x83
  | lock => 0x84
  | init => 0x86
  | wink => 0x88
  | cbor => 0x90
  | cancel => 0x91
  | error => 0xbf
  | keepalive => 0xbb

def fromByte (byte : UInt8) : Option Command :=
  match byte with
  | 0x81 => some ping
  | 0x83 => some msg
  | 0x84 => some lock
  | 0x86 => some init
  | 0x88 => some wink
  | 0x90 => some cbor
  | 0x91 => some cancel
  | 0xbf => some error
  | 0xbb => some keepalive
  | _ => none

@[simp] theorem fromByte_byte (c : Command) : fromByte c.byte = some c := by cases c <;> rfl

/-- Every command byte carries the flag that marks an initialization report. -/
theorem byte_flag (c : Command) : c.byte &&& 0x80 ≠ 0 := by cases c <;> decide

end Command

inductive DeviceError where
  | invalidCmd | invalidParam | invalidLen | invalidSeq | msgTimeout | channelBusy
  | lockRequired | invalidChannel | other
  | unknown (byte : UInt8)
  deriving DecidableEq, Repr

def DeviceError.fromByte (byte : UInt8) : DeviceError :=
  match byte with
  | 0x01 => invalidCmd
  | 0x02 => invalidParam
  | 0x03 => invalidLen
  | 0x04 => invalidSeq
  | 0x05 => msgTimeout
  | 0x06 => channelBusy
  | 0x0a => lockRequired
  | 0x0b => invalidChannel
  | 0x7f => other
  | code => unknown code

inductive Keepalive where
  | processing | userPresenceNeeded
  | unknown (byte : UInt8)
  deriving DecidableEq, Repr

def Keepalive.fromByte (byte : UInt8) : Keepalive :=
  match byte with
  | 0x01 => processing
  | 0x02 => userPresenceNeeded
  | code => unknown code

inductive CtapHidError where
  | io (error : IoError)
  | timeout
  | payloadTooLarge (length : Nat)
  | malformed (reason : String)
  | device (error : DeviceError)
  | wrongChannel
  deriving DecidableEq, Repr

structure Report where
  bytes : Bytes
  size : bytes.length = reportLen
  deriving DecidableEq, Repr

namespace Report

def ofFields (fields : Bytes) : Report :=
  ⟨(fields ++ List.replicate reportLen 0).take reportLen, by simp⟩

def byte (r : Report) (i : Nat) : UInt8 := r.bytes.getD i 0

/-- `u32::from_be_bytes(report[..4])`. -/
def cid (r : Report) : UInt32 := UInt32.ofNat (BigEndian.decode (r.bytes.take 4))

/-- The fifth byte: a command with its flag, or a sequence number. -/
def tag (r : Report) : UInt8 := r.byte 4

def isInit (r : Report) : Prop := r.tag &&& 0x80 ≠ 0

instance (r : Report) : Decidable r.isInit := inferInstanceAs (Decidable (_ ≠ _))

/-- `u16::from_be_bytes([report[5], report[6]])`. -/
def declared (r : Report) : Nat := BigEndian.decode [r.byte 5, r.byte 6]

def initData (r : Report) : Bytes := r.bytes.drop initHeader

def contData (r : Report) : Bytes := r.bytes.drop contHeader

@[simp] theorem length_initData (r : Report) : r.initData.length = initPayload := by
  simp [initData, r.size, initPayload]

@[simp] theorem length_contData (r : Report) : r.contData.length = contPayload := by
  simp [contData, r.size, contPayload]

theorem bytes_ofFields {fields : Bytes} (h : fields.length ≤ reportLen) :
    (ofFields fields).bytes = fields ++ List.replicate (reportLen - fields.length) 0 := by
  simp only [ofFields]
  rw [List.take_append, List.take_of_length_le h, List.take_replicate, Nat.min_eq_left (by omega)]

end Report

/-- The `while` loop of `frame_message`: one continuation report a turn. -/
def frameLoop (cid : UInt32) (payload : Bytes) (offset : Nat) (seq : UInt8)
    (packets : List Report) : Option (List Report) :=
  if offset < payload.length then
    let take := min (payload.length - offset) contPayload
    let cont := Report.ofFields
      (BigEndian.encode 4 cid.toNat ++ [seq] ++ (payload.drop offset).take take)
    (checkedSucc seq).bind fun seq =>
      frameLoop cid payload (offset + take) seq (packets ++ [cont])
  else some packets
termination_by payload.length - offset
decreasing_by
  have : 0 < contPayload := by decide
  omega

/-- Split `payload` into one initialization packet plus continuation packets. -/
def frameMessage (cid : UInt32) (cmd : Command) (payload : Bytes) :
    Option (Except CtapHidError (List Report)) :=
  if payload.length > maxMessageLen then some (.error (.payloadTooLarge payload.length))
  else
    let head := min payload.length initPayload
    let init := Report.ofFields
      (BigEndian.encode 4 cid.toNat ++ [cmd.byte] ++
        BigEndian.encode 2 (UInt16.ofNat payload.length).toNat ++ payload.take head)
    (frameLoop cid payload head 0 [init]).map .ok

structure Partial where
  cmd : UInt8
  expected : Nat
  buf : Bytes
  nextSeq : UInt8
  deriving DecidableEq, Repr

structure MessageDecoder where
  active : Option Partial
  deriving DecidableEq, Repr

/-- What one call of `push` returns to its caller. -/
abbrev PushResult := Except CtapHidError (Option (Command × Bytes))

namespace MessageDecoder

/-- `MessageDecoder::new`: no message in flight. -/
def new : MessageDecoder := ⟨none⟩

/-- An initialization report aborts any partial message. -/
def pushInit (report : Report) : PushResult × MessageDecoder :=
  let expected := report.declared
  match Command.fromByte report.tag with
  | none => (.error (.malformed "unknown command byte"), new)
  | some cmd =>
    if expected > maxMessageLen then (.error (.malformed "declared length out of range"), new)
    else
      let head := min expected initPayload
      let buf := report.initData.take head
      if buf.length = expected then (.ok (some (cmd, buf)), new)
      else (.ok none, ⟨some { cmd := report.tag, expected, buf, nextSeq := 0 }⟩)

/-- A continuation report takes the partial message out before checking it, so
that every early return leaves the decoder idle. -/
def pushCont (active : Option Partial) (report : Report) : Option (PushResult × MessageDecoder) :=
  match active with
  | none => some (.error (.malformed "unexpected continuation packet"), new)
  | some p =>
    if report.tag ≠ p.nextSeq then some (.error (.device .invalidSeq), new)
    else
      (checkedSub p.expected p.buf.length).bind fun remaining =>
      let take := min remaining contPayload
      let buf := p.buf ++ report.contData.take take
      (checkedSucc p.nextSeq).map fun nextSeq =>
      if buf.length = p.expected then
        match Command.fromByte p.cmd with
        | none => (.error (.malformed "unknown command byte"), new)
        | some cmd => (.ok (some (cmd, buf)), new)
      else (.ok none, ⟨some { p with buf, nextSeq }⟩)

/-- Feed one report. A missing result is an arithmetic panic. -/
def push (d : MessageDecoder) (report : Report) : Option (PushResult × MessageDecoder) :=
  if report.isInit then some (pushInit report) else pushCont d.active report

def pushAll (d : MessageDecoder) : List Report → Option (List PushResult × MessageDecoder)
  | [] => some ([], d)
  | r :: rs => do
    let (x, d) ← d.push r
    let (xs, d) ← d.pushAll rs
    pure (x :: xs, d)

@[simp] theorem pushAll_nil (d : MessageDecoder) : d.pushAll [] = some ([], d) := rfl

theorem pushAll_cons {d e f : MessageDecoder} {r : Report} {rs : List Report} {x : PushResult}
    {xs : List PushResult} (h : d.push r = some (x, e)) (hs : e.pushAll rs = some (xs, f)) :
    d.pushAll (r :: rs) = some (x :: xs, f) := by
  simp [pushAll, h, hs]

theorem pushAll_append {d e f : MessageDecoder} {rs ss : List Report} {xs ys : List PushResult}
    (h : d.pushAll rs = some (xs, e)) (hs : e.pushAll ss = some (ys, f)) :
    d.pushAll (rs ++ ss) = some (xs ++ ys, f) := by
  induction rs generalizing d xs with
  | nil =>
    obtain ⟨rfl, rfl⟩ : xs = [] ∧ d = e := by simpa [eq_comm] using h
    simpa using hs
  | cons r rs ih =>
    simp only [pushAll, Option.bind_eq_bind, Option.bind_eq_some_iff, Option.pure_def,
      Option.some.injEq, Prod.mk.injEq] at h
    obtain ⟨⟨x, c⟩, hr, ⟨zs, b⟩, hz, rfl, rfl⟩ := h
    exact pushAll_cons hr (ih hz)

theorem length_pushAll {d e : MessageDecoder} {rs : List Report} {xs : List PushResult}
    (h : d.pushAll rs = some (xs, e)) : xs.length = rs.length := by
  induction rs generalizing d xs with
  | nil => simp_all [pushAll]
  | cons r rs ih =>
    simp only [pushAll, Option.bind_eq_bind, Option.bind_eq_some_iff, Option.pure_def,
      Option.some.injEq, Prod.mk.injEq] at h
    obtain ⟨⟨x, c⟩, -, ⟨zs, b⟩, hz, rfl, rfl⟩ := h
    simp [ih hz]

end MessageDecoder

end CtapHid
