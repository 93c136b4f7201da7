import Ckman.CtapHidChannel
import Mathlib.Data.List.Forall2

/-!
# CTAP messages over a HID channel

`CtapHidAdapter` accepts the ISO 7816 envelope of CTAP messages: it answers the
two SELECTs itself, collects chained fragments, and sends the collected message
at the final fragment. The specification below never mentions the pending
buffer: the message is what the calls since the last SELECT, error or completed
message carried.
-/
namespace Fido

open Host CtapHid

/-- The `{0:?}` form of a device error. -/
def debugDeviceError : DeviceError → String
  | .invalidCmd => "InvalidCmd"
  | .invalidParam => "InvalidParam"
  | .invalidLen => "InvalidLen"
  | .invalidSeq => "InvalidSeq"
  | .msgTimeout => "MsgTimeout"
  | .channelBusy => "ChannelBusy"
  | .lockRequired => "LockRequired"
  | .invalidChannel => "InvalidChannel"
  | .other => "Other"
  | .unknown code => s!"Unknown({code})"

def displayCtapHidError : CtapHidError → String
  | .io e => s!"HID I/O error: {e.message}"
  | .timeout => "timed out waiting for the authenticator"
  | .payloadTooLarge n => s!"message of {n} bytes exceeds the CTAPHID limit of {maxMessageLen}"
  | .malformed reason => s!"malformed report from the authenticator: {reason}"
  | .device e => s!"authenticator reported an error: {debugDeviceError e}"
  | .wrongChannel => "authenticator answered on an unexpected channel"

def fido2UsbSelect : Bytes :=
  [0x00, 0xa4, 0x04, 0x00, 0x08, 0xf0, 0x43, 0x41, 0x4e, 0x4f, 0x46, 0x49, 0x44]

/-- Standard FIDO2 AID used for NFC and legacy firmware fallback. -/
def fido2StandardSelect : Bytes :=
  [0x00, 0xa4, 0x04, 0x00, 0x08, 0xa0, 0x00, 0x00, 0x06, 0x47, 0x2f, 0x00, 0x01]

structure CtapHidAdapter where
  channel : CtapHidChannel
  pending : Bytes
  /-- The statuses handed to `on_keepalive` so far. -/
  keepalives : List Keepalive
  deriving DecidableEq, Repr

/-- The outcome of one `exchange`. -/
abbrev Reply := Except IoError Bytes

/-- `hid_err`: any HID error becomes an I/O error of kind `Other`. -/
def hidErr (error : CtapHidError) : IoError := ⟨.other, displayCtapHidError error⟩

def invalidInput (message : String) : IoError := ⟨.invalidInput, message⟩

/-- Short Lc, or extended 3-byte Lc when the first Lc byte is zero. -/
def dataAndLc (command : Bytes) : Except IoError (Bytes × Nat) :=
  if command.getD 4 0 = 0 then
    if command.length < 7 then .error (invalidInput "short Lc")
    else .ok (command.drop 7, BigEndian.decode [command.getD 5 0, command.getD 6 0])
  else .ok (command.drop 5, (command.getD 4 0).toNat)

namespace CtapHidAdapter

def new (channel : CtapHidChannel) : CtapHidAdapter := ⟨channel, [], []⟩

/-- The pending buffer is taken before the request, so it is empty whatever the
request returns. -/
def send (adapter : CtapHidAdapter) (message : Bytes) : Option (Reply × CtapHidAdapter) :=
  (request adapter.channel.cid .cbor message adapter.channel.io).map fun answer =>
    (match answer.result with
      | .ok out => .ok (out ++ [0x90, 0x00])
      | .error e => .error (hidErr e),
      { channel := { adapter.channel with io := answer.hid }
        pending := []
        keepalives := adapter.keepalives ++ answer.keepalives })

/-- A missing result is an arithmetic panic. -/
def exchangeInner (adapter : CtapHidAdapter) (command : Bytes) : Option (Reply × CtapHidAdapter) :=
  if command = fido2UsbSelect ∨ command = fido2StandardSelect then
    some (.ok [0x90, 0x00], { adapter with pending := [] })
  else if command.length < 5 then some (.error (invalidInput "short APDU"), adapter)
  else
    let cla := command.getD 0 0
    let ins := command.getD 1 0
    if ins ≠ 0x10 ∨ cla &&& ~~~0x10 ≠ 0x80 then
      some (.error (invalidInput "not a CTAP message command"), adapter)
    else
      match dataAndLc command with
      | .error e => some (.error e, adapter)
      | .ok (data, lc) =>
        if data.length ≠ lc then
          some (.error (invalidInput "Lc does not match the APDU length"), adapter)
        else
          (checkedSub maxMessageLen adapter.pending.length).bind fun capacity =>
          if data.length > capacity then
            some (.error (invalidInput "command chain exceeds the CTAPHID message limit"), adapter)
          else if cla &&& 0x10 ≠ 0 then
            some (.ok [0x90, 0x00], { adapter with pending := adapter.pending ++ data })
          else adapter.send (adapter.pending ++ data)

/-- SELECT and failed exchanges discard incomplete command chains. -/
def exchange (adapter : CtapHidAdapter) (command : Bytes) : Option (Reply × CtapHidAdapter) :=
  (adapter.exchangeInner command).map fun (reply, adapter) =>
    match reply with
    | .error e => (.error e, { adapter with pending := [] })
    | .ok response => (.ok response, adapter)

def exchangeAll (adapter : CtapHidAdapter) : List Bytes → Option (List Reply × CtapHidAdapter)
  | [] => some ([], adapter)
  | command :: commands => do
    let (reply, adapter) ← adapter.exchange command
    let (replies, adapter) ← adapter.exchangeAll commands
    pure (reply :: replies, adapter)

@[simp] theorem exchangeAll_nil (adapter : CtapHidAdapter) :
    adapter.exchangeAll [] = some ([], adapter) := rfl

theorem exchangeAll_cons {a b c : CtapHidAdapter} {command : Bytes} {commands : List Bytes}
    {reply : Reply} {replies : List Reply} (h : a.exchange command = some (reply, b))
    (hs : b.exchangeAll commands = some (replies, c)) :
    a.exchangeAll (command :: commands) = some (reply :: replies, c) := by
  simp [exchangeAll, h, hs]

end CtapHidAdapter

/-- The two encodings of a data length. A short Lc of zero does not exist. -/
inductive LcField : Bytes → Nat → Prop where
  | short (l : UInt8) : l ≠ 0 → LcField [l] l.toNat
  | extended (hi lo : UInt8) : LcField [0, hi, lo] (BigEndian.decode [hi, lo])

theorem LcField.length_pos {lc : Bytes} {n : Nat} (h : LcField lc n) : 0 < lc.length := by
  cases h <;> simp

/-- An APDU that carries `data` as one fragment of a CTAP message; `more` is
the chaining bit of its class byte. -/
def Fragment (more : Bool) (data command : Bytes) : Prop :=
  ∃ p1 p2 lc, LcField lc data.length ∧
    command = (if more then 0x90 else 0x80) :: 0x10 :: p1 :: p2 :: (lc ++ data)

def IsSelect (command : Bytes) : Prop :=
  command = fido2UsbSelect ∨ command = fido2StandardSelect

/-- The class byte of a fragment, with and without the chaining bit. -/
theorem cla_iff (cla : UInt8) : cla &&& ~~~0x10 = 0x80 ↔ cla = 0x90 ∨ cla = 0x80 := by
  have h : ∀ v : BitVec 8, v &&& ~~~0x10#8 = 0x80#8 ↔ v = 0x90#8 ∨ v = 0x80#8 := by decide
  simpa [← UInt8.toBitVec_inj] using h cla.toBitVec

theorem Fragment.not_select {more : Bool} {data command : Bytes} (h : Fragment more data command) :
    ¬ IsSelect command := by
  obtain ⟨p1, p2, lc, -, rfl⟩ := h
  intro hs
  cases more <;> rcases hs with h | h <;> simp [fido2UsbSelect, fido2StandardSelect] at h

theorem LcField.unique {lc lc' data data' : Bytes} (h : LcField lc data.length)
    (h' : LcField lc' data'.length) (he : lc ++ data = lc' ++ data') : data = data' := by
  generalize data.length = n at h
  generalize data'.length = n' at h'
  cases h with
  | short l hl =>
    cases h' with
    | short l' hl' => simpa using (List.cons.inj he).2
    | extended hi lo => exact absurd (List.cons.inj he).1 hl
  | extended hi lo =>
    cases h' with
    | short l' hl' => exact absurd (List.cons.inj he).1.symm hl'
    | extended hi' lo' => simp_all

/-- An APDU carries at most one fragment. -/
theorem Fragment.unique {more more' : Bool} {data data' command : Bytes}
    (h : Fragment more data command) (h' : Fragment more' data' command) :
    more = more' ∧ data = data' := by
  obtain ⟨p1, p2, lc, hlc, rfl⟩ := h
  obtain ⟨p1', p2', lc', hlc', he⟩ := h'
  simp only [List.cons.injEq] at he
  obtain ⟨hcla, -, -, -, hrest⟩ := he
  refine ⟨?_, hlc.unique hlc' hrest⟩
  cases more <;> cases more' <;> first | rfl | exact absurd hcla (by decide)

theorem dataAndLc_fragment {lc data : Bytes} {cla ins p1 p2 : UInt8} (h : LcField lc data.length) :
    dataAndLc (cla :: ins :: p1 :: p2 :: (lc ++ data)) = .ok (data, data.length) := by
  generalize hn : data.length = n at h
  cases h with
  | short l hl => simp [dataAndLc, hl]
  | extended hi lo => simp [dataAndLc]

theorem exchangeInner_select {command : Bytes} (h : IsSelect command) (adapter : CtapHidAdapter) :
    adapter.exchangeInner command = some (.ok [0x90, 0x00], { adapter with pending := [] }) :=
  if_pos h

/-- What a fragment does: it is refused when the chain would exceed the limit,
collected when more follow, and sent otherwise. -/
theorem exchangeInner_fragment {more : Bool} {data command : Bytes} (h : Fragment more data command)
    {adapter : CtapHidAdapter} (hp : adapter.pending.length ≤ maxMessageLen) :
    adapter.exchangeInner command =
      if adapter.pending.length + data.length > maxMessageLen then
        some (.error (invalidInput "command chain exceeds the CTAPHID message limit"), adapter)
      else if more then some (.ok [0x90, 0x00], { adapter with pending := adapter.pending ++ data })
      else adapter.send (adapter.pending ++ data) := by
  have hsel : ¬ (command = fido2UsbSelect ∨ command = fido2StandardSelect) := h.not_select
  obtain ⟨p1, p2, lc, hlc, rfl⟩ := h
  have hlen := hlc.length_pos
  have hcla : (if more then (0x90 : UInt8) else 0x80) &&& ~~~0x10 = 0x80 := by
    cases more <;> decide
  have hmore : (if more then (0x90 : UInt8) else 0x80) &&& 0x10 ≠ 0 ↔ more = true := by
    cases more <;> decide
  have hroom : data.length > maxMessageLen - adapter.pending.length ↔
      adapter.pending.length + data.length > maxMessageLen := by omega
  rw [CtapHidAdapter.exchangeInner, if_neg hsel, if_neg (by simp; omega)]
  simp only [List.getD_cons_zero, List.getD_cons_succ, hcla, dataAndLc_fragment hlc,
    checkedSub_of_le hp, Option.bind_some, hroom, hmore]
  rw [if_neg (by simp), if_neg (by simp)]

/-- Every other command is refused before the adapter is touched. -/
theorem exchangeInner_refused {command : Bytes} (hs : ¬ IsSelect command)
    (hf : ∀ more data, ¬ Fragment more data command) :
    ∃ e, ∀ adapter : CtapHidAdapter, adapter.exchangeInner command = some (.error e, adapter) := by
  have hs : ¬ (command = fido2UsbSelect ∨ command = fido2StandardSelect) := hs
  by_cases hlen : command.length < 5
  · refine ⟨invalidInput "short APDU", fun adapter => ?_⟩
    rw [CtapHidAdapter.exchangeInner, if_neg hs, if_pos hlen]
  · obtain ⟨cla, ins, p1, p2, l, rest, rfl⟩ : ∃ cla ins p1 p2 l rest,
        command = cla :: ins :: p1 :: p2 :: l :: rest := by
      rcases command with _ | ⟨cla, _ | ⟨ins, _ | ⟨p1, _ | ⟨p2, _ | ⟨l, rest⟩⟩⟩⟩⟩
      case cons.cons.cons.cons.cons => exact ⟨cla, ins, p1, p2, l, rest, rfl⟩
      all_goals exact absurd (by simp) hlen
    by_cases hins : ins ≠ 0x10 ∨ cla &&& ~~~0x10 ≠ 0x80
    · refine ⟨invalidInput "not a CTAP message command", fun adapter => ?_⟩
      rw [CtapHidAdapter.exchangeInner, if_neg hs, if_neg hlen]
      simp only [List.getD_cons_zero, List.getD_cons_succ, if_pos hins]
    · obtain ⟨rfl, hcla⟩ : ins = 0x10 ∧ cla &&& ~~~0x10 = 0x80 := by simpa using hins
      have hbyte : ∃ more : Bool, cla = if more then 0x90 else 0x80 := by
        rcases (cla_iff cla).mp hcla with rfl | rfl
        · exact ⟨true, rfl⟩
        · exact ⟨false, rfl⟩
      obtain ⟨more, hmore⟩ := hbyte
      cases hd : dataAndLc (cla :: 0x10 :: p1 :: p2 :: l :: rest) with
      | error e =>
        refine ⟨e, fun adapter => ?_⟩
        rw [CtapHidAdapter.exchangeInner, if_neg hs, if_neg hlen]
        simp only [List.getD_cons_zero, List.getD_cons_succ, if_neg hins, hd]
      | ok found =>
        obtain ⟨data, lc⟩ := found
        -- A matching length would make the command a fragment.
        have hne : data.length ≠ lc := by
          intro heq
          by_cases hl : l = 0
          · subst hl
            rcases rest with _ | ⟨hi, _ | ⟨lo, rest⟩⟩
            · simp [dataAndLc] at hd
            · simp [dataAndLc] at hd
            · simp only [dataAndLc, List.getD_cons_zero, List.getD_cons_succ, if_true,
                List.drop_succ_cons, List.drop_zero, List.length_cons,
                if_neg (show ¬ rest.length + 1 + 1 + 1 + 1 + 1 + 1 + 1 < 7 by omega),
                Except.ok.injEq, Prod.mk.injEq] at hd
              obtain ⟨rfl, rfl⟩ := hd
              exact hf more rest ⟨p1, p2, [0, hi, lo], heq ▸ .extended hi lo, by rw [hmore]; rfl⟩
          · simp only [dataAndLc, List.getD_cons_zero, List.getD_cons_succ, if_neg hl,
              List.drop_succ_cons, List.drop_zero, Except.ok.injEq, Prod.mk.injEq] at hd
            obtain ⟨rfl, rfl⟩ := hd
            exact hf more rest ⟨p1, p2, [l], heq ▸ .short l hl, by rw [hmore]; rfl⟩
        refine ⟨invalidInput "Lc does not match the APDU length", fun adapter => ?_⟩
        rw [CtapHidAdapter.exchangeInner, if_neg hs, if_neg hlen]
        simp only [List.getD_cons_zero, List.getD_cons_succ, if_neg hins, hd, if_pos hne]

abbrev Call := Bytes × Reply

/-- After these calls a new command chain starts. -/
def Boundary (call : Call) : Prop :=
  IsSelect call.1 ∨ (∃ e, call.2 = .error e) ∨ ∃ data, Fragment false data call.1

/-- The data fields of the calls after the last boundary, all of them
fragments that announced more. -/
def Since (calls : List Call) (fields : List Bytes) : Prop :=
  ∃ old chain, calls = old ++ chain ∧ (∀ call, old.getLast? = some call → Boundary call) ∧
    List.Forall₂ (fun call data => ¬ Boundary call ∧ Fragment true data call.1) chain fields

theorem since_boundary {call : Call} (calls : List Call) (h : Boundary call) :
    Since (calls ++ [call]) [] := by
  refine ⟨calls ++ [call], [], by simp, ?_, .nil⟩
  intro last hl
  obtain rfl : call = last := by simpa using hl
  exact h

theorem since_fragment {calls : List Call} {fields : List Bytes} {call : Call} {data : Bytes}
    (hs : Since calls fields) (hb : ¬ Boundary call) (hf : Fragment true data call.1) :
    Since (calls ++ [call]) (fields ++ [data]) := by
  obtain ⟨old, chain, rfl, hold, hall⟩ := hs
  refine ⟨old, chain ++ [call], by simp, hold, ?_⟩
  exact List.rel_append hall (.cons ⟨hb, hf⟩ .nil)

/-- What the reports written by a call say about the message it sent: they are
the framed message, all of it unless one of the writes fails. A failing write
cuts it off, and its error is the reply. -/
def Sends (before after : CtapHidAdapter) (message : Bytes) (reply : Reply) : Prop :=
  ∃ packets sent status, frameMessage before.channel.cid .cbor message = some (.ok packets) ∧
    before.channel.io.Wrote packets status sent ∧
    after.channel.io.written = before.channel.io.written ++ sent ∧
    ∀ e, status = .error e → reply = .error (hidErr (.io e))

/-- One call of `exchange` after the calls `calls`. -/
structure Exchanged (calls : List Call) (before : CtapHidAdapter) (command : Bytes) (reply : Reply)
    (after : CtapHidAdapter) : Prop where
  boundedBefore : before.pending.length ≤ maxMessageLen
  boundedAfter : after.pending.length ≤ maxMessageLen
  cleared : ∀ e, reply = .error e → after.pending = []
  /-- A final fragment sends what the chain carried, or is refused unsent. -/
  final : ∀ data, Fragment false data command → ∃ fields, Since calls fields ∧
    if (fields.flatten ++ data).length ≤ maxMessageLen then
      Sends before after (fields.flatten ++ data) reply
    else after.channel = before.channel ∧ ∃ e, reply = .error e
  /-- Nothing else reaches the device. -/
  silent : (∀ data, ¬ Fragment false data command) → after.channel = before.channel

/-- The pending buffer is the data of the chain so far. -/
def Collected (calls : List Call) (adapter : CtapHidAdapter) : Prop :=
  ∃ fields, Since calls fields ∧ adapter.pending = fields.flatten ∧
    adapter.pending.length ≤ maxMessageLen

theorem collected_new (channel : CtapHidChannel) : Collected [] (.new channel) :=
  ⟨[], ⟨[], [], rfl, by simp, .nil⟩, rfl, Nat.zero_le _⟩

namespace CtapHidAdapter

/-- Sending a message that fits never panics and leaves nothing pending. -/
theorem send_sends (adapter : CtapHidAdapter) {message : Bytes}
    (hle : message.length ≤ maxMessageLen) :
    ∃ reply after, adapter.send message = some (reply, after) ∧ after.pending = [] ∧
      Sends adapter after message reply := by
  obtain ⟨a, hr, hq⟩ := request_requested adapter.channel.cid .cbor message adapter.channel.io
  refine ⟨_, _, by rw [send, hr, Option.map_some], rfl, ?_⟩
  cases hq with
  | unframed e hf he =>
    obtain ⟨init, conts, hf', -⟩ := frameMessage_delivers adapter.channel.cid .cbor hle
    rw [hf] at hf'
    cases hf'
  | unwritten packets sent e hf hwrote hsent hreads he hk =>
    refine ⟨packets, sent, .error e, hf, hwrote, hsent, ?_⟩
    rintro _ ⟨⟩
    rw [he]
  | answered packets hf hwrote hsent hdet =>
    refine ⟨packets, packets, .ok (), hf, hwrote, hsent, ?_⟩
    intro e he
    cases he

theorem exchange_error {adapter after : CtapHidAdapter} {command : Bytes} {e : IoError}
    (h : adapter.exchangeInner command = some (.error e, after)) :
    adapter.exchange command = some (.error e, { after with pending := [] }) := by
  rw [exchange, h, Option.map_some]

theorem exchange_ok {adapter after : CtapHidAdapter} {command response : Bytes}
    (h : adapter.exchangeInner command = some (.ok response, after)) :
    adapter.exchange command = some (.ok response, after) := by
  rw [exchange, h, Option.map_some]

/-- Clearing what is already empty changes nothing. -/
theorem exchange_idle {adapter after : CtapHidAdapter} {command : Bytes} {reply : Reply}
    (h : adapter.exchangeInner command = some (reply, after)) (hp : after.pending = []) :
    adapter.exchange command = some (reply, after) := by
  cases reply with
  | ok response => exact exchange_ok h
  | error e =>
    rw [exchange_error h, ← hp]

end CtapHidAdapter

/-- One call: no panic, the promises above, and a buffer that still is the
data of the chain. -/
theorem exchange_step {calls : List Call} {before : CtapHidAdapter} (hc : Collected calls before)
    (command : Bytes) : ∃ reply after, before.exchange command = some (reply, after) ∧
      Exchanged calls before command reply after ∧ Collected (calls ++ [(command, reply)]) after := by
  obtain ⟨fields, hs, hp, hle⟩ := hc
  -- The calls after which nothing is pending.
  have idle : ∀ (reply : Reply) (after : CtapHidAdapter), Boundary (command, reply) →
      after.pending = [] → Collected (calls ++ [(command, reply)]) after := by
    intro reply after hb he
    exact ⟨[], since_boundary calls hb, by simp [he], by simp [he]⟩
  by_cases hsel : IsSelect command
  · have hx := exchangeInner_select hsel before
    refine ⟨_, _, CtapHidAdapter.exchange_ok hx, ⟨hle, Nat.zero_le _, fun _ _ => rfl, ?_,
      fun _ => rfl⟩, idle _ _ (.inl hsel) rfl⟩
    intro data hf
    exact absurd hsel hf.not_select
  · by_cases hfrag : ∃ more data, Fragment more data command
    · obtain ⟨more, data, hf⟩ := hfrag
      have hx := exchangeInner_fragment hf hle
      by_cases hlong : before.pending.length + data.length > maxMessageLen
      · rw [if_pos hlong] at hx
        refine ⟨_, _, CtapHidAdapter.exchange_error hx, ⟨hle, Nat.zero_le _, fun _ _ => rfl, ?_,
          fun _ => rfl⟩, idle _ _ (.inr (.inl ⟨_, rfl⟩)) rfl⟩
        intro data' hf'
        obtain ⟨-, rfl⟩ := hf.unique hf'
        refine ⟨fields, hs, ?_⟩
        rw [if_neg (by rw [List.length_append, ← hp]; omega)]
        exact ⟨rfl, _, rfl⟩
      · rw [if_neg hlong] at hx
        have hfits : (before.pending ++ data).length ≤ maxMessageLen := by
          rw [List.length_append]
          omega
        cases more with
        | true =>
          rw [if_pos rfl] at hx
          have hno : ∀ data', ¬ Fragment false data' command := by
            intro data' hf'
            cases (hf.unique hf').1
          have hb : ¬ Boundary (command, (.ok [0x90, 0x00] : Reply)) := by
            rintro (h | ⟨e, h⟩ | ⟨data', hf'⟩)
            · exact hsel h
            · cases h
            · exact hno data' hf'
          refine ⟨_, _, CtapHidAdapter.exchange_ok hx, ⟨hle, hfits, ?_, ?_, fun _ => rfl⟩,
            fields ++ [data], since_fragment hs hb hf, by simp [hp], hfits⟩
          · intro e he
            cases he
          · intro data' hf'
            exact absurd hf' (hno data')
        | false =>
          rw [if_neg (by simp)] at hx
          obtain ⟨reply, after, hsend, hempty, hsent⟩ := before.send_sends hfits
          rw [hsend] at hx
          refine ⟨reply, after, CtapHidAdapter.exchange_idle hx hempty,
            ⟨hle, by simp [hempty], fun _ _ => hempty, ?_, ?_⟩,
            idle _ _ (.inr (.inr ⟨data, hf⟩)) hempty⟩
          · intro data' hf'
            obtain ⟨-, rfl⟩ := hf.unique hf'
            refine ⟨fields, hs, ?_⟩
            rw [hp] at hsent hfits
            rw [if_pos hfits]
            exact hsent
          · intro hno
            exact absurd hf (hno data)
    · obtain ⟨e, hx⟩ := exchangeInner_refused hsel (fun more data h => hfrag ⟨more, data, h⟩)
      refine ⟨_, _, CtapHidAdapter.exchange_error (hx before), ⟨hle, Nat.zero_le _, fun _ _ => rfl,
        ?_, fun _ => rfl⟩, idle _ _ (.inr (.inl ⟨e, rfl⟩)) rfl⟩
      intro data hf
      exact absurd ⟨false, data, hf⟩ hfrag

/-- Every call of a run, from the adapter that the earlier calls left. -/
theorem exchangeAll_exchanged {calls : List Call} {before : CtapHidAdapter}
    (hc : Collected calls before) (commands : List Bytes) :
    ∃ replies after, before.exchangeAll commands = some (replies, after) ∧
      replies.length = commands.length ∧ Collected (calls ++ commands.zip replies) after ∧
      ∀ (i : Nat) (command : Bytes) (reply : Reply),
        commands[i]? = some command → replies[i]? = some reply →
        ∃ a b, before.exchangeAll (commands.take i) = some (replies.take i, a) ∧
          before.exchangeAll (commands.take (i + 1)) = some (replies.take (i + 1), b) ∧
          Exchanged (calls ++ (commands.zip replies).take i) a command reply b := by
  induction commands generalizing calls before with
  | nil => exact ⟨[], before, rfl, rfl, by simpa using hc, by intro i command reply h; simp at h⟩
  | cons command commands ih =>
    obtain ⟨reply, next, hx, he, hn⟩ := exchange_step hc command
    obtain ⟨replies, after, hxs, hlen, hlast, hall⟩ := ih hn
    refine ⟨reply :: replies, after, CtapHidAdapter.exchangeAll_cons hx hxs, by simp [hlen], ?_, ?_⟩
    · simpa using hlast
    · intro i c r hcmd hrep
      cases i with
      | zero =>
        obtain rfl : command = c := by simpa using hcmd
        obtain rfl : reply = r := by simpa using hrep
        exact ⟨before, next, rfl, CtapHidAdapter.exchangeAll_cons hx rfl, by simpa using he⟩
      | succ i =>
        obtain ⟨a, b, ha, hb, hexch⟩ := hall i c r (by simpa using hcmd) (by simpa using hrep)
        exact ⟨a, b, CtapHidAdapter.exchangeAll_cons hx ha, CtapHidAdapter.exchangeAll_cons hx hb,
          by simpa using hexch⟩

/-- The commands carry `message`, split in any way and with any Lc forms. -/
inductive Chain : Bytes → List Bytes → Prop where
  | last {message command : Bytes} : Fragment false message command → Chain message [command]
  | more {data message command : Bytes} {commands : List Bytes} : Fragment true data command →
      Chain message commands → Chain (data ++ message) (command :: commands)

/-- Every fragment but the last is acknowledged, and the last one answers for
the whole message. -/
theorem exchangeAll_chain {message : Bytes} {commands : List Bytes} (h : Chain message commands) :
    ∀ adapter : CtapHidAdapter, (adapter.pending ++ message).length ≤ maxMessageLen →
      ∃ reply after, adapter.send (adapter.pending ++ message) = some (reply, after) ∧
        adapter.exchangeAll commands =
          some (List.replicate (commands.length - 1) (.ok [0x90, 0x00]) ++ [reply], after) := by
  induction h with
  | @last message command hf =>
    intro adapter hle
    obtain ⟨reply, after, hsend, hempty, -⟩ := adapter.send_sends hle
    rw [List.length_append] at hle
    have hroom : adapter.pending.length ≤ maxMessageLen := by omega
    have hx := exchangeInner_fragment hf hroom
    rw [if_neg (by omega), if_neg (by simp), hsend] at hx
    exact ⟨reply, after, hsend,
      CtapHidAdapter.exchangeAll_cons (CtapHidAdapter.exchange_idle hx hempty) rfl⟩
  | @more data message command commands hf hc ih =>
    intro adapter hle
    obtain ⟨reply, after, hsend, hall⟩ :=
      ih { adapter with pending := adapter.pending ++ data } (by simpa using hle)
    simp only [List.length_append] at hle
    have hroom : adapter.pending.length ≤ maxMessageLen := by omega
    have hx := exchangeInner_fragment hf hroom
    rw [if_neg (by omega), if_pos rfl] at hx
    have hpos : commands.length = commands.length - 1 + 1 := by cases hc <;> simp
    refine ⟨reply, after, by simpa [CtapHidAdapter.send] using hsend, ?_⟩
    have hrun := CtapHidAdapter.exchangeAll_cons (CtapHidAdapter.exchange_ok hx) hall
    rw [← List.cons_append, ← List.replicate_succ, ← hpos] at hrun
    exact hrun

/-- Any sequence of calls on a new adapter runs without a panic, and each call
meets `Exchanged`: the pending buffer stays within the limit and is cleared by
every error, and a final fragment sends the data fields of the fragments since
the last SELECT, error or completed message, or is refused unsent when they
exceed the limit. Wherever a run has left nothing pending, the reply to a
message and the adapter after it depend neither on how the message is split nor
on its Lc forms. -/
theorem exchange_runs (channel : CtapHidChannel) (commands : List Bytes) :
    ∃ replies adapter, (CtapHidAdapter.new channel).exchangeAll commands = some (replies, adapter) ∧
      replies.length = commands.length ∧
      (∀ (i : Nat) (command : Bytes) (reply : Reply),
        commands[i]? = some command → replies[i]? = some reply →
        ∃ before after,
          (CtapHidAdapter.new channel).exchangeAll (commands.take i) =
            some (replies.take i, before) ∧
          (CtapHidAdapter.new channel).exchangeAll (commands.take (i + 1)) =
            some (replies.take (i + 1), after) ∧
          Exchanged ((commands.zip replies).take i) before command reply after) ∧
      ∀ message : Bytes, adapter.pending = [] → message.length ≤ maxMessageLen →
        ∃ reply after, Sends adapter after message reply ∧ ∀ chain, Chain message chain →
          adapter.exchangeAll chain =
            some (List.replicate (chain.length - 1) (.ok [0x90, 0x00]) ++ [reply], after) := by
  obtain ⟨replies, adapter, hx, hlen, -, hall⟩ :=
    exchangeAll_exchanged (collected_new channel) commands
  refine ⟨replies, adapter, hx, hlen, hall, ?_⟩
  intro message hp hle
  obtain ⟨reply, after, hsend, -, hsent⟩ := adapter.send_sends hle
  refine ⟨reply, after, hsent, ?_⟩
  intro chain hc
  obtain ⟨reply', after', hsend', hrun⟩ := exchangeAll_chain hc adapter (by simpa [hp] using hle)
  rw [hp, List.nil_append, hsend] at hsend'
  cases hsend'
  exact hrun

/-- One message in two fragments, one for each Lc form, to a device that answers
with a status byte. -/
theorem exchange_runs_fragments :
    ∃ adapter before,
      (CtapHidAdapter.new ⟨1, ⟨[], [], [.report (.ofFields [0, 0, 0, 1, 0x90, 0, 1, 0])]⟩⟩).exchangeAll
        [[0x90, 0x10, 0, 0, 1, 0x0a], [0x80, 0x10, 0, 0, 0, 0, 2, 0xa1, 1]] =
          some ([.ok [0x90, 0x00], .ok [0x00, 0x90, 0x00]], adapter) ∧
      adapter.channel.io.written = [.ofFields [0, 0, 0, 1, 0x90, 0, 3, 0x0a, 0xa1, 1]] ∧
      Exchanged [([0x90, 0x10, 0, 0, 1, 0x0a], .ok [0x90, 0x00])] before
        [0x80, 0x10, 0, 0, 0, 0, 2, 0xa1, 1] (.ok [0x00, 0x90, 0x00]) adapter := by
  obtain ⟨replies, adapter, hrun, -, hall, -⟩ :=
    exchange_runs ⟨1, ⟨[], [], [.report (.ofFields [0, 0, 0, 1, 0x90, 0, 1, 0])]⟩⟩
      [[0x90, 0x10, 0, 0, 1, 0x0a], [0x80, 0x10, 0, 0, 0, 0, 2, 0xa1, 1]]
  have heval : (CtapHidAdapter.new
      ⟨1, ⟨[], [], [.report (.ofFields [0, 0, 0, 1, 0x90, 0, 1, 0])]⟩⟩).exchangeAll
        [[0x90, 0x10, 0, 0, 1, 0x0a], [0x80, 0x10, 0, 0, 0, 0, 2, 0xa1, 1]] =
      some ([.ok [0x90, 0x00], .ok [0x00, 0x90, 0x00]],
        ⟨⟨1, ⟨[.ofFields [0, 0, 0, 1, 0x90, 0, 3, 0x0a, 0xa1, 1]], [], []⟩⟩, [], []⟩) := by
    decide +kernel
  rw [heval] at hrun
  cases hrun
  obtain ⟨before, after, -, hlast, hx⟩ := hall 1 _ _ rfl rfl
  simp only [List.take_succ_cons, List.take_zero, heval, Option.some.injEq, Prod.mk.injEq,
    true_and] at hlast
  subst hlast
  exact ⟨_, before, heval, rfl, hx⟩

end Fido
