import Ckman.CtapHidChannel

/-!
# Channel allocation

`CtapHidChannel::allocate` broadcasts an INIT message with a nonce and waits
for the reply that repeats the nonce. INIT replies to every host share the
broadcast channel, so the loop has to pass over the replies to other hosts.
-/
namespace CtapHid

open Host

/-- The eight bytes by which a host recognises its own INIT reply. -/
structure Nonce where
  bytes : Bytes
  size : bytes.length = 8
  deriving DecidableEq, Repr

structure Capabilities where
  wink : Bool
  cbor : Bool
  nmsg : Bool
  deriving DecidableEq, Repr

def Capabilities.fromByte (caps : UInt8) : Capabilities where
  wink := caps &&& 0x01 ≠ 0
  cbor := caps &&& 0x04 ≠ 0
  nmsg := caps &&& 0x08 ≠ 0

/-- `u32::from_be_bytes(payload[8..12])`. -/
def replyCid (payload : Bytes) : UInt32 :=
  UInt32.ofNat (BigEndian.decode ((payload.drop 8).take 4))

/-- `payload[16]` of a reply that is long enough. -/
def replyCapabilities (payload : Bytes) : Capabilities :=
  Capabilities.fromByte (payload.getD 16 0)

/-- The read loop of `allocate`, with the reads that are left. A missing result
is a panic of the decoder. -/
def allocateLoop (nonce : Nonce) (d : MessageDecoder) : List ReadOutcome →
    Option (Except CtapHidError (UInt32 × Capabilities) × List ReadOutcome)
  | [] => some (.error .timeout, [])
  | .timeout :: rest => some (.error .timeout, rest)
  | .failed e :: rest => some (.error (.io e), rest)
  | .report r :: rest =>
    -- Stale traffic on another channel.
    if r.cid ≠ broadcastCid then allocateLoop nonce d rest
    else
      match d.push r with
      | none => none
      | some (.error e, _) => some (.error e, rest)
      | some (.ok none, d) => allocateLoop nonce d rest
      | some (.ok (some (cmd, payload)), d) =>
        if cmd = .error then some (.error (deviceError payload), rest)
        else if cmd ≠ .init then allocateLoop nonce d rest
        else if payload.length < 17 then some (.error (.malformed "short INIT response"), rest)
        -- The reply to another application that allocates a channel.
        else if payload.take 8 ≠ nonce.bytes then allocateLoop nonce d rest
        else if replyCid payload = 0 ∨ replyCid payload = broadcastCid then
          some (.error (.malformed "INIT assigned a reserved channel"), rest)
        else some (.ok (replyCid payload, replyCapabilities payload), rest)

def allocate (nonce : Nonce) (hid : Hid) :
    Option (Except CtapHidError (CtapHidChannel × Capabilities)) := do
  match ← frameMessage broadcastCid .init nonce.bytes with
  | .error e => pure (.error e)
  | .ok packets =>
    match hid.writeReports packets with
    | (.error e, _) => pure (.error (.io e))
    | (.ok (), hid) =>
      let (result, reads) ← allocateLoop nonce .new hid.reads
      pure (result.map fun (cid, capabilities) => (⟨cid, { hid with reads }⟩, capabilities))

/-- A single-report INIT reply to another host: long enough, whatever pads its
report, and under another nonce. -/
structure ForeignReply (nonce : Nonce) (r : Report) : Prop where
  channel : r.cid = broadcastCid
  command : r.tag = Command.init.byte
  long : 17 ≤ r.declared
  single : r.declared ≤ initPayload
  nonce : r.initData.take 8 ≠ nonce.bytes

structure OwnReply (nonce : Nonce) (payload : Bytes) : Prop where
  long : 17 ≤ payload.length
  nonce : payload.take 8 = nonce.bytes
  notZero : replyCid payload ≠ 0
  notBroadcast : replyCid payload ≠ broadcastCid

/-- A foreign reply is a complete message of its own. -/
theorem ForeignReply.push {nonce : Nonce} {r : Report} (h : ForeignReply nonce r)
    (d : MessageDecoder) :
    d.push r = some (.ok (some (.init, r.initData.take r.declared)), .new) := by
  have hinit : r.isInit := by
    rw [Report.isInit, h.command]
    exact Command.byte_flag .init
  have hcmd : Command.fromByte r.tag = some .init := by rw [h.command, Command.fromByte_byte]
  have hfit : ¬ r.declared > maxMessageLen := by
    have := h.single
    have hi : initPayload = 57 := rfl
    have hm : maxMessageLen = 7609 := rfl
    omega
  have hwhole : (r.initData.take r.declared).length = r.declared := by
    rw [List.length_take, Report.length_initData, Nat.min_eq_left h.single]
  simp only [MessageDecoder.push, if_pos hinit, MessageDecoder.pushInit, hcmd, if_neg hfit,
    Nat.min_eq_left h.single, hwhole, if_true]

/-- One turn of the loop over a foreign reply keeps waiting with an idle decoder. -/
theorem allocateLoop_foreign {nonce : Nonce} {r : Report} (h : ForeignReply nonce r)
    (d : MessageDecoder) (rest : List ReadOutcome) :
    allocateLoop nonce d (.report r :: rest) = allocateLoop nonce .new rest := by
  have hlen : (r.initData.take r.declared).length = r.declared := by
    rw [List.length_take, Report.length_initData, Nat.min_eq_left h.single]
  have hlong : ¬ (r.initData.take r.declared).length < 17 := by
    have := h.long
    omega
  have hnonce : (r.initData.take r.declared).take 8 ≠ nonce.bytes := by
    have := h.long
    rw [List.take_take, Nat.min_eq_left (by omega)]
    exact h.nonce
  rw [allocateLoop]
  simp only [h.channel, ne_eq, not_true_eq_false, if_false, h.push, reduceCtorEq, if_neg hlong,
    if_pos hnonce]

/-- Any number of foreign replies, in any order. -/
theorem allocateLoop_foreigns {nonce : Nonce} (foreign : List Report)
    (hf : ∀ r ∈ foreign, ForeignReply nonce r) (rest : List ReadOutcome) :
    allocateLoop nonce .new (foreign.map .report ++ rest) = allocateLoop nonce .new rest := by
  induction foreign with
  | nil => rfl
  | cons r foreign ih =>
    rw [List.map_cons, List.cons_append, allocateLoop_foreign (hf r List.mem_cons_self)]
    exact ih fun s hs => hf s (List.mem_cons_of_mem r hs)

/-- Reports that complete nothing until the last one completes our reply. -/
theorem allocateLoop_reply {nonce : Nonce} {payload : Bytes} (reply : OwnReply nonce payload)
    (rest : List ReadOutcome) (rs : List Report) (hcid : ∀ r ∈ rs, r.cid = broadcastCid) :
    ∀ (d e : MessageDecoder) (k : Nat), d.pushAll rs =
        some (List.replicate k (.ok none) ++ [.ok (some (.init, payload))], e) →
      allocateLoop nonce d (rs.map .report ++ rest) =
        some (.ok (replyCid payload, replyCapabilities payload), rest) := by
  induction rs with
  | nil =>
    intro d e k h
    simp at h
  | cons r rs ih =>
    intro d e k h
    have hr : r.cid = broadcastCid := hcid r List.mem_cons_self
    simp only [MessageDecoder.pushAll, Option.bind_eq_bind, Option.bind_eq_some_iff,
      Option.pure_def, Option.some.injEq, Prod.mk.injEq] at h
    obtain ⟨⟨x, c⟩, hp, ⟨xs, f⟩, hxs, heq, rfl⟩ := h
    rw [List.map_cons, List.cons_append, allocateLoop]
    cases k with
    | zero =>
      obtain ⟨rfl, rfl⟩ : x = .ok (some (.init, payload)) ∧ xs = [] := by simpa using heq
      obtain rfl : rs = [] := by
        have := MessageDecoder.length_pushAll hxs
        exact List.length_eq_zero_iff.mp this.symm
      have hlong : ¬ payload.length < 17 := Nat.not_lt.mpr reply.long
      simp only [hr, ne_eq, not_true_eq_false, if_false, hp, reduceCtorEq, if_neg hlong,
        reply.nonce, reply.notZero, reply.notBroadcast, or_self, List.map_nil, List.nil_append]
    | succ k =>
      obtain ⟨rfl, rfl⟩ : x = .ok none ∧
          xs = List.replicate k (.ok none) ++ [.ok (some (.init, payload))] := by
        simpa [List.replicate_succ] using heq
      simp only [hr, ne_eq, not_true_eq_false, if_false, hp]
      exact ih (fun s hs => hcid s (List.mem_cons_of_mem r hs)) c _ k hxs

/-- Dropping the reports of other channels leaves the loop's result as it is. -/
theorem allocateLoop_ownReads (nonce : Nonce) (reads : List ReadOutcome) :
    ∀ d : MessageDecoder, allocateLoop nonce d (ownReads broadcastCid reads) =
      (allocateLoop nonce d reads).map (fun a => (a.1, ownReads broadcastCid a.2)) := by
  induction reads with
  | nil =>
    intro d
    rfl
  | cons o reads ih =>
    intro d
    cases o with
    | timeout => rfl
    | failed e => rfl
    | report r =>
      by_cases hcid : r.cid = broadcastCid
      · have hown : ownReads broadcastCid (.report r :: reads) =
            .report r :: ownReads broadcastCid reads := by
          simp [ownReads, ReadOutcome.isOwn, hcid]
        rw [hown, allocateLoop, allocateLoop]
        simp only [hcid, ne_eq, not_true_eq_false, if_false]
        rcases d.push r with _ | ⟨_ | _ | ⟨cmd, payload⟩, e⟩
        · rfl
        · rfl
        · exact ih e
        · simp only
          split_ifs <;> first | rfl | exact ih e
      · have hown : ownReads broadcastCid (.report r :: reads) = ownReads broadcastCid reads := by
          simp [ownReads, ReadOutcome.isOwn, hcid]
        rw [hown, allocateLoop]
        simp only [ne_eq, hcid, not_false_eq_true, if_true]
        exact ih d

/-- The reads of the broadcast channel, pushed after the reports `h`, complete
an INIT message with our nonce that assigns this channel. -/
def Assigns (nonce : Nonce) (h : List Report) (reads : List ReadOutcome) (cid : UInt32)
    (capabilities : Capabilities) : Prop :=
  ∃ pushed tail pre init conts payload, reads = pushed.map .report ++ tail ∧
    h ++ pushed = pre ++ init :: conts ∧ MessageOf init conts (.init, payload) ∧
    OwnReply nonce payload ∧ cid = replyCid payload ∧ capabilities = replyCapabilities payload

theorem Assigns.cons {nonce : Nonce} {h : List Report} {r : Report} {reads : List ReadOutcome}
    {cid : UInt32} {capabilities : Capabilities}
    (ha : Assigns nonce (h ++ [r]) reads cid capabilities) :
    Assigns nonce h (.report r :: reads) cid capabilities := by
  obtain ⟨pushed, tail, pre, init, conts, payload, rfl, hh, hm⟩ := ha
  refine ⟨r :: pushed, tail, pre, init, conts, payload, rfl, ?_, hm⟩
  rw [← hh, List.append_assoc, List.singleton_append]

/-- Whatever the reads are, the loop does not panic, and a channel that it
returns is assigned by a reply that repeats our nonce. The decoder was fed the
reports `h` before. -/
theorem allocateLoop_assigns (nonce : Nonce) (reads : List ReadOutcome) :
    ∀ (h : List Report) (d : MessageDecoder), d.Holds h →
      ∃ result rest, allocateLoop nonce d reads = some (result, rest) ∧
        ∀ cid capabilities, result = .ok (cid, capabilities) →
          Assigns nonce h (ownReads broadcastCid reads) cid capabilities := by
  induction reads with
  | nil =>
    intro h d _
    exact ⟨.error .timeout, [], rfl, by simp⟩
  | cons o reads ih =>
    intro h d hd
    cases o with
    | timeout => exact ⟨.error .timeout, reads, rfl, by simp⟩
    | failed e => exact ⟨.error (.io e), reads, rfl, by simp⟩
    | report r =>
      rw [allocateLoop]
      by_cases hcid : r.cid = broadcastCid
      · have hown : ownReads broadcastCid (.report r :: reads) =
            .report r :: ownReads broadcastCid reads := by
          simp [ownReads, ReadOutcome.isOwn, hcid]
        obtain ⟨x, e, hp, ho⟩ := MessageDecoder.push_outcome hd r
        -- The turns that go on waiting hand one more report to the induction.
        have wait : ∃ result rest, allocateLoop nonce e reads = some (result, rest) ∧
            ∀ cid capabilities, result = .ok (cid, capabilities) →
              Assigns nonce h (.report r :: ownReads broadcastCid reads) cid capabilities := by
          obtain ⟨result, rest, hl, hacc⟩ := ih (h ++ [r]) e ho.holds
          exact ⟨result, rest, hl, fun cid capabilities hres => (hacc cid capabilities hres).cons⟩
        simp only [hcid, ne_eq, not_true_eq_false, if_false, hp, hown]
        rcases x with err | _ | ⟨cmd, payload⟩
        · exact ⟨.error err, reads, rfl, by simp⟩
        · exact wait
        · simp only
          split_ifs with herr hinit hshort hnonce hreserved
          · exact ⟨_, reads, rfl, by simp⟩
          · exact ⟨_, reads, rfl, by simp⟩
          · exact ⟨_, reads, rfl, by simp⟩
          · refine ⟨_, reads, rfl, ?_⟩
            intro cid capabilities hres
            obtain ⟨rfl, rfl⟩ : replyCid payload = cid ∧ replyCapabilities payload = capabilities := by
              simpa using hres
            obtain ⟨pre, init, conts, hh, hm⟩ := ho.message _ rfl
            rw [hinit] at hm
            exact ⟨[r], ownReads broadcastCid reads, pre, init, conts, payload, rfl, hh, hm,
              ⟨Nat.le_of_not_lt hshort, hnonce, fun hz => hreserved (.inl hz),
                fun hb => hreserved (.inr hb)⟩, rfl, rfl⟩
          · exact wait
          · exact wait
      · have hown : ownReads broadcastCid (.report r :: reads) = ownReads broadcastCid reads := by
          simp [ownReads, ReadOutcome.isOwn, hcid]
        rw [hown]
        simp only [ne_eq, hcid, not_false_eq_true, if_true]
        exact ih h d hd

theorem frameMessage_nonce (nonce : Nonce) :
    ∃ packet, frameMessage broadcastCid .init nonce.bytes = some (.ok [packet]) := by
  have hi : initPayload = 57 := rfl
  have hm : maxMessageLen = 7609 := rfl
  have hs := nonce.size
  let packet := Report.ofFields (BigEndian.encode 4 broadcastCid.toNat ++ [Command.init.byte] ++
    BigEndian.encode 2 (UInt16.ofNat nonce.bytes.length).toNat ++
    nonce.bytes.take (min nonce.bytes.length initPayload))
  have hframe : frameMessage broadcastCid .init nonce.bytes =
      (frameLoop broadcastCid nonce.bytes (min nonce.bytes.length initPayload) 0 [packet]).map
        .ok := by
    rw [frameMessage, if_neg (by omega)]
  refine ⟨packet, ?_⟩
  rw [hframe, frameLoop, if_neg (by omega), Option.map_some]

/-- The INIT message is one report. Once it is written the loop decides. -/
theorem allocate_cases (nonce : Nonce) (hid : Hid) :
    (∃ e, allocate nonce hid = some (.error (.io e)) ∧ ∃ rest, hid.writes = some e :: rest) ∨
    ∃ out : Hid, allocate nonce hid = (allocateLoop nonce .new hid.reads).map fun a =>
      a.1.map fun b => (⟨b.1, { out with reads := a.2 }⟩, b.2) := by
  obtain ⟨packet, hf⟩ := frameMessage_nonce nonce
  obtain ⟨written, writes, reads⟩ := hid
  rcases writes with _ | ⟨_ | e, rest⟩
  · refine .inr ⟨⟨written ++ [packet], [], reads⟩, ?_⟩
    simp only [allocate, hf, Hid.writeReports, Hid.writeReport, Option.bind_eq_bind,
      Option.bind_some, Option.pure_def, Option.map_eq_bind, Function.comp_def]
  · refine .inr ⟨⟨written ++ [packet], rest, reads⟩, ?_⟩
    simp only [allocate, hf, Hid.writeReports, Hid.writeReport, Option.bind_eq_bind,
      Option.bind_some, Option.pure_def, Option.map_eq_bind, Function.comp_def]
  · refine .inl ⟨e, ?_, rest, rfl⟩
    simp only [allocate, hf, Hid.writeReports, Hid.writeReport, Option.bind_eq_bind,
      Option.bind_some, Option.pure_def]

/-- Reports of other channels anywhere and any number of foreign INIT replies
before our own do not change what is allocated, once the INIT report is written.
For every stream of reports `allocate` does not panic, and the channel that it
returns is assigned by a complete reply under our nonce; it is neither channel 0
nor the broadcast channel. -/
theorem allocate_own_reply (nonce : Nonce) (hid : Hid) :
    (∀ (foreign : List Report) (init : Report) (conts : List Report) (payload : Bytes)
        (tail : List ReadOutcome),
      (∀ e rest, hid.writes ≠ some e :: rest) →
      (∀ r ∈ foreign, ForeignReply nonce r) →
      MessageOf init conts (.init, payload) →
      (∀ r ∈ init :: conts, r.cid = broadcastCid) →
      OwnReply nonce payload →
      ownReads broadcastCid hid.reads =
        foreign.map .report ++ ((init :: conts).map .report ++ tail) →
      ∃ io, allocate nonce hid =
        some (.ok (⟨replyCid payload, io⟩, replyCapabilities payload))) ∧
    ∃ result, allocate nonce hid = some result ∧
      ∀ channel capabilities, result = .ok (channel, capabilities) →
        Assigns nonce [] (ownReads broadcastCid hid.reads) channel.cid capabilities ∧
        channel.cid ≠ 0 ∧ channel.cid ≠ broadcastCid := by
  constructor
  · intro foreign init conts payload tail hwrite hforeign hm hcid reply hown
    have hdeliver := MessageDecoder.pushAll_messageOf hm .new
    have hloop := allocateLoop_ownReads nonce hid.reads .new
    rw [hown, allocateLoop_foreigns foreign hforeign,
      allocateLoop_reply reply tail _ hcid _ _ _ hdeliver] at hloop
    obtain ⟨⟨result, rest⟩, hl, hr⟩ := Option.map_eq_some_iff.mp hloop.symm
    obtain ⟨rfl, -⟩ := Prod.mk.injEq _ _ _ _ ▸ hr
    rcases allocate_cases nonce hid with ⟨e, -, rest, he⟩ | ⟨out, ha⟩
    · exact absurd he (hwrite e rest)
    · rw [hl] at ha
      exact ⟨_, ha⟩
  · rcases allocate_cases nonce hid with ⟨e, ha, -⟩ | ⟨out, ha⟩
    · exact ⟨_, ha, by simp⟩
    · obtain ⟨result, rest, hl, hacc⟩ :=
        allocateLoop_assigns nonce hid.reads [] .new (MessageDecoder.holds_new [])
      rw [hl, Option.map_some] at ha
      refine ⟨_, ha, ?_⟩
      intro channel capabilities hres
      rcases result with e | ⟨cid, caps⟩
      · cases hres
      · cases hres
        have h := hacc cid caps rfl
        obtain ⟨pushed, tail, pre, init, conts, payload, -, -, -, reply, rfl, -⟩ := id h
        exact ⟨h, reply.notZero, reply.notBroadcast⟩

namespace AllocationFixture

def nonce : Nonce := ⟨[1, 2, 3, 4, 5, 6, 7, 8], rfl⟩

def stale : Report := .ofFields [0, 0, 0, 7, 0x81, 0, 0]

def foreign : Report :=
  .ofFields ([0xff, 0xff, 0xff, 0xff, 0x86, 0, 17, 1, 2, 3, 4, 5, 6, 7, 9] ++
    [0, 0, 0, 42, 2, 1, 0, 0, 4])

def own : Report :=
  .ofFields ([0xff, 0xff, 0xff, 0xff, 0x86, 0, 17, 1, 2, 3, 4, 5, 6, 7, 8] ++
    [0, 0, 0, 1, 2, 1, 0, 0, 5])

end AllocationFixture

open AllocationFixture in
/-- Another channel's report and a foreign reply come before our own reply. -/
theorem allocate_own_reply_third : ∃ io,
    allocate nonce ⟨[], [], [.report stale, .report foreign, .report own]⟩ =
      some (.ok (⟨1, io⟩, ⟨true, true, false⟩)) := by
  have hm : MessageOf own [] (.init, own.initData.take 17) :=
    ⟨⟨by decide, by simp⟩, by decide, by decide, by decide, by simp⟩
  have hforeign : ∀ r ∈ [foreign], ForeignReply nonce r := by
    intro r hr
    obtain rfl := List.mem_singleton.mp hr
    exact ⟨by decide, by decide, by decide, by decide, by decide⟩
  exact (allocate_own_reply nonce ⟨[], [], [.report stale, .report foreign, .report own]⟩).1
    [foreign] own [] (own.initData.take 17) [] (by simp) hforeign hm (by decide)
    ⟨by decide, by decide, by decide, by decide⟩ (by decide)

end CtapHid
