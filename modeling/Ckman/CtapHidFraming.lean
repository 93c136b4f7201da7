import Ckman.CtapHid

/-!
# Framing round trip

The framer and the decoder are two separate loops over 57- and 59-byte
fragments. The invariant that joins them is that the decoder's buffer is the
part of the payload that the framer has already emitted, with the same next
sequence number on both sides.
-/
namespace CtapHid

open Host

set_option maxRecDepth 4000

/-- The command flag is the top bit of a byte. -/
theorem flag_clear_iff (b : UInt8) : b &&& 0x80 = 0 ↔ b.toNat < 128 := by
  have h : ∀ v : BitVec 8, v &&& 0x80#8 = 0#8 ↔ v.toNat < 128 := by decide
  rw [← UInt8.toBitVec_inj]
  simpa using h b.toBitVec

namespace Report

variable {cid : UInt32} {b : UInt8} {rest : Bytes}

/-- The fields of a report after its channel and its fifth byte. -/
theorem bytes_header (h : rest.length ≤ contPayload) :
    (ofFields (BigEndian.encode 4 cid.toNat ++ [b] ++ rest)).bytes =
      BigEndian.encode 4 cid.toNat ++ b :: (rest ++ List.replicate (contPayload - rest.length) 0) := by
  have hl : (BigEndian.encode 4 cid.toNat ++ [b] ++ rest).length = 5 + rest.length := by simp; omega
  have hc : contPayload = 59 := rfl
  have hr : reportLen = 64 := rfl
  have hp : reportLen - (5 + rest.length) = contPayload - rest.length := by omega
  rw [bytes_ofFields (by rw [hl]; omega), hl, hp]
  simp

theorem tag_header (h : rest.length ≤ contPayload) :
    (ofFields (BigEndian.encode 4 cid.toNat ++ [b] ++ rest)).tag = b := by
  rw [tag, byte, bytes_header h]
  simp

theorem cid_header (h : rest.length ≤ contPayload) :
    (ofFields (BigEndian.encode 4 cid.toNat ++ [b] ++ rest)).cid = cid := by
  have hd := BigEndian.decode_encode (n := 4) (x := cid.toNat) (by have := cid.toNat_lt; omega)
  rw [Report.cid, bytes_header h, List.take_left' (by simp), hd]
  simp

theorem contData_header (h : rest.length ≤ contPayload) :
    (ofFields (BigEndian.encode 4 cid.toNat ++ [b] ++ rest)).contData =
      rest ++ List.replicate (contPayload - rest.length) 0 := by
  rw [contData, bytes_header h, contHeader]
  simp [List.drop_append]

/-- An initialization report declares the length that was written to it. -/
theorem declared_header {n : UInt16} {head : Bytes} (h : head.length ≤ initPayload) :
    (ofFields (BigEndian.encode 4 cid.toNat ++ [b] ++
      (BigEndian.encode 2 n.toNat ++ head))).declared = n.toNat := by
  have hi : initPayload = 57 := rfl
  have hc : contPayload = 59 := rfl
  have hl : (BigEndian.encode 2 n.toNat ++ head).length ≤ contPayload := by simp; omega
  have hd := BigEndian.decode_encode (n := 2) (x := n.toNat) (by have := n.toNat_lt; omega)
  have hb : [n.toNat / 256 ^ 1, n.toNat / 256 ^ 0].map UInt8.ofNat = BigEndian.encode 2 n.toNat := rfl
  rw [← hb] at hd
  rw [declared, byte, byte, bytes_header hl]
  simpa [BigEndian.encode] using hd

theorem initData_header {n : UInt16} {head : Bytes} (h : head.length ≤ initPayload) :
    (ofFields (BigEndian.encode 4 cid.toNat ++ [b] ++
      (BigEndian.encode 2 n.toNat ++ head))).initData.take head.length = head := by
  have hi : initPayload = 57 := rfl
  have hc : contPayload = 59 := rfl
  have hl : (BigEndian.encode 2 n.toNat ++ head).length ≤ contPayload := by simp; omega
  have hd : (BigEndian.encode 4 cid.toNat).drop 7 = [] := List.drop_eq_nil_of_le (by simp)
  rw [initData, bytes_header hl, initHeader]
  simp [List.drop_append, hd]

end Report

namespace MessageDecoder

/-- A continuation report that carries the next fragment extends the buffer,
and completes the message exactly when the buffer reaches the declared length. -/
theorem push_fragment {p : Partial} {r : Report} {cmd : Command} {payload : Bytes} {offset : Nat}
    (hcmd : p.cmd = cmd.byte) (hexp : p.expected = payload.length)
    (hbuf : p.buf = payload.take offset) (hoff : offset < payload.length)
    (hseq : p.nextSeq.toNat < 128) (htag : r.tag = p.nextSeq)
    (hdata : r.contData.take (min (payload.length - offset) contPayload) =
      (payload.drop offset).take (min (payload.length - offset) contPayload)) :
    ∃ next, checkedSucc p.nextSeq = some next ∧
      (MessageDecoder.mk (some p)).push r =
        some (if offset + min (payload.length - offset) contPayload = payload.length
          then (.ok (some (cmd, payload)), new)
          else (.ok none, ⟨some { p with
            buf := payload.take (offset + min (payload.length - offset) contPayload)
            nextSeq := next }⟩)) := by
  obtain ⟨next, hnext, -⟩ := checkedSucc_toNat (n := p.nextSeq) (by omega)
  refine ⟨next, hnext, ?_⟩
  have hinit : ¬ r.isInit := by
    rw [Report.isInit, htag, not_not, flag_clear_iff]
    exact hseq
  have hlen : p.buf.length = offset := by simp [hbuf]; omega
  have hsub : checkedSub payload.length p.buf.length = some (payload.length - offset) := by
    rw [checkedSub_of_le (by omega), hlen]
  have hjoin : p.buf ++ r.contData.take (min (payload.length - offset) contPayload) =
      payload.take (offset + min (payload.length - offset) contPayload) := by
    rw [hbuf, hdata, ← List.take_add]
  have hfull : (payload.take (offset + min (payload.length - offset) contPayload)).length =
      offset + min (payload.length - offset) contPayload := by
    rw [List.length_take]
    omega
  simp only [push, if_neg hinit, pushCont, htag, ne_eq, not_true_eq_false, if_false, hsub,
    Option.bind_some, hnext, Option.map_some, hjoin, hfull, hexp, hcmd, Command.fromByte_byte]
  split
  · rename_i h
    rw [h, List.take_length]
  · rfl

end MessageDecoder

/-- What the loop emits from `offset` on completes a message whose first
`offset` bytes are already in the decoder. -/
theorem frameLoop_completes (cid : UInt32) (cmd : Command) (payload : Bytes) (n : Nat)
    (offset : Nat) (seq : UInt8) (packets : List Report) (p : Partial)
    (hn : payload.length - offset = n) (hoff : offset < payload.length)
    (hroom : payload.length ≤ offset + (128 - seq.toNat) * contPayload)
    (hcmd : p.cmd = cmd.byte) (hexp : p.expected = payload.length)
    (hbuf : p.buf = payload.take offset) (hseq : p.nextSeq = seq) :
    ∃ conts, frameLoop cid payload offset seq packets = some (packets ++ conts) ∧
      (MessageDecoder.mk (some p)).pushAll conts =
        some (List.replicate (conts.length - 1) (.ok none) ++ [.ok (some (cmd, payload))],
          MessageDecoder.new) ∧
      conts ≠ [] ∧
      ∀ (i : Nat) (r : Report), conts[i]? = some r → r.cid = cid ∧ r.tag.toNat = seq.toNat + i ∧ r.tag ≤ maxSeq := by
  have hc : contPayload = 59 := rfl
  induction n using Nat.strong_induction_on generalizing offset seq packets p with
  | _ n ih =>
    have hlt : seq.toNat < 128 := by
      by_contra h
      have : 128 - seq.toNat = 0 := by omega
      rw [this] at hroom
      omega
    let take := min (payload.length - offset) contPayload
    let chunk := (payload.drop offset).take take
    have htake : take = min (payload.length - offset) contPayload := rfl
    have hchunk : chunk.length = take := by simp [chunk, take]
    have hfit : chunk.length ≤ contPayload := by omega
    let cont := Report.ofFields (BigEndian.encode 4 cid.toNat ++ [seq] ++ chunk)
    have hdata : cont.contData.take take = chunk := by
      rw [Report.contData_header hfit, ← hchunk, List.take_left]
    have hhead : cont.cid = cid ∧ cont.tag.toNat = seq.toNat + 0 ∧ cont.tag ≤ maxSeq := by
      refine ⟨Report.cid_header hfit, by rw [Report.tag_header hfit]; rfl, ?_⟩
      rw [Report.tag_header hfit, UInt8.le_iff_toNat_le]
      have : maxSeq.toNat = 127 := rfl
      omega
    obtain ⟨next, hnext, hpush⟩ := MessageDecoder.push_fragment hcmd hexp hbuf hoff
      (by rw [hseq]; exact hlt) (by rw [hseq]; exact Report.tag_header hfit) hdata
    have hval : next.toNat = seq.toNat + 1 := by
      obtain ⟨m, hm, hv⟩ := checkedSucc_toNat (n := seq) (by omega)
      rw [hseq, hm] at hnext
      cases hnext
      exact hv
    rw [hseq] at hnext
    have hloop : frameLoop cid payload offset seq packets =
        frameLoop cid payload (offset + take) next (packets ++ [cont]) := by
      rw [frameLoop, if_pos hoff]
      simp only [hnext, Option.bind_some, cont, chunk, take]
    by_cases hend : offset + take = payload.length
    · -- The last report: the loop condition fails on the next turn.
      refine ⟨[cont], ?_, ?_, by simp, ?_⟩
      · rw [hloop, frameLoop, if_neg (by omega)]
      · rw [← htake, if_pos hend] at hpush
        exact MessageDecoder.pushAll_cons hpush rfl
      · intro i r hr
        rcases i with _ | i
        · obtain rfl : cont = r := by simpa using hr
          exact hhead
        · simp at hr
    · have hfull : take = contPayload := by omega
      have hroom' : payload.length ≤ offset + take + (128 - next.toNat) * contPayload := by
        have : (128 - seq.toNat) * contPayload = contPayload + (128 - next.toNat) * contPayload := by
          rw [show 128 - seq.toNat = (128 - next.toNat) + 1 by omega, Nat.succ_mul, Nat.add_comm]
        omega
      obtain ⟨conts, hl, hp, hne, hi⟩ := ih (payload.length - (offset + take)) (by omega)
        (offset + take) next (packets ++ [cont])
        { p with buf := payload.take (offset + take), nextSeq := next }
        rfl (by omega) hroom' hcmd hexp rfl rfl
      refine ⟨cont :: conts, ?_, ?_, by simp, ?_⟩
      · rw [hloop, hl, List.append_assoc, List.singleton_append]
      · rw [← htake, if_neg hend] at hpush
        have h := MessageDecoder.pushAll_cons hpush hp
        have hlen : conts.length = conts.length - 1 + 1 := by
          have := List.length_pos_iff.mpr hne
          omega
        rw [← List.cons_append, ← List.replicate_succ, ← hlen] at h
        simpa using h
      · intro i r hr
        rcases i with _ | i
        · obtain rfl : cont = r := by simpa using hr
          exact hhead
        · obtain ⟨h₁, h₂, h₃⟩ := hi i r (by simpa using hr)
          exact ⟨h₁, by omega, h₃⟩

/-- A payload that fits is framed, and its reports deliver it to any decoder. -/
theorem frameMessage_delivers (cid : UInt32) (cmd : Command) {payload : Bytes}
    (hle : payload.length ≤ maxMessageLen) :
    ∃ init conts, frameMessage cid cmd payload = some (.ok (init :: conts)) ∧
      (∀ (i : Nat) (r : Report), conts[i]? = some r → r.tag.toNat = i ∧ r.tag ≤ maxSeq) ∧
      (∀ r ∈ init :: conts, r.cid = cid) ∧
      ∀ d : MessageDecoder, d.pushAll (init :: conts) =
        some (List.replicate conts.length (.ok none) ++ [.ok (some (cmd, payload))],
          MessageDecoder.new) := by
  have hi : initPayload = 57 := rfl
  have hmax : maxMessageLen = 7609 := rfl
  have hn : (UInt16.ofNat payload.length).toNat = payload.length := by
    rw [UInt16.toNat_ofNat']
    exact Nat.mod_eq_of_lt (by omega)
  let head := min payload.length initPayload
  have hhead : (payload.take head).length = head := by simp [head]
  have hfit : (payload.take head).length ≤ initPayload := by omega
  let init := Report.ofFields (BigEndian.encode 4 cid.toNat ++ [cmd.byte] ++
    (BigEndian.encode 2 (UInt16.ofNat payload.length).toNat ++ payload.take head))
  have hrest : (BigEndian.encode 2 (UInt16.ofNat payload.length).toNat ++
      payload.take head).length ≤ contPayload := by
    have : contPayload = 59 := rfl
    simp only [List.length_append, BigEndian.length_encode]
    omega
  have htag : init.tag = cmd.byte := Report.tag_header hrest
  have hcid : init.cid = cid := Report.cid_header hrest
  have hdecl : init.declared = payload.length := (Report.declared_header hfit).trans hn
  have hdata : init.initData.take head = payload.take head := by
    have htake : init.initData.take (payload.take head).length = payload.take head :=
      Report.initData_header hfit
    rw [← hhead, htake, hhead]
  have hframe : frameMessage cid cmd payload = (frameLoop cid payload head 0 [init]).map .ok := by
    rw [frameMessage, if_neg (by omega)]
    simp only [init, head, List.append_assoc]
  have hpush : ∀ d : MessageDecoder, d.push init = some (MessageDecoder.pushInit init) := by
    intro d
    rw [MessageDecoder.push, if_pos (by rw [Report.isInit, htag]; exact Command.byte_flag cmd)]
  have hstart : MessageDecoder.pushInit init =
      if head = payload.length then (.ok (some (cmd, payload)), MessageDecoder.new)
      else (.ok none, ⟨some ⟨cmd.byte, payload.length, payload.take head, 0⟩⟩) := by
    simp only [MessageDecoder.pushInit, htag, Command.fromByte_byte, hdecl, gt_iff_lt,
      if_neg (show ¬ maxMessageLen < payload.length by omega), hhead,
      show min payload.length initPayload = head from rfl, hdata]
    split
    · rename_i h
      rw [h, List.take_length]
    · rfl
  by_cases hshort : head = payload.length
  · -- The whole message fits the initialization report.
    refine ⟨init, [], ?_, by simp, by simp [hcid], ?_⟩
    · rw [hframe, frameLoop, if_neg (by omega)]
      rfl
    · intro d
      have h := hpush d
      rw [hstart, if_pos hshort] at h
      exact MessageDecoder.pushAll_cons h rfl
  · have hlong : head = initPayload := by omega
    obtain ⟨conts, hl, hp, hne, hi⟩ := frameLoop_completes cid cmd payload _ head 0 [init]
      ⟨cmd.byte, payload.length, payload.take head, 0⟩ rfl (by omega)
      (by rw [hlong]; simpa [maxMessageLen, maxSeq] using hle) rfl rfl rfl rfl
    refine ⟨init, conts, ?_, ?_, ?_, ?_⟩
    · rw [hframe, hl]
      rfl
    · intro i r hr
      obtain ⟨-, h₂, h₃⟩ := hi i r hr
      exact ⟨by simpa using h₂, h₃⟩
    · intro r hr
      rcases List.mem_cons.mp hr with rfl | hr
      · exact hcid
      · obtain ⟨i, hr⟩ := List.mem_iff_getElem?.mp hr
        exact (hi i r hr).1
    · intro d
      have h := hpush d
      rw [hstart, if_neg hshort] at h
      have hlen : conts.length = conts.length - 1 + 1 := by
        have := List.length_pos_iff.mpr hne
        omega
      have hall := MessageDecoder.pushAll_cons h hp
      rw [← List.cons_append, ← List.replicate_succ, ← hlen] at hall
      exact hall

theorem frameMessage_tooLarge (cid : UInt32) (cmd : Command) {payload : Bytes}
    (hlong : maxMessageLen < payload.length) :
    frameMessage cid cmd payload = some (.error (.payloadTooLarge payload.length)) := by
  rw [frameMessage, if_pos hlong]

/-- Framing is total: too long a payload is an error, never an overflow. -/
theorem frameMessage_total (cid : UInt32) (cmd : Command) (payload : Bytes) :
    ∃ framed, frameMessage cid cmd payload = some framed := by
  by_cases h : payload.length ≤ maxMessageLen
  · obtain ⟨init, conts, hf, -⟩ := frameMessage_delivers cid cmd h
    exact ⟨_, hf⟩
  · exact ⟨_, frameMessage_tooLarge cid cmd (Nat.lt_of_not_le h)⟩

/-- Framing a message and pushing its reports in order, into a decoder in any
state, delivers exactly that message at the last report and at no earlier one.
The framer emits continuation sequence numbers 0, 1, 2, … up to at most 0x7f
and its counter does not overflow; a longer payload yields no report at all. -/
theorem frame_roundtrip (cid : UInt32) (cmd : Command) (payload : Bytes) :
    (payload.length ≤ maxMessageLen →
      ∃ init conts, frameMessage cid cmd payload = some (.ok (init :: conts)) ∧
        (∀ (i : Nat) (r : Report), conts[i]? = some r → r.tag.toNat = i ∧ r.tag ≤ maxSeq) ∧
        (∀ r ∈ init :: conts, r.cid = cid) ∧
        ∀ d : MessageDecoder, d.pushAll (init :: conts) =
          some (List.replicate conts.length (.ok none) ++ [.ok (some (cmd, payload))],
            MessageDecoder.new)) ∧
    (maxMessageLen < payload.length →
      frameMessage cid cmd payload = some (.error (.payloadTooLarge payload.length))) := by
  constructor
  · intro hle
    exact frameMessage_delivers cid cmd hle
  · intro hlong
    exact frameMessage_tooLarge cid cmd hlong

/-- A message of four reports. -/
theorem frame_roundtrip_continued : ∃ init conts,
    frameMessage 1 .cbor (List.replicate 200 4) = some (.ok (init :: conts)) ∧ conts.length = 3 ∧
      (∀ (i : Nat) (r : Report), conts[i]? = some r → r.tag.toNat = i ∧ r.tag ≤ maxSeq) ∧
      (∀ r ∈ init :: conts, r.cid = 1) ∧
      ∀ d : MessageDecoder, d.pushAll (init :: conts) =
        some (List.replicate conts.length (.ok none) ++ [.ok (some (.cbor, List.replicate 200 4))],
          MessageDecoder.new) := by
  obtain ⟨init, conts, hf, hseq, hcid, hpush⟩ :=
    (frame_roundtrip 1 .cbor (List.replicate 200 4)).1 (by decide)
  refine ⟨init, conts, hf, ?_, hseq, hcid, hpush⟩
  have hlen : (frameMessage 1 .cbor (List.replicate 200 4)).map (Except.map List.length) =
      some (.ok 4) := by
    decide +kernel
  simp only [hf, Option.map_some, Except.map, List.length_cons, Option.some.injEq, Except.ok.injEq] at hlen
  omega
end CtapHid
