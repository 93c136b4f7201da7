import Ckman.CtapHid

/-!
# Runs of the message decoder

Every report is arbitrary here: malformed, out of sequence, or an
initialization report in the middle of another message. The invariant ties a
partial message to the reports that were pushed last: one initialization report
followed by continuation reports 0, 1, …, whose payload areas are exactly the
buffer.
-/
namespace CtapHid

open Host

def fragments (init : Report) (conts : List Report) : Bytes :=
  init.initData ++ conts.flatMap Report.contData

/-- An initialization report followed by continuation reports 0, 1, 2, … -/
structure InSequence (init : Report) (conts : List Report) : Prop where
  isInit : init.isInit
  sequence : ∀ (i : Nat) (r : Report), conts[i]? = some r → ¬ r.isInit ∧ r.tag.toNat = i

/-- `m` is the message that these reports carry: the declared-length prefix of
their data, under the command of the initialization report, with no report
beyond the one that completes it. -/
structure MessageOf (init : Report) (conts : List Report) (m : Command × Bytes) : Prop where
  reports : InSequence init conts
  command : Command.fromByte init.tag = some m.1
  body : m.2 = (fragments init conts).take init.declared
  whole : m.2.length = init.declared
  needed : ∀ n < conts.length, (fragments init (conts.take n)).length < init.declared

/-- A partial message holds all the data of its reports, and still lacks some. -/
structure Assembling (init : Report) (conts : List Report) (p : Partial) : Prop where
  reports : InSequence init conts
  command : ∃ c, Command.fromByte init.tag = some c
  cmd : p.cmd = init.tag
  expected : p.expected = init.declared
  bounded : p.expected ≤ maxMessageLen
  buf : p.buf = fragments init conts
  short : p.buf.length < p.expected
  nextSeq : p.nextSeq.toNat = conts.length

@[simp] theorem length_fragments (init : Report) (conts : List Report) :
    (fragments init conts).length = initPayload + conts.length * contPayload := by
  induction conts with
  | nil => simp [fragments]
  | cons r rs ih =>
    simp only [fragments, List.length_append, Report.length_initData, List.flatMap_cons,
      Report.length_contData, List.length_cons, Nat.succ_mul] at ih ⊢
    omega

theorem fragments_concat (init : Report) (conts : List Report) (r : Report) :
    fragments init (conts ++ [r]) = fragments init conts ++ r.contData := by
  simp [fragments]

theorem InSequence.concat {init r : Report} {conts : List Report} (h : InSequence init conts)
    (hr : ¬ r.isInit) (ht : r.tag.toNat = conts.length) : InSequence init (conts ++ [r]) := by
  refine ⟨h.isInit, ?_⟩
  intro i s hs
  by_cases hi : i < conts.length
  · rw [List.getElem?_append_left hi] at hs
    exact h.sequence i s hs
  · rw [List.getElem?_append_right (by omega)] at hs
    have hz : i - conts.length = 0 := by
      by_contra hne
      rw [List.getElem?_eq_none (by simp; omega)] at hs
      cases hs
    rw [hz] at hs
    obtain rfl : r = s := by simpa using hs
    exact ⟨hr, by omega⟩

/-- Sequence numbers leave no room for a message beyond the largest length. -/
theorem MessageOf.fits {init : Report} {conts : List Report} {m : Command × Bytes}
    (hm : MessageOf init conts m) : m.2.length ≤ maxMessageLen := by
  have hconts : conts.length ≤ 128 := by
    by_contra hlong
    have hlt : 128 < conts.length := Nat.lt_of_not_le hlong
    obtain ⟨hr, ht⟩ := hm.reports.sequence 128 _ (List.getElem?_eq_getElem hlt)
    have htag : conts[128].tag = 128 := UInt8.toNat_inj.mp ht
    exact hr (by rw [Report.isInit, htag]; decide)
  have hle : m.2.length ≤ (fragments init conts).length := by
    rw [hm.body]
    exact List.length_take_le' _ _
  have hi : initPayload = 57 := rfl
  have hc : contPayload = 59 := rfl
  have hmax : maxMessageLen = 7609 := rfl
  rw [length_fragments, hc] at hle
  omega

namespace Assembling

variable {init : Report} {conts : List Report} {p : Partial}

theorem length_buf (h : Assembling init conts p) :
    p.buf.length = initPayload + conts.length * contPayload := by
  rw [h.buf, length_fragments]

/-- Fewer than 128 continuation reports leave a message incomplete. -/
theorem length_conts (h : Assembling init conts p) : conts.length < 128 := by
  have hl := h.length_buf
  have hs := h.short
  have hb := h.bounded
  have hi : initPayload = 57 := rfl
  have hc : contPayload = 59 := rfl
  have hm : maxMessageLen = 7609 := rfl
  rw [hi, hc] at hl
  omega

/-- One more continuation report with the expected number keeps the invariant
while data is missing. -/
theorem extend (h : Assembling init conts p) {r : Report} {next : UInt8} (hr : ¬ r.isInit)
    (ht : r.tag = p.nextSeq) (hn : next.toNat = p.nextSeq.toNat + 1)
    (hs : (p.buf ++ r.contData).length < p.expected) :
    Assembling init (conts ++ [r]) { p with buf := p.buf ++ r.contData, nextSeq := next } where
  reports := h.reports.concat hr (by rw [ht, h.nextSeq])
  command := h.command
  cmd := h.cmd
  expected := h.expected
  bounded := h.bounded
  buf := by rw [fragments_concat, h.buf]
  short := hs
  nextSeq := by simp [hn, h.nextSeq]

/-- The report that supplies the missing data completes the message. -/
theorem finish (h : Assembling init conts p) {r : Report} {c : Command} (hr : ¬ r.isInit)
    (ht : r.tag = p.nextSeq) (hc : Command.fromByte p.cmd = some c)
    (hs : p.expected ≤ (p.buf ++ r.contData).length) :
    MessageOf init (conts ++ [r]) (c, (p.buf ++ r.contData).take p.expected) where
  reports := h.reports.concat hr (by rw [ht, h.nextSeq])
  command := by rw [← h.cmd, hc]
  body := by rw [fragments_concat, h.buf, h.expected]
  whole := by rw [List.length_take, Nat.min_eq_left hs, h.expected]
  needed := by
    intro n hn
    have hle : n ≤ conts.length := by simpa using Nat.lt_succ_iff.mp (by simpa using hn)
    rw [List.take_append_of_le_length hle, length_fragments, List.length_take,
      Nat.min_eq_left hle, ← h.expected]
    have hb := h.length_buf
    have hsh := h.short
    have hm := Nat.mul_le_mul_right contPayload hle
    omega

end Assembling

namespace MessageDecoder

/-- The decoder's own bounds: a strict prefix of a message that fits. -/
def WellFormed (d : MessageDecoder) : Prop :=
  ∀ p, d.active = some p → p.buf.length < p.expected ∧ p.expected ≤ maxMessageLen ∧
    p.nextSeq ≤ maxSeq

/-- A decoder that was fed the reports `h` is idle or holds a suffix of them. -/
def Holds (h : List Report) (d : MessageDecoder) : Prop :=
  ∀ p, d.active = some p → ∃ pre init conts, h = pre ++ init :: conts ∧ Assembling init conts p

theorem holds_new (h : List Report) : Holds h new := by
  intro p hp
  cases hp

theorem Holds.wellFormed {h : List Report} {d : MessageDecoder} (hd : Holds h d) :
    d.WellFormed := by
  intro p hp
  obtain ⟨-, init, conts, -, ha⟩ := hd p hp
  refine ⟨ha.short, ha.bounded, ?_⟩
  have hl := ha.length_conts
  have hm : maxSeq.toNat = 127 := rfl
  rw [UInt8.le_iff_toNat_le, ha.nextSeq]
  omega

/-- What one push promises, given the reports pushed so far with this one last:
no stale state after an error or a message, and every message is carried by the
reports at the end. -/
structure Outcome (h : List Report) (x : PushResult) (e : MessageDecoder) : Prop where
  holds : Holds h e
  idleOnError : ∀ err, x = .error err → e = new
  idleOnMessage : ∀ m, x = .ok (some m) → e = new
  message : ∀ m, x = .ok (some m) → ∃ pre init conts, h = pre ++ init :: conts ∧
    MessageOf init conts m

theorem outcome_error (h : List Report) (err : CtapHidError) : Outcome h (.error err) new :=
  ⟨holds_new h, fun _ _ => rfl, fun _ _ => rfl, by simp⟩

theorem outcome_message {h pre conts : List Report} {init : Report} {m : Command × Bytes}
    (hh : h = pre ++ init :: conts) (hm : MessageOf init conts m) :
    Outcome h (.ok (some m)) new := by
  refine ⟨holds_new h, fun _ _ => rfl, fun _ _ => rfl, ?_⟩
  intro m' hm'
  cases hm'
  exact ⟨pre, init, conts, hh, hm⟩

theorem outcome_pending {h pre conts : List Report} {init : Report} {p : Partial}
    (hh : h = pre ++ init :: conts) (ha : Assembling init conts p) :
    Outcome h (.ok none) ⟨some p⟩ := by
  refine ⟨?_, by simp, by simp, by simp⟩
  intro q hq
  cases hq
  exact ⟨pre, init, conts, hh, ha⟩

theorem pushInit_outcome (h : List Report) (r : Report) (hr : r.isInit) :
    Outcome (h ++ [r]) (pushInit r).1 (pushInit r).2 := by
  have hseq : InSequence r [] := ⟨hr, by intro i s hs; simp at hs⟩
  have hlen : (r.initData.take (min r.declared initPayload)).length =
      min r.declared initPayload := by simp
  simp only [pushInit]
  cases hc : Command.fromByte r.tag with
  | none => exact outcome_error _ _
  | some c =>
    by_cases hm : r.declared > maxMessageLen
    · simp only [if_pos hm]
      exact outcome_error _ _
    · simp only [if_neg hm, hlen]
      by_cases hd : min r.declared initPayload = r.declared
      · simp only [if_pos hd]
        refine outcome_message rfl ⟨hseq, hc, ?_, ?_, by intro n hn; simp at hn⟩
        · simp [fragments, hd]
        · rw [hlen, hd]
      · have hfull : min r.declared initPayload = initPayload := by omega
        have htake : r.initData.take (min r.declared initPayload) = r.initData := by
          rw [hfull, List.take_of_length_le (by simp)]
        rw [if_neg hd, htake]
        refine outcome_pending rfl ⟨hseq, ⟨c, hc⟩, rfl, rfl, Nat.le_of_not_lt hm, ?_, ?_, rfl⟩
        · simp [fragments]
        · show r.initData.length < r.declared
          rw [Report.length_initData]
          omega

/-- The report that supplies the missing data returns the message. -/
theorem pushCont_finish {init r : Report} {conts : List Report} {p : Partial} {c : Command}
    (hp : Assembling init conts p) (ht : r.tag = p.nextSeq) (hc : Command.fromByte p.cmd = some c)
    (hend : p.expected ≤ (p.buf ++ r.contData).length) :
    pushCont (some p) r = some (.ok (some (c, (p.buf ++ r.contData).take p.expected)), new) := by
  have hshort := hp.short
  obtain ⟨next, hnext, -⟩ := checkedSucc_toNat (n := p.nextSeq)
    (by have := hp.length_conts; rw [hp.nextSeq]; omega)
  have hsub := checkedSub_of_le (Nat.le_of_lt hshort)
  have hcut : p.buf ++ r.contData.take (min (p.expected - p.buf.length) contPayload) =
      (p.buf ++ r.contData).take p.expected := by
    rw [List.length_append, Report.length_contData] at hend
    have hbuf : p.buf.take p.expected = p.buf := List.take_of_length_le (by omega)
    rw [Nat.min_eq_left (by omega), List.take_append, hbuf]
  have hwhole : ((p.buf ++ r.contData).take p.expected).length = p.expected := by
    rw [List.length_take, Nat.min_eq_left hend]
  simp only [pushCont, ht, ne_eq, not_true_eq_false, if_false, hsub, Option.bind_some, hnext,
    Option.map_some, hcut, hwhole, if_true, hc]

/-- A report in sequence that leaves data missing keeps the decoder assembling. -/
theorem pushCont_extend {init r : Report} {conts : List Report} {p : Partial}
    (hp : Assembling init conts p) (hr : ¬ r.isInit) (ht : r.tag = p.nextSeq)
    (hmore : (p.buf ++ r.contData).length < p.expected) :
    ∃ q, pushCont (some p) r = some (.ok none, ⟨some q⟩) ∧ Assembling init (conts ++ [r]) q := by
  have hshort := hp.short
  obtain ⟨next, hnext, hval⟩ := checkedSucc_toNat (n := p.nextSeq)
    (by have := hp.length_conts; rw [hp.nextSeq]; omega)
  have hsub := checkedSub_of_le (Nat.le_of_lt hshort)
  have hcut : r.contData.take (min (p.expected - p.buf.length) contPayload) = r.contData := by
    rw [List.length_append, Report.length_contData] at hmore
    rw [Nat.min_eq_right (by omega), List.take_of_length_le (by simp)]
  refine ⟨{ p with buf := p.buf ++ r.contData, nextSeq := next }, ?_, hp.extend hr ht hval hmore⟩
  simp only [pushCont, ht, ne_eq, not_true_eq_false, if_false, hsub, Option.bind_some, hnext,
    Option.map_some, hcut, if_neg (show ¬ (p.buf ++ r.contData).length = p.expected by omega)]

theorem pushCont_outcome {h : List Report} {d : MessageDecoder} (hd : Holds h d) (r : Report)
    (hr : ¬ r.isInit) : ∃ x e, pushCont d.active r = some (x, e) ∧ Outcome (h ++ [r]) x e := by
  cases ha : d.active with
  | none => exact ⟨_, _, rfl, outcome_error _ _⟩
  | some p =>
    obtain ⟨pre, init, conts, rfl, hp⟩ := hd p ha
    by_cases ht : r.tag = p.nextSeq
    · obtain ⟨c, hc⟩ := hp.command
      rw [← hp.cmd] at hc
      have happ : (pre ++ init :: conts) ++ [r] = pre ++ init :: (conts ++ [r]) := by simp
      by_cases hend : p.expected ≤ (p.buf ++ r.contData).length
      · exact ⟨_, _, pushCont_finish hp ht hc hend,
          outcome_message happ (hp.finish hr ht hc hend)⟩
      · obtain ⟨q, hq, ha⟩ := pushCont_extend hp hr ht (Nat.lt_of_not_le hend)
        exact ⟨_, _, hq, outcome_pending happ ha⟩
    · refine ⟨.error (.device .invalidSeq), new, ?_, outcome_error _ _⟩
      simp only [pushCont, ne_eq, ht, not_false_eq_true, if_true]

/-- One step: no panic, and the promises above. -/
theorem push_outcome {h : List Report} {d : MessageDecoder} (hd : Holds h d) (r : Report) :
    ∃ x e, d.push r = some (x, e) ∧ Outcome (h ++ [r]) x e := by
  by_cases hr : r.isInit
  · exact ⟨_, _, by rw [push, if_pos hr], pushInit_outcome h r hr⟩
  · rw [push, if_neg hr]
    exact pushCont_outcome hd r hr

/-- Every step of a run, from the state that the earlier reports left. -/
theorem pushAll_outcome {h : List Report} {d : MessageDecoder} (hd : Holds h d)
    (rs : List Report) : ∃ xs e, d.pushAll rs = some (xs, e) ∧ Holds (h ++ rs) e ∧
      ∀ (i : Nat) (x : PushResult), xs[i]? = some x → ∃ e', d.pushAll (rs.take (i + 1)) =
        some (xs.take (i + 1), e') ∧ Outcome (h ++ rs.take (i + 1)) x e' := by
  induction rs generalizing h d with
  | nil => exact ⟨[], d, rfl, by simpa using hd, by intro i x hx; simp at hx⟩
  | cons r rs ih =>
    obtain ⟨y, c, hy, ho⟩ := push_outcome hd r
    obtain ⟨xs, e, hxs, he, hi⟩ := ih ho.holds
    refine ⟨y :: xs, e, pushAll_cons hy hxs, by simpa using he, ?_⟩
    intro i x hx
    cases i with
    | zero =>
      obtain rfl : y = x := by simpa using hx
      exact ⟨c, pushAll_cons hy rfl, by simpa using ho⟩
    | succ i =>
      obtain ⟨e', hp, ho'⟩ := hi i x (by simpa using hx)
      exact ⟨e', pushAll_cons hy hp, by simpa using ho'⟩

/-- The remaining reports of a message, pushed after the ones already held. -/
theorem pushAll_assembling {init : Report} {m : Command × Bytes} (rest : List Report) :
    ∀ (held : List Report) (p : Partial), Assembling init held p → rest ≠ [] →
      MessageOf init (held ++ rest) m → (⟨some p⟩ : MessageDecoder).pushAll rest =
        some (List.replicate (rest.length - 1) (.ok none) ++ [.ok (some m)], new) := by
  induction rest with
  | nil => intro held p _ hne; exact absurd rfl hne
  | cons r rest ih =>
    intro held p hp _ hm
    obtain ⟨hr, ht⟩ := hm.reports.sequence held.length r (by simp)
    have htag : r.tag = p.nextSeq := UInt8.toNat_inj.mp (by rw [ht, hp.nextSeq])
    have hpush : ∀ {out}, pushCont (some p) r = some out →
        (⟨some p⟩ : MessageDecoder).push r = some out := by
      intro out h
      rw [push, if_neg hr, h]
    by_cases hlast : rest = []
    · subst hlast
      have hend : p.expected ≤ (p.buf ++ r.contData).length := by
        rw [hp.buf, ← fragments_concat, hp.expected, ← hm.whole, hm.body]
        exact List.length_take_le' _ _
      have hc : Command.fromByte p.cmd = some m.1 := by rw [hp.cmd, hm.command]
      have hbody : (p.buf ++ r.contData).take p.expected = m.2 := by
        rw [hp.buf, ← fragments_concat, hp.expected, hm.body]
      have h := hpush (pushCont_finish hp htag hc hend)
      rw [hbody] at h
      exact pushAll_cons h rfl
    · have hpos : 0 < rest.length := List.length_pos_iff.mpr hlast
      have hmore : (p.buf ++ r.contData).length < p.expected := by
        have := hm.needed (held.length + 1) (by simp only [List.length_append, List.length_cons]; omega)
        rw [List.take_append, List.take_of_length_le (by omega), Nat.add_sub_cancel_left,
          List.take_succ_cons, List.take_zero, fragments_concat, ← hp.buf, ← hp.expected] at this
        exact this
      obtain ⟨q, hq, ha⟩ := pushCont_extend hp hr htag hmore
      have happ : held ++ r :: rest = (held ++ [r]) ++ rest := by simp
      rw [happ] at hm
      have htail := ih (held ++ [r]) q ha hlast hm
      rw [pushAll_cons (hpush hq) htail, List.length_cons, Nat.add_sub_cancel,
        ← List.cons_append, ← List.replicate_succ, Nat.sub_add_cancel hpos]

/-- The decoder delivers every message that its reports carry, from any state. -/
theorem pushAll_messageOf {init : Report} {conts : List Report} {m : Command × Bytes}
    (hm : MessageOf init conts m) (d : MessageDecoder) :
    d.pushAll (init :: conts) =
      some (List.replicate conts.length (.ok none) ++ [.ok (some m)], new) := by
  have hi := hm.reports.isInit
  have hpush : ∀ out, pushInit init = out → d.push init = some out := by
    intro out h
    rw [push, if_pos hi, h]
  have hdecl : ¬ init.declared > maxMessageLen := by
    rw [← hm.whole]
    exact Nat.not_lt.mpr hm.fits
  rcases conts with _ | ⟨r, rest⟩
  · have hshort : init.declared ≤ initPayload := by
      rw [← hm.whole, hm.body]
      simp [fragments]
    have hbody : init.initData.take init.declared = m.2 := by
      rw [hm.body]
      simp [fragments]
    refine pushAll_cons (hpush (.ok (some m), new) ?_) rfl
    simp only [pushInit, hm.command, if_neg hdecl, Nat.min_eq_left hshort, hbody, hm.whole, if_true]
  · have hlong : initPayload < init.declared := by
      have := hm.needed 0 (by simp)
      simpa [fragments] using this
    have hfull : init.initData.take (min init.declared initPayload) = init.initData := by
      rw [Nat.min_eq_right (Nat.le_of_lt hlong), List.take_of_length_le (by simp)]
    have hstart : Assembling init [] ⟨init.tag, init.declared, init.initData, 0⟩ := by
      refine ⟨⟨hi, by intro i s hs; simp at hs⟩, ⟨m.1, hm.command⟩, rfl, rfl,
        Nat.le_of_not_lt hdecl, ?_, ?_, rfl⟩
      · simp [fragments]
      · show init.initData.length < init.declared
        rw [Report.length_initData]
        exact hlong
    have hfirst : pushInit init =
        (.ok none, ⟨some ⟨init.tag, init.declared, init.initData, 0⟩⟩) := by
      have hne : ¬ init.initData.length = init.declared := by
        rw [Report.length_initData]
        omega
      simp only [pushInit, hm.command, if_neg hdecl, hfull, if_neg hne]
    have htail := pushAll_assembling (r :: rest) [] _ hstart (by simp) hm
    rw [pushAll_cons (hpush _ hfirst) htail]
    simp [List.replicate_succ]

end MessageDecoder

/-- Arbitrary reports pushed into a fresh decoder never panic. In every state
on the way the partial buffer is strictly shorter than a declared length that
fits; the decoder is idle after every error and every message; and each message
is the declared-length prefix of the data of one initialization report and the
continuation reports 0, 1, … pushed immediately after it, under its command. -/
theorem decoder_runs (reports : List Report) :
    ∃ results d, MessageDecoder.new.pushAll reports = some (results, d) ∧ d.WellFormed ∧
      results.length = reports.length ∧
      ∀ (i : Nat) (x : PushResult), results[i]? = some x →
        ∃ e, MessageDecoder.new.pushAll (reports.take (i + 1)) = some (results.take (i + 1), e) ∧
          e.WellFormed ∧
          (∀ err, x = .error err → e = MessageDecoder.new) ∧
          ∀ m, x = .ok (some m) → e = MessageDecoder.new ∧
            ∃ pre init conts, reports.take (i + 1) = pre ++ init :: conts ∧
              MessageOf init conts m := by
  obtain ⟨xs, d, hp, hd, hi⟩ :=
    MessageDecoder.pushAll_outcome (MessageDecoder.holds_new []) reports
  refine ⟨xs, d, hp, hd.wellFormed, MessageDecoder.length_pushAll hp, ?_⟩
  intro i x hx
  obtain ⟨e, he, ho⟩ := hi i x hx
  exact ⟨e, he, ho.holds.wellFormed, ho.idleOnError, fun m hm => ⟨ho.idleOnMessage m hm,
    ho.message m hm⟩⟩

end CtapHid
