import Ckman.CtapHidDecoder
import Ckman.CtapHidFraming

/-!
# Requests on a shared device

`CtapHidChannel::request` writes one message and reads reports until the answer
of its own channel is complete. Other hosts use the same device, so reports of
other channels may arrive between any two fragments. Time is abstracted: the
outcomes of the coming reads and writes are lists, and a read that would pass
the deadline is an outcome of its own.
-/
namespace CtapHid

open Host

inductive ReadOutcome where
  | report (r : Report)
  | timeout
  | failed (error : IoError)
  deriving DecidableEq, Repr

/-- A HID device as seen through `ReportIo`: what was written to it, and what
the coming writes and reads will return. Exhausted reads time out. -/
structure Hid where
  written : List Report
  writes : List (Option IoError)
  reads : List ReadOutcome
  deriving DecidableEq, Repr

namespace Hid

def writeReport (hid : Hid) (r : Report) : Except IoError Unit × Hid :=
  match hid.writes with
  | some e :: rest => (.error e, { hid with writes := rest })
  | none :: rest => (.ok (), { hid with written := hid.written ++ [r], writes := rest })
  | [] => (.ok (), { hid with written := hid.written ++ [r] })

/-- `for packet in &packets { io.write_report(packet)?; }` -/
def writeReports (hid : Hid) : List Report → Except IoError Unit × Hid
  | [] => (.ok (), hid)
  | r :: rs =>
    match hid.writeReport r with
    | (.error e, hid) => (.error e, hid)
    | (.ok (), hid) => hid.writeReports rs

@[simp] theorem writeReports_nil (hid : Hid) : hid.writeReports [] = (.ok (), hid) := rfl

/-- Writing touches neither the coming reads nor how they are consumed. -/
theorem writeReport_reads (hid : Hid) (r : Report) (reads : List ReadOutcome) :
    { hid with reads }.writeReport r =
      ((hid.writeReport r).1, { (hid.writeReport r).2 with reads }) := by
  obtain ⟨written, writes, old⟩ := hid
  simp only [writeReport]
  rcases writes with _ | ⟨_ | e, rest⟩ <;> rfl

theorem writeReports_reads (hid : Hid) (rs : List Report) (reads : List ReadOutcome) :
    { hid with reads }.writeReports rs =
      ((hid.writeReports rs).1, { (hid.writeReports rs).2 with reads }) := by
  induction rs generalizing hid with
  | nil => rfl
  | cons r rs ih =>
    simp only [writeReports, writeReport_reads]
    obtain ⟨_ | _, next⟩ := hid.writeReport r
    · rfl
    · exact ih next

/-- How far the writing of `rs` gets: to its end when no write on the way
fails, and otherwise to the first failing one. -/
inductive Wrote (hid : Hid) (rs : List Report) : Except IoError Unit → List Report → Prop where
  | all : (∀ o ∈ hid.writes.take rs.length, o = none) → Wrote hid rs (.ok ()) rs
  | failed (n : Nat) (e : IoError) : n < rs.length → (∀ o ∈ hid.writes.take n, o = none) →
      hid.writes[n]? = some (some e) → Wrote hid rs (.error e) (rs.take n)

/-- A report that was written in front of the others. -/
theorem Wrote.cons {hid next : Hid} {r : Report} {rs sent : List Report}
    {status : Except IoError Unit} (hw : next.writes = hid.writes.tail)
    (hr : hid.writes.head? = none ∨ hid.writes.head? = some none) (h : next.Wrote rs status sent) :
    hid.Wrote (r :: rs) status (r :: sent) := by
  have hfirst : ∀ n, (∀ o ∈ next.writes.take n, o = none) →
      ∀ o ∈ hid.writes.take (n + 1), o = none := by
    intro n hn o ho
    rw [hw] at hn
    rcases hall : hid.writes with _ | ⟨w, rest⟩
    · simp [hall] at ho
    · rw [hall] at hn hr ho
      rcases List.mem_cons.mp ho with rfl | ho
      · simpa using hr
      · exact hn o ho
  cases h with
  | all hall => exact .all (hfirst _ hall)
  | failed n e hn hall he =>
    refine .failed (n + 1) e (Nat.succ_lt_succ hn) (hfirst n hall) ?_
    rwa [hw, List.getElem?_tail] at he

theorem writeReports_wrote (hid : Hid) (rs : List Report) :
    ∃ sent, (hid.writeReports rs).2.written = hid.written ++ sent ∧
      hid.Wrote rs (hid.writeReports rs).1 sent := by
  induction rs generalizing hid with
  | nil => exact ⟨[], by simp, .all (by simp)⟩
  | cons r rs ih =>
    obtain ⟨written, writes, reads⟩ := hid
    rcases writes with _ | ⟨_ | e, rest⟩
    · obtain ⟨sent, hw, hs⟩ := ih ⟨written ++ [r], [], reads⟩
      exact ⟨r :: sent, by simpa [writeReports, writeReport] using hw, hs.cons rfl (.inl rfl)⟩
    · obtain ⟨sent, hw, hs⟩ := ih ⟨written ++ [r], rest, reads⟩
      exact ⟨r :: sent, by simpa [writeReports, writeReport] using hw, hs.cons rfl (.inr rfl)⟩
    · exact ⟨[], by simp [writeReports, writeReport], .failed 0 e (by simp) (by simp) rfl⟩

end Hid

structure CtapHidChannel where
  cid : UInt32
  io : Hid
  deriving DecidableEq, Repr

/-- The answer of `device_error`, an error either way. -/
def deviceError (body : Bytes) : CtapHidError :=
  match body with
  | [code] => .device (DeviceError.fromByte code)
  | _ => .malformed "ERROR must contain one byte"

/-- The read loop of `request`. Returns the result, the keepalive statuses in
the order of the callbacks, and the reads that are left. -/
def readLoop (cid : UInt32) (cmd : Command) (d : MessageDecoder) (seen : List Keepalive) :
    List ReadOutcome → Option (Except CtapHidError Bytes × List Keepalive × List ReadOutcome)
  | [] => some (.error .timeout, seen, [])
  | .timeout :: rest => some (.error .timeout, seen, rest)
  | .failed e :: rest => some (.error (.io e), seen, rest)
  | .report r :: rest =>
    if r.cid ≠ cid then readLoop cid cmd d seen rest
    else
      match d.push r with
      | none => none
      | some (.error e, _) => some (.error e, seen, rest)
      | some (.ok none, d) => readLoop cid cmd d seen rest
      | some (.ok (some (.keepalive, [status])), d) =>
        readLoop cid cmd d (seen ++ [Keepalive.fromByte status]) rest
      | some (.ok (some (.keepalive, _)), _) =>
        some (.error (.malformed "KEEPALIVE must contain one byte"), seen, rest)
      | some (.ok (some (.error, body)), _) => some (.error (deviceError body), seen, rest)
      | some (.ok (some (response, body)), _) =>
        if response = cmd then some (.ok body, seen, rest)
        else some (.error (.malformed "unexpected response command"), seen, rest)

/-- What one call of `request` leaves behind. -/
structure Answer where
  result : Except CtapHidError Bytes
  /-- The statuses passed to `on_keepalive`, in order. -/
  keepalives : List Keepalive
  hid : Hid
  deriving DecidableEq, Repr

def request (cid : UInt32) (cmd : Command) (payload : Bytes) (hid : Hid) : Option Answer := do
  match ← frameMessage cid cmd payload with
  | .error e => pure ⟨.error e, [], hid⟩
  | .ok packets =>
    match hid.writeReports packets with
    | (.error e, hid) => pure ⟨.error (.io e), [], hid⟩
    | (.ok (), hid) =>
      let (result, keepalives, reads) ← readLoop cid cmd .new [] hid.reads
      pure ⟨result, keepalives, { hid with reads }⟩

/-- Reports of other channels are not for this request. -/
def ReadOutcome.isOwn (cid : UInt32) : ReadOutcome → Bool
  | .report r => r.cid = cid
  | _ => true

def ownReads (cid : UInt32) (reads : List ReadOutcome) : List ReadOutcome :=
  reads.filter (ReadOutcome.isOwn cid)

/-- A push after which the request keeps reading. -/
def Continues : PushResult → Prop
  | .ok none => True
  | .ok (some (.keepalive, [_])) => True
  | _ => False

def forwarded : PushResult → Option Keepalive
  | .ok (some (.keepalive, [status])) => some (Keepalive.fromByte status)
  | _ => none

/-- What a push after which the request stops makes it return. -/
def verdict (cmd : Command) : PushResult → Except CtapHidError Bytes
  | .error e => .error e
  | .ok none => .error .timeout
  | .ok (some (.keepalive, _)) => .error (.malformed "KEEPALIVE must contain one byte")
  | .ok (some (.error, body)) => .error (deviceError body)
  | .ok (some (response, body)) =>
    if response = cmd then .ok body else .error (.malformed "unexpected response command")

/-- How the first read that is not consumed quietly ends the request. -/
def Ends (cmd : Command) (d : MessageDecoder) (result : Except CtapHidError Bytes) :
    List ReadOutcome → Prop
  | [] => result = .error .timeout
  | .timeout :: _ => result = .error .timeout
  | .failed e :: _ => result = .error (.io e)
  | .report r :: _ => ∃ x e, d.push r = some (x, e) ∧ ¬ Continues x ∧ result = verdict cmd x

/-- The reads of one channel determine a result and its callbacks: `quiet`
reports are pushed one after the other, each well-formed keepalive among them
is forwarded once, and the read after them decides. -/
def Determines (cmd : Command) (d : MessageDecoder) (reads : List ReadOutcome)
    (result : Except CtapHidError Bytes) (keepalives : List Keepalive) : Prop :=
  ∃ quiet tail xs e, reads = quiet.map .report ++ tail ∧ d.pushAll quiet = some (xs, e) ∧
    (∀ x ∈ xs, Continues x) ∧ keepalives = xs.filterMap forwarded ∧ Ends cmd e result tail

/-- A quiet report in front only adds what it forwards. -/
theorem determines_cons {cmd : Command} {d e : MessageDecoder} {r : Report} {x : PushResult}
    {reads : List ReadOutcome} {result : Except CtapHidError Bytes} {keepalives : List Keepalive}
    (hp : d.push r = some (x, e)) (hx : Continues x)
    (h : Determines cmd e reads result keepalives) :
    Determines cmd d (.report r :: reads) result ((forwarded x).toList ++ keepalives) := by
  obtain ⟨quiet, tail, xs, f, rfl, hall, hc, rfl, he⟩ := h
  refine ⟨r :: quiet, tail, x :: xs, f, rfl, MessageDecoder.pushAll_cons hp hall, ?_, ?_, he⟩
  · intro y hy
    rcases List.mem_cons.mp hy with rfl | hy
    · exact hx
    · exact hc y hy
  · cases hf : forwarded x <;> simp [hf]

theorem determines_stop {cmd : Command} {d : MessageDecoder} {reads : List ReadOutcome}
    {result : Except CtapHidError Bytes} (h : Ends cmd d result reads) :
    Determines cmd d reads result [] :=
  ⟨[], reads, [], d, rfl, rfl, by simp, rfl, h⟩

/-- The loop never panics, and what it returns is determined by the reads of
its own channel. The decoder that reads them is in a reachable state. -/
theorem readLoop_determines (cid : UInt32) (cmd : Command) (reads : List ReadOutcome) :
    ∀ (h : List Report) (d : MessageDecoder) (seen : List Keepalive), d.Holds h →
      ∃ result keepalives rest,
        readLoop cid cmd d seen reads = some (result, seen ++ keepalives, rest) ∧
        Determines cmd d (ownReads cid reads) result keepalives := by
  induction reads with
  | nil =>
    intro h d seen hd
    exact ⟨.error .timeout, [], [], by rw [List.append_nil, readLoop], determines_stop rfl⟩
  | cons o reads ih =>
    intro h d seen hd
    cases o with
    | timeout =>
      exact ⟨.error .timeout, [], reads, by rw [List.append_nil, readLoop], determines_stop rfl⟩
    | failed e =>
      exact ⟨.error (.io e), [], reads, by rw [List.append_nil, readLoop], determines_stop rfl⟩
    | report r =>
      by_cases hcid : r.cid = cid
      · have hown : ownReads cid (.report r :: reads) = .report r :: ownReads cid reads := by
          simp [ownReads, ReadOutcome.isOwn, hcid]
        obtain ⟨x, e, hp, ho⟩ := MessageDecoder.push_outcome hd r
        have stop : ∀ result, ¬ Continues x → result = verdict cmd x →
            readLoop cid cmd d seen (.report r :: reads) = some (result, seen, reads) →
            ∃ result keepalives rest,
              readLoop cid cmd d seen (.report r :: reads) =
                some (result, seen ++ keepalives, rest) ∧
              Determines cmd d (ownReads cid (.report r :: reads)) result keepalives := by
          intro result hx hv hl
          refine ⟨result, [], reads, by rw [hl, List.append_nil], ?_⟩
          rw [hown]
          exact determines_stop ⟨x, e, hp, hx, hv⟩
        -- One case per branch of the match on the push result.
        rcases x with err | _ | ⟨c, body⟩
        · have hl : readLoop cid cmd d seen (.report r :: reads) = some (.error err, seen, reads) := by
            simp only [readLoop, hcid, ne_eq, not_true_eq_false, if_false, hp]
          exact stop (.error err) id rfl hl
        · obtain ⟨result, keepalives, rest, hl, hdet⟩ := ih _ e seen ho.holds
          refine ⟨result, keepalives, rest, ?_, ?_⟩
          · simp only [readLoop, hcid, ne_eq, not_true_eq_false, if_false, hp, hl]
          · rw [hown]
            exact determines_cons hp trivial hdet
        · by_cases hk : c = .keepalive
          · subst hk
            by_cases hb : ∃ status, body = [status]
            · obtain ⟨status, rfl⟩ := hb
              obtain ⟨result, keepalives, rest, hl, hdet⟩ :=
                ih _ e (seen ++ [Keepalive.fromByte status]) ho.holds
              refine ⟨result, Keepalive.fromByte status :: keepalives, rest, ?_, ?_⟩
              · simp only [readLoop, hcid, ne_eq, not_true_eq_false, if_false, hp, hl,
                  List.append_assoc, List.singleton_append]
              · rw [hown]
                exact determines_cons hp trivial hdet
            · have hx : ¬ Continues (.ok (some (.keepalive, body))) := by
                rcases body with _ | ⟨b, _ | ⟨b', bs⟩⟩
                · exact id
                · exact fun _ => hb ⟨b, rfl⟩
                · exact id
              refine stop _ hx rfl ?_
              rcases body with _ | ⟨b, _ | ⟨b', bs⟩⟩
              · simp only [readLoop, hcid, ne_eq, not_true_eq_false, if_false, hp, verdict]
              · exact absurd ⟨b, rfl⟩ hb
              · simp only [readLoop, hcid, ne_eq, not_true_eq_false, if_false, hp, verdict]
          · have hx : ¬ Continues (.ok (some (c, body))) := by
              cases c <;> first | exact id | exact absurd rfl hk
            refine stop _ hx rfl ?_
            cases c <;> first
              | exact absurd rfl hk
              | simp only [readLoop, hcid, ne_eq, not_true_eq_false, if_false, hp, verdict]
            all_goals split <;> rfl
      · have hown : ownReads cid (.report r :: reads) = ownReads cid reads := by
          simp [ownReads, ReadOutcome.isOwn, hcid]
        obtain ⟨result, keepalives, rest, hl, hdet⟩ := ih h d seen hd
        refine ⟨result, keepalives, rest, ?_, ?_⟩
        · simp only [readLoop, ne_eq, hcid, not_false_eq_true, if_true, hl]
        · rw [hown]
          exact hdet

/-- Dropping the reports of other channels leaves the loop's result and its
callbacks as they are. -/
theorem readLoop_ownReads (cid : UInt32) (cmd : Command) (reads : List ReadOutcome) :
    ∀ (d : MessageDecoder) (seen : List Keepalive),
      readLoop cid cmd d seen (ownReads cid reads) =
        (readLoop cid cmd d seen reads).map (fun a => (a.1, a.2.1, ownReads cid a.2.2)) := by
  induction reads with
  | nil =>
    intro d seen
    rfl
  | cons o reads ih =>
    intro d seen
    cases o with
    | timeout => rfl
    | failed e => rfl
    | report r =>
      by_cases hcid : r.cid = cid
      · have hown : ownReads cid (.report r :: reads) = .report r :: ownReads cid reads := by
          simp [ownReads, ReadOutcome.isOwn, hcid]
        rw [hown]
        simp only [readLoop, hcid, ne_eq, not_true_eq_false, if_false]
        split <;> first | rfl | exact ih _ _ | (split <;> rfl)
      · have hown : ownReads cid (.report r :: reads) = ownReads cid reads := by
          simp [ownReads, ReadOutcome.isOwn, hcid]
        rw [hown]
        simp only [readLoop, ne_eq, hcid, not_false_eq_true, if_true]
        exact ih d seen

inductive Requested (cid : UInt32) (cmd : Command) (payload : Bytes) (hid : Hid) (a : Answer) :
    Prop where
  /-- The payload is not framed, and the device is left alone. -/
  | unframed (e : CtapHidError) : frameMessage cid cmd payload = some (.error e) →
      a = ⟨.error e, [], hid⟩ → Requested cid cmd payload hid a
  /-- A write fails, and nothing is read. -/
  | unwritten (packets sent : List Report) (e : IoError) :
      frameMessage cid cmd payload = some (.ok packets) → hid.Wrote packets (.error e) sent →
      a.hid.written = hid.written ++ sent → a.hid.reads = hid.reads → a.result = .error (.io e) →
      a.keepalives = [] → Requested cid cmd payload hid a
  /-- All the reports are written, and the own reads decide. -/
  | answered (packets : List Report) : frameMessage cid cmd payload = some (.ok packets) →
      hid.Wrote packets (.ok ()) packets → a.hid.written = hid.written ++ packets →
      Determines cmd .new (ownReads cid hid.reads) a.result a.keepalives →
      Requested cid cmd payload hid a

/-- How a request runs over any coming reads: it ends before them, in a framing
error or in a failing write, or the read loop decides. -/
inductive Way (cid : UInt32) (cmd : Command) (payload : Bytes) (hid : Hid) : Prop where
  | unframed (e : CtapHidError) : frameMessage cid cmd payload = some (.error e) →
      (∀ reads, request cid cmd payload { hid with reads } =
        some ⟨.error e, [], { hid with reads }⟩) → Way cid cmd payload hid
  | unwritten (packets sent : List Report) (e : IoError) (out : Hid) :
      frameMessage cid cmd payload = some (.ok packets) → hid.Wrote packets (.error e) sent →
      out.written = hid.written ++ sent →
      (∀ reads, request cid cmd payload { hid with reads } =
        some ⟨.error (.io e), [], { out with reads }⟩) → Way cid cmd payload hid
  | loop (packets : List Report) (out : Hid) : frameMessage cid cmd payload = some (.ok packets) →
      hid.Wrote packets (.ok ()) packets → out.written = hid.written ++ packets →
      (∀ reads, request cid cmd payload { hid with reads } =
        (readLoop cid cmd .new [] reads).map
          (fun a => ⟨a.1, a.2.1, { out with reads := a.2.2 }⟩)) → Way cid cmd payload hid

theorem request_way (cid : UInt32) (cmd : Command) (payload : Bytes) (hid : Hid) :
    Way cid cmd payload hid := by
  obtain ⟨framed, hf⟩ := frameMessage_total cid cmd payload
  cases framed with
  | error e =>
    refine .unframed e hf fun reads => ?_
    simp only [request, hf, Option.bind_eq_bind, Option.bind_some, Option.pure_def]
  | ok packets =>
    obtain ⟨sent, hsent, hwrote⟩ := hid.writeReports_wrote packets
    obtain ⟨status, out, hs⟩ : ∃ status out, hid.writeReports packets = (status, out) := ⟨_, _, rfl⟩
    rw [hs] at hsent hwrote
    have hw : ∀ reads, { hid with reads }.writeReports packets = (status, { out with reads }) := by
      intro reads
      rw [Hid.writeReports_reads, hs]
    cases status with
    | error e =>
      refine .unwritten packets sent e out hf hwrote hsent fun reads => ?_
      simp only [request, hf, Option.bind_eq_bind, Option.bind_some, Option.pure_def, hw]
    | ok =>
      obtain rfl : sent = packets := by
        cases hwrote
        rfl
      refine .loop sent out hf hwrote hsent fun reads => ?_
      simp only [request, hf, Option.bind_eq_bind, Option.bind_some, Option.pure_def, hw]
      rcases readLoop cid cmd .new [] reads with _ | ⟨result, keepalives, rest⟩ <;> rfl

/-- A request never panics. -/
theorem request_requested (cid : UInt32) (cmd : Command) (payload : Bytes) (hid : Hid) :
    ∃ a, request cid cmd payload hid = some a ∧ Requested cid cmd payload hid a := by
  cases request_way cid cmd payload hid with
  | unframed e hf hreq => exact ⟨_, hreq hid.reads, .unframed e hf rfl⟩
  | unwritten packets sent e out hf hwrote hsent hreq =>
    exact ⟨_, hreq hid.reads, .unwritten packets sent e hf hwrote hsent rfl rfl rfl⟩
  | loop packets out hf hwrote hsent hreq =>
    obtain ⟨result, keepalives, rest, hl, hdet⟩ :=
      readLoop_determines cid cmd hid.reads [] .new [] (MessageDecoder.holds_new [])
    have ha := hreq hid.reads
    rw [hl] at ha
    exact ⟨_, ha, .answered packets hf hwrote hsent hdet⟩

/-- An `Ok` verdict comes from a completed message of the requested command. -/
theorem verdict_ok {cmd : Command} {x : PushResult} {body : Bytes} (hx : ¬ Continues x)
    (h : verdict cmd x = .ok body) : x = .ok (some (cmd, body)) ∧ cmd ≠ .keepalive := by
  rcases x with e | _ | ⟨c, b⟩
  · cases h
  · exact absurd trivial hx
  · cases c with
    | keepalive => cases h
    | error => cases h
    | _ =>
      simp only [verdict] at h
      split at h
      · rename_i hc
        cases h
        subst hc
        exact ⟨rfl, by simp⟩
      · cases h

theorem continues_iff {x : PushResult} :
    Continues x ↔ x = .ok none ∨ ∃ status, x = .ok (some (.keepalive, [status])) := by
  rcases x with e | _ | ⟨c, body⟩
  · simp [Continues]
  · simp [Continues]
  · rcases body with _ | ⟨b, _ | ⟨b', bs⟩⟩ <;> cases c <;> simp [Continues]

/-- An answer of the own reads that is `Ok(body)`. -/
theorem Determines.ok {cmd : Command} {reads : List ReadOutcome} {body : Bytes}
    {keepalives : List Keepalive} (h : Determines cmd .new reads (.ok body) keepalives) :
    ∃ quiet last tail xs, reads = quiet.map .report ++ .report last :: tail ∧
      MessageDecoder.new.pushAll (quiet ++ [last]) =
        some (xs ++ [.ok (some (cmd, body))], MessageDecoder.new) ∧
      cmd ≠ .keepalive ∧
      (∀ x ∈ xs, x = .ok none ∨ ∃ status, x = .ok (some (.keepalive, [status]))) ∧
      keepalives = xs.filterMap forwarded := by
  obtain ⟨quiet, tail, xs, e, hq, hall, hc, hk, he⟩ := h
  have hlast : ∃ last rest x f, tail = .report last :: rest ∧ e.push last = some (x, f) ∧
      ¬ Continues x ∧ verdict cmd x = .ok body := by
    rcases tail with _ | ⟨_ | _ | _, tail⟩
    · cases he
    · obtain ⟨x, f, hp, hx, hv⟩ := he
      exact ⟨_, _, x, f, rfl, hp, hx, hv.symm⟩
    · cases he
    · cases he
  obtain ⟨last, rest, x, f, rfl, hp, hx, hv⟩ := hlast
  obtain ⟨rfl, hne⟩ := verdict_ok hx hv
  have hidle : f = .new := by
    obtain ⟨ys, g, hall', hg, -⟩ :=
      MessageDecoder.pushAll_outcome (MessageDecoder.holds_new []) quiet
    rw [hall] at hall'
    cases hall'
    obtain ⟨y, k, hp', ho⟩ := MessageDecoder.push_outcome hg last
    rw [hp] at hp'
    cases hp'
    exact ho.idleOnMessage _ rfl
  subst hidle
  refine ⟨quiet, last, rest, xs, hq, ?_, hne, fun y hy => continues_iff.mp (hc y hy), hk⟩
  exact MessageDecoder.pushAll_append hall (MessageDecoder.pushAll_cons hp rfl)

/-- Two lists of reads that agree on the own channel give the same answer. -/
theorem request_ownReads (cid : UInt32) (cmd : Command) (payload : Bytes) (hid : Hid)
    {reads : List ReadOutcome} (hown : ownReads cid reads = ownReads cid hid.reads) {a : Answer}
    (ha : request cid cmd payload hid = some a) :
    ∃ a', request cid cmd payload { hid with reads } = some a' ∧ a'.result = a.result ∧
      a'.keepalives = a.keepalives ∧ a'.hid.written = a.hid.written := by
  cases request_way cid cmd payload hid with
  | unframed e hf hreq =>
    cases ha.symm.trans (hreq hid.reads)
    exact ⟨_, hreq reads, rfl, rfl, rfl⟩
  | unwritten packets sent e out hf hwrote hsent hreq =>
    cases ha.symm.trans (hreq hid.reads)
    exact ⟨_, hreq reads, rfl, rfl, rfl⟩
  | loop packets out hf hwrote hsent hreq =>
    have hrun := ha.symm.trans (hreq hid.reads)
    -- Both loops agree with the loop over the own reads alone.
    have h₁ := readLoop_ownReads cid cmd reads .new []
    have h₂ := readLoop_ownReads cid cmd hid.reads .new []
    rw [hown, h₂] at h₁
    cases hl : readLoop cid cmd .new [] hid.reads with
    | none => simp [hl] at hrun
    | some b =>
      obtain ⟨result, keepalives, rest⟩ := b
      cases hr : readLoop cid cmd .new [] reads with
      | none => simp [hr, hl] at h₁
      | some b =>
        obtain ⟨result', keepalives', rest'⟩ := b
        simp only [hr, hl, Option.map_some, Option.some.injEq, Prod.mk.injEq] at h₁ hrun
        subst hrun
        refine ⟨⟨result', keepalives', { out with reads := rest' }⟩, ?_, h₁.1.symm, h₁.2.1.symm, rfl⟩
        rw [hreq reads, hr, Option.map_some]

/-- `request` never panics, whatever the device sends. Its result and the
keepalive callbacks depend only on the reads of its own channel. `Ok(body)` is
the first completed message there that is not a keepalive, under the command of
the request; every message completed before it is a well-formed keepalive and
was forwarded once, in order. In general the request ends before any read, in
the framer's error or in that of a failing write, or its own reads determine
what it returns and which keepalives it forwards. -/
theorem request_own_channel (cid : UInt32) (cmd : Command) (payload : Bytes) (hid : Hid) :
    ∃ a, request cid cmd payload hid = some a ∧
      (∀ reads, ownReads cid reads = ownReads cid hid.reads →
        ∃ a', request cid cmd payload { hid with reads } = some a' ∧
          a'.result = a.result ∧ a'.keepalives = a.keepalives ∧
          a'.hid.written = a.hid.written) ∧
      (∀ body, a.result = .ok body →
        ∃ quiet last tail xs, ownReads cid hid.reads = quiet.map .report ++ .report last :: tail ∧
          MessageDecoder.new.pushAll (quiet ++ [last]) =
            some (xs ++ [.ok (some (cmd, body))], MessageDecoder.new) ∧
          cmd ≠ .keepalive ∧
          (∀ x ∈ xs, x = .ok none ∨ ∃ status, x = .ok (some (.keepalive, [status]))) ∧
          a.keepalives = xs.filterMap forwarded) ∧
      Requested cid cmd payload hid a := by
  obtain ⟨a, ha, hq⟩ := request_requested cid cmd payload hid
  refine ⟨a, ha, fun reads hown => request_ownReads cid cmd payload hid hown ha, ?_, hq⟩
  intro body hok
  cases hq with
  | unframed e hf he =>
    rw [he] at hok
    cases hok
  | unwritten packets sent e hf hwrote hsent hreads he hk =>
    rw [he] at hok
    cases hok
  | answered packets hf hwrote hsent hdet =>
    rw [hok] at hdet
    exact hdet.ok

/-- A keepalive of the own channel between two fragments of another host's
message, and the answer after it. -/
example :
    let report (cid : UInt8) (fields : Bytes) : ReadOutcome := .report (.ofFields ([0, 0, 0, cid] ++ fields))
    (request 1 .cbor [4] ⟨[], [], [report 2 [0x90, 0, 60], report 1 [0xbb, 0, 1, 2],
      report 2 [0], report 1 [0x90, 0, 2, 0, 0xa0]]⟩).map (fun a => (a.result, a.keepalives)) =
      some (.ok [0, 0xa0], [.userPresenceNeeded]) := by
  decide +kernel

end CtapHid
