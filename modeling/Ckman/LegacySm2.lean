import Ckman.BigEndian
import Ckman.Canokey

/-!
# The legacy SM2 configuration

`configure_sm2` on firmware 3.0.x reads nine bytes, replaces the identifiers of
the patch in them and writes them back if they changed. The operations belong to
libcanokey and are parameters; what they do to the card is `Documented`.
-/
namespace Sm2

open Host Interaction
open Piv (Operation Error ErrorKind Phase DriveError World Device environment execute)

variable {E σ T : Type}

/-- The nine bytes of the legacy layout. -/
abbrev Raw := { bytes : Bytes // bytes.length = 9 }

/-- `i32::to_le_bytes`. -/
def toLeBytes (id : Int32) : Bytes := LittleEndian.encode 4 id.toUInt32.toNat

/-- `i32::from_le_bytes`. -/
def fromLeBytes (bytes : Bytes) : Int32 := (UInt32.ofNat (LittleEndian.decode bytes)).toInt32

@[simp] theorem length_toLeBytes (id : Int32) : (toLeBytes id).length = 4 :=
  LittleEndian.length_encode 4 _

theorem fromLeBytes_toLeBytes (id : Int32) : fromLeBytes (toLeBytes id) = id := by
  rw [fromLeBytes, toLeBytes, LittleEndian.decode_encode id.toUInt32.toNat_lt, UInt32.ofNat_toNat,
    Int32.toInt32_toUInt32]

/-- `bytes[first..first + n]`. -/
def range (bytes : Bytes) (first n : Nat) : Bytes := (bytes.drop first).take n

/-- `raw[first..first + 4].copy_from_slice(&id.to_le_bytes())`. -/
def copyBytes (bytes : Bytes) (first : Nat) (id : Int32) : Bytes :=
  bytes.take first ++ (toLeBytes id ++ bytes.drop (first + 4))

theorem length_copyBytes {bytes : Bytes} {first : Nat} (id : Int32) (h : first + 4 ≤ bytes.length) :
    (copyBytes bytes first id).length = bytes.length := by
  simp only [copyBytes, List.length_append, List.length_take, length_toLeBytes, List.length_drop]
  omega

theorem range_copyBytes_self {bytes : Bytes} {first : Nat} (id : Int32) (h : first ≤ bytes.length) :
    range (copyBytes bytes first id) first 4 = toLeBytes id := by
  have hfirst : (bytes.take first).length = first := by
    rw [List.length_take]
    omega
  rw [range, copyBytes, List.drop_left' hfirst, List.take_left' (length_toLeBytes id)]

/-- The bytes before and after are left as they are. -/
theorem range_copyBytes_other {bytes : Bytes} {first other n : Nat} (id : Int32)
    (h : first + 4 ≤ bytes.length) (hother : other + n ≤ first ∨ first + 4 ≤ other) :
    range (copyBytes bytes first id) other n = range bytes other n := by
  have hfirst : (bytes.take first).length = first := by
    rw [List.length_take]
    omega
  refine List.ext_getElem? fun i => ?_
  rw [range, range, List.getElem?_take, List.getElem?_take]
  split
  · rename_i hi
    rw [List.getElem?_drop, List.getElem?_drop, copyBytes]
    rcases hother with hbefore | hafter
    · rw [List.getElem?_append_left (by omega), List.getElem?_take, if_pos (by omega)]
    · rw [List.getElem?_append_right (by omega), hfirst,
        List.getElem?_append_right (by rw [length_toLeBytes]; omega), length_toLeBytes,
        List.getElem?_drop]
      congr 1
      omega
  · rfl

theorem range_whole (raw : Raw) :
    raw.val = range raw.val 0 1 ++ (range raw.val 1 4 ++ range raw.val 5 4) := by
  have hlast : (raw.val.drop 5).take 4 = raw.val.drop 5 := by
    refine List.take_of_length_le ?_
    rw [List.length_drop, raw.property]
  calc
    raw.val = raw.val.take 1 ++ raw.val.drop 1 := (List.take_append_drop 1 _).symm
    _ = raw.val.take 1 ++ ((raw.val.drop 1).take 4 ++ (raw.val.drop 1).drop 4) := by
      rw [List.take_append_drop 4]
    _ = _ := by rw [List.drop_drop, range, range, range, hlast, List.drop_zero]

/-- The enable byte and the two identifiers are all nine bytes. -/
theorem raw_ext {a b : Raw} (henable : range a.val 0 1 = range b.val 0 1)
    (hcurve : range a.val 1 4 = range b.val 1 4) (halgorithm : range a.val 5 4 = range b.val 5 4) :
    a = b := by
  apply Subtype.ext
  rw [range_whole a, range_whole b, henable, hcurve, halgorithm]

structure Sm2Patch where
  curveId : Option Int32
  algorithmId : Option Int32
  deriving DecidableEq, Repr

def Raw.copy (raw : Raw) (first : Nat) (h : first + 4 ≤ 9) : Option Int32 → Raw
  | some id => ⟨copyBytes raw.val first id, by rw [length_copyBytes id (by rw [raw.property]; exact h), raw.property]⟩
  | none => raw

def Sm2Patch.apply (patch : Sm2Patch) (raw : Raw) : Raw :=
  (raw.copy 1 (by decide) patch.curveId).copy 5 (by decide) patch.algorithmId

section Patch

variable {raw : Raw} {first : Nat} {id : Option Int32} {patch : Sm2Patch}

theorem Raw.range_copy_self (h : first + 4 ≤ 9) :
    range (raw.copy first h id).val first 4 = (id.map toLeBytes).getD (range raw.val first 4) := by
  cases id with
  | none => rfl
  | some id => exact range_copyBytes_self id (by rw [raw.property]; omega)

theorem Raw.range_copy_other {other n : Nat} (h : first + 4 ≤ 9)
    (hother : other + n ≤ first ∨ first + 4 ≤ other) :
    range (raw.copy first h id).val other n = range raw.val other n := by
  cases id with
  | none => rfl
  | some id => exact range_copyBytes_other id (by rw [raw.property]; exact h) hother

theorem Sm2Patch.range_enable : range (patch.apply raw).val 0 1 = range raw.val 0 1 := by
  rw [Sm2Patch.apply, Raw.range_copy_other _ (.inl (by decide)), Raw.range_copy_other _ (.inl (by decide))]

theorem Sm2Patch.range_curve : range (patch.apply raw).val 1 4 =
    (patch.curveId.map toLeBytes).getD (range raw.val 1 4) := by
  rw [Sm2Patch.apply, Raw.range_copy_other _ (.inl (by decide)), Raw.range_copy_self]

theorem Sm2Patch.range_algorithm : range (patch.apply raw).val 5 4 =
    (patch.algorithmId.map toLeBytes).getD (range raw.val 5 4) := by
  rw [Sm2Patch.apply, Raw.range_copy_self, Raw.range_copy_other _ (.inr (by decide))]

/-- A patch changes nothing where it has been applied. -/
theorem Sm2Patch.apply_apply : patch.apply (patch.apply raw) = patch.apply raw := by
  have hset : ∀ (id : Option Int32) (bytes : Bytes),
      (id.map toLeBytes).getD ((id.map toLeBytes).getD bytes) = (id.map toLeBytes).getD bytes := by
    intro id bytes
    cases id <;> rfl
  refine raw_ext range_enable ?_ ?_
  · rw [range_curve, range_curve, hset]
  · rw [range_algorithm, range_algorithm, hset]

end Patch

/-- The configuration of legacy firmware, which `raw()` returns as it is. -/
structure LegacySm2Configuration where
  raw : Raw
  deriving DecidableEq, Repr

structure Sm2Configuration where
  curveId : Int32
  algorithmId : Int32
  deriving DecidableEq, Repr

inductive Value where
  | sm2Configuration (config : Sm2Configuration)
  | legacySm2Configuration (config : LegacySm2Configuration)
  | other

inductive Sm2Readout where
  | typed (config : Sm2Configuration)
  | legacy (config : LegacySm2Configuration)
  deriving DecidableEq, Repr

structure Pin where
  bytes : Bytes
  deriving DecidableEq, Repr

/-- What the session layer calls in libcanokey, for one device profile. -/
structure Crates where
  /-- The profile supports `Capability::AdminLegacySm2`. -/
  legacySm2 : Bool
  /-- `LegacySm2Configuration::enabled`. -/
  enabled : LegacySm2Configuration → Bool
  /-- `LegacySm2Configuration::from_bytes`. -/
  fromBytes : Bytes → Except Error LegacySm2Configuration
  /-- `Request::Sm2Configuration`. -/
  sm2Configuration : Option Pin → Except Error (Operation Value)
  /-- `Request::ConfigureSm2`. -/
  configureSm2 : Sm2Patch → Option Pin → Except Error (Operation Value)
  /-- `Request::WriteLegacySm2` in the existing selection. -/
  writeLegacySm2 : LegacySm2Configuration → Except Error (Operation Value)

section Program

variable (crates : Crates)

/-- Active WebAuthn SM2 algorithm ID, or nothing when legacy SM2 is disabled. -/
def Sm2Readout.algorithmId : Sm2Readout → Option Int32
  | .typed config => some config.algorithmId
  | .legacy config =>
    if crates.enabled config then some (fromLeBytes (range config.raw.val 5 4)) else none

def unexpectedValue : DriveError E := .protocol ((Error.new .invalidResponse).at .parsing)

/-- `?` on an operation of libcanokey, and `execute`. -/
def run (operation : Except Error (Operation T)) : Fallible (Piv.Answer E) (DriveError E) T := do
  let operation ← orThrow (operation.mapError .protocol)
  execute operation

def sm2Configuration (pin : Option Pin) : Fallible (Piv.Answer E) (DriveError E) Sm2Readout := do
  let value ← run (crates.sm2Configuration pin)
  match value with
  | .sm2Configuration config => pure (.typed config)
  | .legacySm2Configuration config => pure (.legacy config)
  | .other => throw unexpectedValue

/-- Read and patch the CTAP SM2 identifiers, preserving unspecified identifiers
and skipping unchanged writes. -/
def configureSm2 (patch : Sm2Patch) (pin : Option Pin) : Fallible (Piv.Answer E) (DriveError E) Unit :=
  if crates.legacySm2 then do
    let readout ← sm2Configuration crates pin
    match readout with
    | .typed _ => throw unexpectedValue
    | .legacy current =>
      let raw := patch.apply current.raw
      if raw ≠ current.raw then do
        let config ← orThrow ((crates.fromBytes raw.val).mapError .protocol)
        let _ ← run (crates.writeLegacySm2 config)
        pure ()
      else pure ()
  else do
    let _ ← run (crates.configureSm2 patch pin)
    pure ()

end Program

def writeCommand (raw : Raw) : Bytes := [0, 0x12, 0, 0, 9] ++ raw.val ++ [0]

def isWrite (command : Bytes) : Bool := command.getD 1 0 = 0x12

/-- The documented behaviour of libcanokey on a device; `view` is the
configuration that the card stores. -/
structure Documented (crates : Crates) (device : Device E σ) (view : σ → Raw) : Prop where
  /-- The nine bytes are not interpreted. -/
  fromBytes : ∀ raw : Raw, crates.fromBytes raw.val = .ok ⟨raw⟩
  /-- Reading leaves the configuration alone and returns it. -/
  read : ∀ pin op, crates.sm2Configuration pin = .ok op → ∀ w o u,
    Fallible.Runs (environment device) (execute op) w o u → view u.card = view w.card ∧
      ∀ config, o = some (.ok (.legacySm2Configuration config)) → config.raw = view w.card
  read_only : ∀ pin op, crates.sm2Configuration pin = .ok op → op.Only (fun command => isWrite command = false)
  /-- Writing is one command, which is applied or not, and applied on success. -/
  write : ∀ config, ∃ advance, crates.writeLegacySm2 config = .ok (.exchange (writeCommand config.raw) advance) ∧
    ∀ response, ∃ result, advance response = .complete result
  write_applied : ∀ config op, crates.writeLegacySm2 config = .ok op → ∀ w o u,
    Fallible.Runs (environment device) (execute op) w o u →
      view u.card = config.raw ∨ (view u.card = view w.card ∧ ∀ value, o ≠ some (.ok value))

section Runs

variable {crates : Crates} {device : Device E σ} {view : σ → Raw} {patch : Sm2Patch} {pin : Option Pin}
  {w u : World σ}

def writes (sent : List Bytes) : List Bytes := sent.filter isWrite

theorem isWrite_writeCommand (raw : Raw) : isWrite (writeCommand raw) = true := rfl

theorem runs_run_iff {operation : Except Error (Operation T)} {o : Option (Except (DriveError E) T)} :
    Fallible.Runs (environment device) (run operation) w o u ↔
      (∃ e, operation = .error e ∧ o = some (.error (.protocol e)) ∧ u = w) ∨
      ∃ op, operation = .ok op ∧ Fallible.Runs (environment device) (execute op) w o u := by
  cases operation with
  | error e =>
    refine (Fallible.throw_iff (e := DriveError.protocol e)).trans ?_
    simp
  | ok op =>
    have hgo : Fallible.Runs (environment device) (run (.ok op)) w o u ↔
        Fallible.Runs (environment device) (execute op) w o u := Iff.rfl
    simp [hgo]

/-- A read sends no write, leaves the configuration alone and returns it. -/
theorem runs_sm2Configuration (hdoc : Documented crates device view)
    {o : Option (Except (DriveError E) Sm2Readout)}
    (h : Fallible.Runs (environment device) (sm2Configuration crates pin) w o u) :
    (∃ sent, u.log = w.log ++ sent ∧ writes sent = []) ∧ view u.card = view w.card ∧
      ∀ config, o = some (.ok (.legacy config)) → config.raw = view w.card := by
  have hrun : ∀ (o : Option (Except (DriveError E) Value)) (v : World σ),
      Fallible.Runs (environment device) (run (crates.sm2Configuration pin)) w o v →
      (∃ sent, v.log = w.log ++ sent ∧ writes sent = []) ∧ view v.card = view w.card ∧
        ∀ config, o = some (.ok (.legacySm2Configuration config)) → config.raw = view w.card := by
    intro o v hr
    rcases runs_run_iff.mp hr with ⟨e, -, rfl, rfl⟩ | ⟨op, hop, hr⟩
    · exact ⟨⟨[], by simp, rfl⟩, rfl, by simp⟩
    · obtain ⟨sent, hsent, honly⟩ := Piv.Runs.execute_log (hdoc.read_only pin op hop) hr
      obtain ⟨hkeeps, hvalue⟩ := hdoc.read pin op hop w o v hr
      refine ⟨⟨sent, hsent, List.filter_eq_nil_iff.mpr ?_⟩, hkeeps, hvalue⟩
      intro command hcommand
      rw [honly command hcommand]
      exact Bool.false_ne_true
  rcases Fallible.bind_iff.mp h with ⟨rfl, hr⟩ | ⟨e, rfl, hr⟩ | ⟨value, v, hr, hrest⟩
  · obtain ⟨hlog, hkeeps, -⟩ := hrun _ _ hr
    exact ⟨hlog, hkeeps, by simp⟩
  · obtain ⟨hlog, hkeeps, -⟩ := hrun _ _ hr
    exact ⟨hlog, hkeeps, by simp⟩
  · obtain ⟨hlog, hkeeps, hvalue⟩ := hrun _ _ hr
    cases value with
    | sm2Configuration config =>
      obtain ⟨rfl, rfl⟩ := Fallible.pure_iff.mp hrest
      exact ⟨hlog, hkeeps, by simp⟩
    | legacySm2Configuration config =>
      obtain ⟨rfl, rfl⟩ := Fallible.pure_iff.mp hrest
      refine ⟨hlog, hkeeps, ?_⟩
      intro config' hconfig
      cases hconfig
      exact hvalue config rfl
    | other =>
      obtain ⟨rfl, rfl⟩ := Fallible.throw_iff.mp hrest
      exact ⟨hlog, hkeeps, by simp⟩

/-- A write is stopped before its command, or sends it and returns. -/
theorem runs_write (hdoc : Documented crates device view) {config : LegacySm2Configuration}
    {o : Option (Except (DriveError E) Value)}
    (h : Fallible.Runs (environment device) (run (crates.writeLegacySm2 config)) w o u) :
    (o = none ∧ u = w) ∨ (o ≠ none ∧ u.log = w.log ++ [writeCommand config.raw] ∧
      (view u.card = config.raw ∨ (view u.card = view w.card ∧ ∀ value, o ≠ some (.ok value)))) := by
  obtain ⟨advance, hop, hadvance⟩ := hdoc.write config
  rcases runs_run_iff.mp h with ⟨e, he, -, -⟩ | ⟨op, hop', hr⟩
  · rw [hop] at he
    cases he
  · have happlied := hdoc.write_applied config op hop' w o u hr
    rw [hop] at hop'
    cases hop'
    rw [execute] at hr
    rcases Run.ask_iff.mp hr with ⟨rfl, rfl⟩ | ⟨response, v, ⟨-, hlog⟩, hrest⟩
    · exact .inl ⟨rfl, rfl⟩
    · rcases response with e | bytes
      · obtain ⟨rfl, rfl⟩ := Run.pure_iff.mp hrest
        exact .inr ⟨by simp, hlog, happlied⟩
      · obtain ⟨result, hresult⟩ := hadvance bytes
        dsimp only at hrest
        rw [hresult, execute] at hrest
        obtain ⟨rfl, rfl⟩ := Fallible.orThrow_iff.mp hrest
        exact .inr ⟨by simp, hlog, happlied⟩

variable (crates device patch pin w) in
/-- How a run of `configure_sm2` on a legacy card can end. -/
inductive Outcome : Option (Except (DriveError E) Unit) → World σ → Prop where
  | interrupted {u : World σ}
      (hread : Fallible.Runs (environment device) (sm2Configuration crates pin) w none u) : Outcome none u
  | unread {e : DriveError E} {u : World σ}
      (hread : Fallible.Runs (environment device) (sm2Configuration crates pin) w (some (.error e)) u) :
      Outcome (some (.error e)) u
  | typed {config : Sm2Configuration} {u : World σ}
      (hread : Fallible.Runs (environment device) (sm2Configuration crates pin) w (some (.ok (.typed config))) u) :
      Outcome (some (.error unexpectedValue)) u
  | unchanged {config : LegacySm2Configuration} {u : World σ}
      (hread : Fallible.Runs (environment device) (sm2Configuration crates pin) w (some (.ok (.legacy config))) u)
      (hsame : patch.apply config.raw = config.raw) : Outcome (some (.ok ())) u
  | stopped {config : LegacySm2Configuration} {u : World σ}
      (hread : Fallible.Runs (environment device) (sm2Configuration crates pin) w (some (.ok (.legacy config))) u)
      (hchanged : patch.apply config.raw ≠ config.raw) : Outcome none u
  | written {config : LegacySm2Configuration} {v u : World σ} {r : Except (DriveError E) Value}
      (hread : Fallible.Runs (environment device) (sm2Configuration crates pin) w (some (.ok (.legacy config))) v)
      (hchanged : patch.apply config.raw ≠ config.raw)
      (hlog : u.log = v.log ++ [writeCommand (patch.apply config.raw)])
      (hwrite : Fallible.Runs (environment device)
        (run (crates.writeLegacySm2 ⟨patch.apply config.raw⟩)) v (some r) u) :
      Outcome (some (r.map fun _ => ())) u

theorem outcome (hdoc : Documented crates device view) (hlegacy : crates.legacySm2 = true)
    {o : Option (Except (DriveError E) Unit)}
    (h : Fallible.Runs (environment device) (configureSm2 crates patch pin) w o u) :
    Outcome crates device patch pin w o u := by
  rw [configureSm2, if_pos hlegacy] at h
  rcases Fallible.bind_iff.mp h with ⟨rfl, hr⟩ | ⟨e, rfl, hr⟩ | ⟨readout, v, hr, hrest⟩
  · exact .interrupted hr
  · exact .unread hr
  cases readout with
  | typed config =>
    obtain ⟨rfl, rfl⟩ := Fallible.throw_iff.mp hrest
    exact .typed hr
  | legacy config =>
    dsimp only at hrest
    split at hrest
    · rename_i hchanged
      rw [hdoc.fromBytes] at hrest
      have hwrite : Fallible.Runs (environment device)
          (run (crates.writeLegacySm2 ⟨patch.apply config.raw⟩) >>= fun _ => pure ()) v o u := hrest
      rcases Fallible.bind_iff.mp hwrite with ⟨rfl, hw⟩ | ⟨e, rfl, hw⟩ | ⟨value, x, hw, hdone⟩
      · rcases runs_write hdoc hw with ⟨-, rfl⟩ | ⟨hsome, -⟩
        · exact .stopped hr hchanged
        · exact absurd rfl hsome
      · rcases runs_write hdoc hw with ⟨hnone, -⟩ | ⟨-, hlog, -⟩
        · cases hnone
        · exact .written hr hchanged hlog hw
      · obtain ⟨rfl, rfl⟩ := Fallible.pure_iff.mp hdone
        rcases runs_write hdoc hw with ⟨hnone, -⟩ | ⟨-, hlog, -⟩
        · cases hnone
        · exact .written hr hchanged hlog hw
    · rename_i hsame
      obtain ⟨rfl, rfl⟩ := Fallible.pure_iff.mp hrest
      exact .unchanged hr (not_not.mp hsame)

def curveId (raw : Raw) : Int32 := fromLeBytes (range raw.val 1 4)

def algorithmId (raw : Raw) : Int32 := fromLeBytes (range raw.val 5 4)

/-- What the patch does not mention is as it was. -/
def Kept (patch : Sm2Patch) (before after : Raw) : Prop :=
  range after.val 0 1 = range before.val 0 1 ∧
    (patch.curveId = none → range after.val 1 4 = range before.val 1 4) ∧
    (patch.algorithmId = none → range after.val 5 4 = range before.val 5 4)

theorem kept_apply (patch : Sm2Patch) (raw : Raw) : Kept patch raw (patch.apply raw) := by
  refine ⟨Sm2Patch.range_enable, ?_, ?_⟩
  · intro hnone
    rw [Sm2Patch.range_curve, hnone]
    rfl
  · intro hnone
    rw [Sm2Patch.range_algorithm, hnone]
    rfl

theorem curveId_apply {raw : Raw} {id : Int32} (h : patch.curveId = some id) :
    curveId (patch.apply raw) = id := by
  rw [curveId, Sm2Patch.range_curve, h, Option.map_some, Option.getD_some, fromLeBytes_toLeBytes]

theorem algorithmId_apply {raw : Raw} {id : Int32} (h : patch.algorithmId = some id) :
    algorithmId (patch.apply raw) = id := by
  rw [algorithmId, Sm2Patch.range_algorithm, h, Option.map_some, Option.getD_some, fromLeBytes_toLeBytes]

/-- The configuration after a run is the old one or the patched one, and the
patched one if the run succeeds. -/
theorem Outcome.stored (hdoc : Documented crates device view)
    {o : Option (Except (DriveError E) Unit)} (h : Outcome crates device patch pin w o u) :
    (view u.card = patch.apply (view w.card)) ∨ (view u.card = view w.card ∧ o ≠ some (.ok ())) := by
  cases h with
  | interrupted hread => exact .inr ⟨(runs_sm2Configuration hdoc hread).2.1, by simp⟩
  | unread hread => exact .inr ⟨(runs_sm2Configuration hdoc hread).2.1, by simp⟩
  | typed hread => exact .inr ⟨(runs_sm2Configuration hdoc hread).2.1, by simp⟩
  | unchanged hread hsame =>
    obtain ⟨-, hkeeps, hvalue⟩ := runs_sm2Configuration hdoc hread
    rw [hvalue _ rfl] at hsame
    exact .inl (by rw [hkeeps, hsame])
  | stopped hread => exact .inr ⟨(runs_sm2Configuration hdoc hread).2.1, by simp⟩
  | @written config v u r hread hchanged hlog hwrite =>
    obtain ⟨-, hkeeps, hvalue⟩ := runs_sm2Configuration hdoc hread
    rcases runs_write hdoc hwrite with ⟨hnone, -⟩ | ⟨-, -, happlied⟩
    · cases hnone
    · rw [hvalue _ rfl, hkeeps] at happlied
      refine happlied.imp_right fun hkept => ⟨hkept.1, ?_⟩
      cases r with
      | error e => simp [Except.map]
      | ok value => exact absurd rfl (hkept.2 value)

/-- The read ended without a legacy configuration, and so did the run. -/
def Unread (crates : Crates) (device : Device E σ) (pin : Option Pin) (w : World σ)
    (o : Option (Except (DriveError E) Unit)) (u : World σ) : Prop :=
  (∃ e, Fallible.Runs (environment device) (sm2Configuration crates pin) w (some (.error e)) u ∧
      o = some (.error e)) ∨
    ∃ config, Fallible.Runs (environment device) (sm2Configuration crates pin) w
      (some (.ok (.typed config))) u ∧ o = some (.error unexpectedValue)

/-- The writes of a run: none, or the patched configuration after a legacy read
that it changes. Without a stop, a change that is not written was not read. -/
theorem Outcome.sends (hdoc : Documented crates device view)
    {o : Option (Except (DriveError E) Unit)} (h : Outcome crates device patch pin w o u) :
    ∃ sent, u.log = w.log ++ sent ∧
      ((writes sent = [] ∧ (o = none ∨ patch.apply (view w.card) = view w.card ∨
          Unread crates device pin w o u)) ∨
        (writes sent = [writeCommand (patch.apply (view w.card))] ∧
          patch.apply (view w.card) ≠ view w.card ∧
          ∃ config v, Fallible.Runs (environment device) (sm2Configuration crates pin) w
              (some (.ok (.legacy config))) v ∧
            u.log = v.log ++ [writeCommand (patch.apply (view w.card))])) := by
  cases h with
  | interrupted hread =>
    obtain ⟨⟨sent, hsent, hnone⟩, -⟩ := runs_sm2Configuration hdoc hread
    exact ⟨sent, hsent, .inl ⟨hnone, .inl rfl⟩⟩
  | unread hread =>
    obtain ⟨⟨sent, hsent, hnone⟩, -⟩ := runs_sm2Configuration hdoc hread
    exact ⟨sent, hsent, .inl ⟨hnone, .inr (.inr (.inl ⟨_, hread, rfl⟩))⟩⟩
  | typed hread =>
    obtain ⟨⟨sent, hsent, hnone⟩, -⟩ := runs_sm2Configuration hdoc hread
    exact ⟨sent, hsent, .inl ⟨hnone, .inr (.inr (.inr ⟨_, hread, rfl⟩))⟩⟩
  | unchanged hread hsame =>
    obtain ⟨⟨sent, hsent, hnone⟩, -, hvalue⟩ := runs_sm2Configuration hdoc hread
    rw [hvalue _ rfl] at hsame
    exact ⟨sent, hsent, .inl ⟨hnone, .inr (.inl hsame)⟩⟩
  | stopped hread =>
    obtain ⟨⟨sent, hsent, hnone⟩, -⟩ := runs_sm2Configuration hdoc hread
    exact ⟨sent, hsent, .inl ⟨hnone, .inl rfl⟩⟩
  | written hread hchanged hlog hwrite =>
    obtain ⟨⟨sent, hsent, hnone⟩, -, hvalue⟩ := runs_sm2Configuration hdoc hread
    rw [hvalue _ rfl] at hchanged hlog
    refine ⟨sent ++ [writeCommand (patch.apply (view w.card))], ?_, .inr ⟨?_, hchanged, _, _, hread, hlog⟩⟩
    · rw [hlog, hsent, List.append_assoc]
    · rw [writes, List.filter_append, ← writes, hnone, List.nil_append]
      exact List.filter_cons_of_pos (isWrite_writeCommand _)

/-- What a run of `configure_sm2` on a legacy card guarantees. -/
structure Configures (crates : Crates) (device : Device E σ) (view : σ → Raw) (patch : Sm2Patch)
    (pin : Option Pin) (w : World σ) (o : Option (Except (DriveError E) Unit)) (u : World σ) : Prop where
  ends : Outcome crates device patch pin w o u
  kept : Kept patch (view w.card) (view u.card)
  readsBack : o = some (.ok ()) →
    (∀ id, patch.curveId = some id → curveId (view u.card) = id) ∧
    (∀ id, patch.algorithmId = some id → algorithmId (view u.card) = id ∧
      (crates.enabled ⟨view u.card⟩ = true →
        Sm2Readout.algorithmId crates (.legacy ⟨view u.card⟩) = some id))
  sends : ∃ sent, u.log = w.log ++ sent ∧
    (writes sent = [] ∨ writes sent = [writeCommand (patch.apply (view w.card))]) ∧
    (writes sent ≠ [] → patch.apply (view w.card) ≠ view w.card ∧
      ∃ config v, Fallible.Runs (environment device) (sm2Configuration crates pin) w
          (some (.ok (.legacy config))) v ∧
        u.log = v.log ++ [writeCommand (patch.apply (view w.card))]) ∧
    (patch.apply (view w.card) ≠ view w.card → o ≠ none →
      writes sent ≠ [] ∨ Unread crates device pin w o u)
  again : o = some (.ok ()) → ∀ o' u',
    Fallible.Runs (environment device) (configureSm2 crates patch pin) u o' u' →
      view u'.card = view u.card ∧ ∃ sent, u'.log = u.log ++ sent ∧ writes sent = []

/-- `configure_sm2` patches the configuration of a legacy card: it keeps what
the patch leaves out, sets what it mentions, and writes exactly the changes. -/
theorem configureSm2_legacy (hdoc : Documented crates device view) (hlegacy : crates.legacySm2 = true)
    {o : Option (Except (DriveError E) Unit)}
    (h : Fallible.Runs (environment device) (configureSm2 crates patch pin) w o u) :
    Configures crates device view patch pin w o u := by
  have hout := outcome hdoc hlegacy h
  have hdone : o = some (.ok ()) → view u.card = patch.apply (view w.card) := by
    intro hok
    rcases hout.stored hdoc with hpatched | ⟨-, hnot⟩
    · exact hpatched
    · exact absurd hok hnot
  refine ⟨hout, ?_, ?_, ?_, ?_⟩
  · rcases hout.stored hdoc with hpatched | ⟨hsame, -⟩
    · rw [hpatched]
      exact kept_apply patch _
    · rw [hsame]
      exact ⟨rfl, fun _ => rfl, fun _ => rfl⟩
  · intro hok
    rw [hdone hok]
    refine ⟨fun id hid => curveId_apply hid, fun id hid => ⟨algorithmId_apply hid, ?_⟩⟩
    intro henabled
    rw [Sm2Readout.algorithmId, if_pos henabled]
    exact congrArg some (algorithmId_apply hid)
  · obtain ⟨sent, hsent, ⟨hnone, hwhy⟩ | ⟨hone, hchanged, hread⟩⟩ := hout.sends hdoc
    · refine ⟨sent, hsent, .inl hnone, fun hsome => absurd hnone hsome, ?_⟩
      intro hchanged hended
      rcases hwhy with hstopped | hsame | hread
      · exact absurd hstopped hended
      · exact absurd hsame hchanged
      · exact .inr hread
    · have hsome : writes sent ≠ [] := by
        rw [hone]
        exact List.cons_ne_nil _ _
      exact ⟨sent, hsent, .inr hone, fun _ => ⟨hchanged, hread⟩, fun _ _ => .inl hsome⟩
  · intro hok o' u' hagain
    have hout' := outcome hdoc hlegacy hagain
    have hfixed : patch.apply (view u.card) = view u.card := by
      rw [hdone hok, Sm2Patch.apply_apply]
    refine ⟨?_, ?_⟩
    · rcases hout'.stored hdoc with hpatched | ⟨hsame, -⟩
      · rw [hpatched, hfixed]
      · exact hsame
    · obtain ⟨sent, hsent, ⟨hnone, -⟩ | ⟨-, hchanged, -⟩⟩ := hout'.sends hdoc
      · exact ⟨sent, hsent, hnone⟩
      · exact absurd hfixed hchanged

end Runs

namespace Fixture

def select : Bytes := [0, 0xa4, 4, 0, 5, 0xf0, 0, 0, 0, 0, 0]

def verify (pin : Pin) : Bytes := [0, 0x20, 0, 0, UInt8.ofNat pin.bytes.length] ++ pin.bytes ++ [0]

def readCommand : Bytes := [0, 0x11, 0, 0, 0]

def success : Bytes := [0x90, 0]

/-- The card accepts every PIN. -/
def reply (card : Raw) (command : Bytes) : Bytes × Raw :=
  if isWrite command then
    if h : ((command.drop 5).take 9).length = 9 then (success, ⟨(command.drop 5).take 9, h⟩)
    else ([0x67, 0], card)
  else if command = readCommand then (card.val ++ success, card)
  else (success, card)

def device : Device Unit Raw := fun card command response card' =>
  response = .ok (reply card command).1 ∧ card' = (reply card command).2

def failed : Operation T := .complete (.error (.new .invalidResponse))

def parseRead (response : Bytes) : Operation Value :=
  if h : (response.take 9).length = 9 ∧ response.drop 9 = success then
    .complete (.ok (.legacySm2Configuration ⟨⟨response.take 9, h.1⟩⟩))
  else failed

def acknowledged (command : Bytes) (next : Operation T) : Operation T :=
  .exchange command fun response => if response = success then next else failed

def crates : Crates where
  legacySm2 := true
  enabled config := config.raw.val.head? ≠ some 0
  fromBytes bytes := if h : bytes.length = 9 then .ok ⟨⟨bytes, h⟩⟩ else .error (.new .invalidArgument)
  sm2Configuration
    | none => .error (.new .securityStatusNotSatisfied)
    | some pin => .ok (acknowledged select (acknowledged (verify pin) (.exchange readCommand parseRead)))
  configureSm2 _ _ := .error (.new .unsupportedFeature)
  writeLegacySm2 config := .ok (.exchange (writeCommand config.raw) fun response =>
    .complete (if response = success then .ok .other else .error (.new .invalidResponse)))

theorem execute_exchange_iff {command : Bytes} {advance : Bytes → Operation T} {w u : World Raw}
    {o : Option (Except (DriveError Unit) T)} :
    Fallible.Runs (environment device) (execute (.exchange command advance)) w o u ↔
      (o = none ∧ u = w) ∨ Fallible.Runs (environment device) (execute (advance (reply w.card command).1))
        ⟨(reply w.card command).2, w.log ++ [command]⟩ o u := by
  rw [execute]
  refine Run.ask_iff.trans (or_congr_right ?_)
  constructor
  · rintro ⟨response, v, ⟨⟨rfl, hcard⟩, hlog⟩, h⟩
    obtain ⟨card, log⟩ := v
    obtain rfl : card = _ := hcard
    obtain rfl : log = _ := hlog
    exact h
  · intro h
    exact ⟨.ok (reply w.card command).1, _, ⟨⟨rfl, rfl⟩, rfl⟩, h⟩

theorem execute_acknowledged_iff {command : Bytes} {next : Operation T} {w u : World Raw}
    {o : Option (Except (DriveError Unit) T)} (hreply : reply w.card command = (success, w.card)) :
    Fallible.Runs (environment device) (execute (acknowledged command next)) w o u ↔
      (o = none ∧ u = w) ∨
        Fallible.Runs (environment device) (execute next) ⟨w.card, w.log ++ [command]⟩ o u := by
  rw [acknowledged, execute_exchange_iff, hreply, if_pos rfl]

theorem reply_verify (card : Raw) (pin : Pin) : reply card (verify pin) = (success, card) := by
  have hwrite : isWrite (verify pin) = false := rfl
  rw [reply, hwrite, if_neg Bool.false_ne_true, if_neg (by simp [verify, readCommand])]

theorem parseRead_reply (card : Raw) :
    parseRead (reply card readCommand).1 = .complete (.ok (.legacySm2Configuration ⟨card⟩)) := by
  have htake : (card.val ++ success).take 9 = card.val := List.take_left' card.property
  have hdrop : (card.val ++ success).drop 9 = success := List.drop_left' card.property
  change parseRead (card.val ++ success) = _
  rw [parseRead, dif_pos ⟨by rw [htake, card.property], hdrop⟩]
  simp only [htake]

theorem reply_write (card raw : Raw) : reply card (writeCommand raw) = (success, raw) := by
  have hraw : ((writeCommand raw).drop 5).take 9 = raw.val := List.take_left' raw.property
  have hwrite : isWrite (writeCommand raw) = true := rfl
  rw [reply, if_pos hwrite, dif_pos (by rw [hraw, raw.property])]
  simp only [hraw]

theorem documented : Documented crates device id where
  fromBytes := by
    intro raw
    exact dif_pos raw.property
  read := by
    intro pin op hop w o u h
    cases pin with
    | none => cases hop
    | some pin =>
      cases hop
      rcases (execute_acknowledged_iff rfl).mp h with ⟨rfl, rfl⟩ | h
      · exact ⟨rfl, by simp⟩
      rcases (execute_acknowledged_iff (reply_verify _ pin)).mp h with ⟨rfl, rfl⟩ | h
      · exact ⟨rfl, by simp⟩
      rcases execute_exchange_iff.mp h with ⟨rfl, rfl⟩ | h
      · exact ⟨rfl, by simp⟩
      rw [parseRead_reply] at h
      obtain ⟨rfl, rfl⟩ := Fallible.orThrow_iff.mp h
      refine ⟨rfl, ?_⟩
      intro config hconfig
      cases hconfig
      rfl
  read_only := by
    intro pin op hop
    have hparse : ∀ response, (parseRead response).Only fun command => isWrite command = false := by
      intro response
      rw [parseRead]
      split <;> trivial
    have hack : ∀ command (next : Operation Value), isWrite command = false →
        (next.Only fun command => isWrite command = false) →
        (acknowledged command next).Only fun command => isWrite command = false := by
      intro command next hcommand hnext
      refine ⟨hcommand, fun response => ?_⟩
      dsimp only
      split
      · exact hnext
      · trivial
    cases pin with
    | none => cases hop
    | some pin =>
      cases hop
      exact hack _ _ rfl (hack _ _ rfl ⟨rfl, hparse⟩)
  write := by
    intro config
    exact ⟨_, rfl, fun response => ⟨_, rfl⟩⟩
  write_applied := by
    intro config op hop w o u h
    cases hop
    rcases execute_exchange_iff.mp h with ⟨rfl, rfl⟩ | h
    · exact .inr ⟨rfl, by simp⟩
    · rw [reply_write, if_pos rfl] at h
      obtain ⟨-, rfl⟩ := Fallible.orThrow_iff.mp h
      exact .inl rfl

/-- SM2 is enabled with the identifiers 9 and -54. -/
def card : Raw := ⟨[1, 9, 0, 0, 0, 0xca, 0xff, 0xff, 0xff], rfl⟩

def answer (_ : Unit) : (q : Piv.Request) → World Raw → Option (Piv.Answer Unit q × World Raw)
  | .exchange command, w => some (.ok (reply w.card command).1, ⟨(reply w.card command).2, w.log ++ [command]⟩)
  | .fill _, _ | .panicked, _ => none

theorem answer_environment (c : Unit) (q : Piv.Request) (w : World Raw) (r : Piv.Answer Unit q)
    (v : World Raw) (h : answer c q w = some (r, v)) : environment device q w r v := by
  cases q with
  | exchange command =>
    cases h
    exact ⟨⟨rfl, rfl⟩, rfl⟩
  | fill n => cases h
  | panicked => cases h

def patched : Option (Except (DriveError Unit) Unit) × World Raw :=
  follow answer [(), (), (), ()] (configureSm2 crates ⟨none, some (-48)⟩ (some ⟨[0x36, 0x35, 0x34, 0x33, 0x32, 0x31]⟩))
    ⟨card, []⟩

end Fixture

/-- The algorithm identifier is patched and the rest of the nine bytes kept. -/
theorem configureSm2_legacy_algorithm :
    Configures Fixture.crates Fixture.device id ⟨none, some (-48)⟩
        (some ⟨[0x36, 0x35, 0x34, 0x33, 0x32, 0x31]⟩) ⟨Fixture.card, []⟩ Fixture.patched.1 Fixture.patched.2 ∧
      Fixture.patched.1 = some (.ok ()) ∧
      Fixture.patched.2.card.val = [1, 9, 0, 0, 0, 0xd0, 0xff, 0xff, 0xff] ∧
      Fixture.patched.2.log = [Fixture.select, Fixture.verify ⟨[0x36, 0x35, 0x34, 0x33, 0x32, 0x31]⟩,
        Fixture.readCommand, [0, 0x12, 0, 0, 9, 1, 9, 0, 0, 0, 0xd0, 0xff, 0xff, 0xff, 0]] := by
  refine ⟨?_, by decide +kernel, by decide +kernel, by decide +kernel⟩
  exact configureSm2_legacy Fixture.documented rfl (run_follow Fixture.answer_environment _ _ _)

end Sm2
