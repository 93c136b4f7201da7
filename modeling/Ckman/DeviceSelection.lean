import Ckman.BigEndian
import Ckman.Host
import Ckman.InteractionTrace
import Mathlib.Data.List.Infix
import Mathlib.Data.List.Perm.Basic

/-!
# Selecting a device

A command works on one CanoKey. It is selected among the attached readers by
the name of its reader, by its serial number, or by being the only one.
-/
namespace DeviceSelection

open Host
open Interaction

/-- The `pcsc::Error` variants that the code tells apart. -/
inductive PcscError where
  | noSmartcard
  | noReadersAvailable
  | other (code : UInt32)
  deriving DecidableEq, Repr

def PcscError.isNoSmartcard (error : PcscError) : Bool := error = .noSmartcard

structure Reader where
  name : Bytes
  deriving DecidableEq, Repr

/-- `Reader::name`. -/
def Reader.displayName (reader : Reader) : List Char :=
  (Text.fromUtf8 reader.name).getD "<invalid reader name>".toList

structure PcscConnection where
  card : Nat
  reader : List Char
  atr : Bytes
  deriving DecidableEq, Repr

/-- `u8::to_ascii_lowercase`. -/
def toAsciiLowercase (byte : UInt8) : UInt8 := if 65 ≤ byte ∧ byte ≤ 90 then byte + 32 else byte

def PcscConnection.isCanokey (connection : PcscConnection) : Bool :=
  "canokey".toList <:+: connection.reader.map Char.toLower ||
    [0x63, 0x61, 0x6e, 0x6f, 0x6b, 0x65, 0x79] <:+: connection.atr.map toAsciiLowercase

structure DeviceProfile where
  serial : Option Bytes
  deriving DecidableEq, Repr

structure Target where
  connection : PcscConnection
  profile : DeviceProfile
  deriving DecidableEq, Repr

/-- A serial number that is not four bytes long counts as none. -/
def Target.serial (target : Target) : Option UInt32 := do
  let bytes ← target.profile.serial
  if bytes.length = 4 then some (UInt32.ofNat (BigEndian.decode bytes)) else none

inductive Request where
  | listReaders
  | connect (name : Bytes)
  | status (card : Nat)
  /-- The exchanges of `probe`. -/
  | probe (card : Nat)
  deriving DecidableEq, Repr

/-- An error of `probe` is the text that `describe_drive_error` gives it. -/
abbrev Request.Answer : Request → Type
  | .listReaders => Except PcscError (List Bytes)
  | .connect _ => Except PcscError Nat
  | .status _ => Except PcscError Bytes
  | .probe _ => Except (List Char) DeviceProfile

/-- The errors of a selection. A message that is formatted from values is kept
as these values. -/
inductive CliError where
  | text (message : String)
  | pcsc (error : PcscError)
  /-- `no such reader: {name}` -/
  | noSuchReader (name : List Char)
  /-- `multiple readers match {name}; use a more specific --reader` -/
  | multipleReaders (name : List Char)
  /-- `cannot connect to reader {reader}: {error}` -/
  | cannotConnect (reader : List Char) (error : PcscError)
  /-- `no CanoKey found in reader {reader}` -/
  | noCanokeyIn (reader : List Char)
  /-- `cannot probe CanoKey in reader {reader}: {error}` -/
  | cannotProbe (reader : List Char) (error : List Char)
  /-- `cannot determine whether reader {reader} contains another CanoKey: {error}; select a reader
  explicitly with --reader` -/
  | cannotDetermine (reader : List Char) (error : PcscError)
  /-- `cannot probe CanoKey in reader {reader}: {error}; select a reader explicitly with --reader` -/
  | cannotProbeCandidate (reader : List Char) (error : List Char)
  /-- `no CanoKey with serial number {serial} found` -/
  | noSerial (serial : UInt32)
  /-- `multiple CanoKeys have serial number {serial}; select one with --reader` -/
  | multipleSerials (serial : UInt32)
  deriving DecidableEq, Repr

abbrev Selecting (ε α : Type) : Type := Fallible Request.Answer ε α

def ask {ε α : Type} (q : Request) (convert : q.Answer → Except ε α) : Selecting ε α :=
  attempt (.ask q fun answer => .pure (convert answer))

/-- `Pcsc::readers`. No reader at all is an empty list. -/
def readers : Selecting PcscError (List Reader) :=
  ask .listReaders fun
    | .ok names => .ok (names.map Reader.mk)
    | .error .noReadersAvailable => .ok []
    | .error error => .error error

/-- `Pcsc::connect`. -/
def connect (reader : Reader) : Selecting PcscError PcscConnection := do
  let card ← ask (.connect reader.name) id
  let atr ← ask (.status card) id
  pure ⟨card, reader.displayName, atr⟩

def probe (connection : PcscConnection) : Selecting (List Char) DeviceProfile := ask (.probe connection.card) id

/-- Reader selection matching: case-insensitive substring. `lowercase` is
`str::to_lowercase`. -/
def readerMatches (lowercase : List Char → List Char) (readerName filter : List Char) : Bool :=
  lowercase filter <:+: lowercase readerName

/-- Probe an explicitly selected reader without hiding connection failures. -/
def probeReader (reader : Reader) : Selecting CliError Target := do
  let connection ← mapError (.cannotConnect reader.displayName) (connect reader)
  if ¬ connection.isCanokey then throw (.noCanokeyIn reader.displayName)
  let profile ← mapError (.cannotProbe reader.displayName) (probe connection)
  pure ⟨connection, profile⟩

def onlyMatch {α : Type} (items : List α) (missing ambiguous : CliError) : Except CliError α := do
  let first ← okOr items.head? missing
  refuse (items.tail ≠ []) ambiguous
  pure first

/-- Selection must account for every candidate, unlike best-effort listing. -/
def selectionTargets {α β : Type} (candidates : List α) (probe : α → Selecting CliError (Option β)) :
    Selecting CliError (List β) :=
  candidates.foldlM (fun targets candidate => do
    match ← probe candidate with
    | some target => pure (targets ++ [target])
    | none => pure targets) []

/-- The closure of `single_target`: an empty reader and a card that is no
CanoKey are passed over, any other failure ends the selection. -/
def probeCandidate (reader : Reader) : Selecting CliError (Option Target) := do
  let connection : Except PcscError PcscConnection ← Prog.bind (connect reader) fun r => .pure (.ok r)
  match connection with
  | .error error =>
    if error.isNoSmartcard then pure none else throw (.cannotDetermine reader.displayName error)
  | .ok connection =>
    if ¬ connection.isCanokey then pure none
    else do
      let profile ← mapError (.cannotProbeCandidate reader.displayName) (probe connection)
      pure (some ⟨connection, profile⟩)

/-- The single CanoKey selected by `--reader` or `--device`, or the only one
attached when no filter is given. -/
def singleTarget (lowercase : List Char → List Char) (device : Option UInt32) (readerName : Option (List Char)) :
    Selecting CliError Target := do
  match readerName with
  | some name =>
    let attached ← mapError .pcsc readers
    let reader ← orThrow (onlyMatch (attached.filter fun reader => readerMatches lowercase reader.displayName name)
      (.noSuchReader name) (.multipleReaders name))
    probeReader reader
  | none =>
    let attached ← mapError .pcsc readers
    let targets ← selectionTargets attached probeCandidate
    match device with
    | some serial =>
      orThrow (onlyMatch (targets.filter fun target => target.serial = some serial)
        (.noSerial serial) (.multipleSerials serial))
    | none =>
      match targets with
      | [] => throw (.text "no CanoKey found")
      | [target] => pure target
      | _ => throw (.text "multiple CanoKeys found; use --device or --reader to select one")

structure World where
  listReaders : Except PcscError (List Bytes)
  connect : Bytes → Except PcscError Nat
  status : Nat → Except PcscError Bytes
  probe : Nat → Except (List Char) DeviceProfile

namespace World

def answer (w : World) : (q : Request) → q.Answer
  | .listReaders => w.listReaders
  | .connect name => w.connect name
  | .status card => w.status card
  | .probe card => w.probe card

def withReaders (w : World) (names : List Bytes) : World := { w with listReaders := .ok names }

def attached (w : World) : Except PcscError (List Reader) := Prog.eval w.answer readers

def connection (w : World) (reader : Reader) : Except PcscError PcscConnection :=
  Prog.eval w.answer (DeviceSelection.connect reader)

end World

inductive Found where
  /-- No card, or a card that is no CanoKey. -/
  | nothing
  /-- The connection or the probe failed. -/
  | uncertain
  | canokey (target : Target)
  deriving DecidableEq, Repr

def Found.target : Found → Option Target
  | .canokey target => some target
  | _ => none

def found (w : World) (reader : Reader) : Found :=
  match w.connection reader with
  | .error error => if error = .noSmartcard then .nothing else .uncertain
  | .ok connection =>
    if ¬ connection.isCanokey then .nothing
    else
      match w.probe connection.card with
      | .error _ => .uncertain
      | .ok profile => .canokey ⟨connection, profile⟩

/-- A device passes the filter when its serial number is the one asked for. -/
def passes (device : Option UInt32) (target : Target) : Bool :=
  match device with
  | none => true
  | some serial => target.serial = some serial

def selected (lowercase : List Char → List Char) (w : World) (device : Option UInt32)
    (readerName : Option (List Char)) : Except CliError Target :=
  Prog.eval w.answer (singleTarget lowercase device readerName)

def requested (lowercase : List Char → List Char) (w : World) (device : Option UInt32)
    (readerName : Option (List Char)) : List Request :=
  Prog.requests w.answer (singleTarget lowercase device readerName)

section Evaluation

variable {w : World} {reader : Reader} {target : Target}

theorem onlyMatch_eq_ok_iff {α : Type} {items : List α} {missing ambiguous : CliError} {a : α} :
    onlyMatch items missing ambiguous = .ok a ↔ items = [a] := by
  match items with
  | [] => simp [onlyMatch, okOr]
  | [b] => simp [onlyMatch, okOr, refuse]
  | b :: c :: rest => simp [onlyMatch, okOr, refuse]

@[simp] theorem eval_connect : Prog.eval w.answer (DeviceSelection.connect reader) = w.connection reader := rfl

@[simp] theorem eval_probe (connection : PcscConnection) :
    Prog.eval w.answer (probe connection) = w.probe connection.card := rfl

theorem connection_eq (w : World) (reader : Reader) :
    w.connection reader = w.connect reader.name >>= fun card =>
      w.status card >>= fun atr => .ok ⟨card, reader.displayName, atr⟩ := by
  rw [World.connection, DeviceSelection.connect, Fallible.eval_bind]
  refine congrArg (w.connect reader.name >>= ·) (funext fun card => ?_)
  rw [Fallible.eval_bind]
  rfl

@[simp] theorem found_withReaders (names : List Bytes) : found (w.withReaders names) reader = found w reader := by
  rw [found, found, connection_eq, connection_eq]
  rfl

/-- The selected reader gives its CanoKey, and nothing else is returned. -/
theorem eval_probeReader : Prog.eval w.answer (probeReader reader) = .ok target ↔ found w reader = .canokey target := by
  rw [probeReader, found, Fallible.eval_bind, Fallible.eval_mapError, eval_connect]
  cases w.connection reader with
  | error error => by_cases h : error = .noSmartcard <;> simp [Except.mapError, h]
  | ok connection =>
    simp only [Except.mapError, Except.ok_bind]
    cases connection.isCanokey with
    | false => simp [Fallible.eval_bind]
    | true =>
      simp only [not_true_eq_false, if_false, Fallible.eval_bind, Fallible.eval_mapError, eval_probe]
      cases w.probe connection.card <;> simp [Except.mapError]

theorem eval_caught : Prog.eval w.answer (Prog.bind (DeviceSelection.connect reader) fun r => .pure (.ok r) :
    Selecting CliError (Except PcscError PcscConnection)) = .ok (w.connection reader) := Prog.eval_bind w.answer _ _

/-- A candidate is passed over or kept only where it is certain what it is. -/
theorem eval_probeCandidate {result : Option Target} :
    Prog.eval w.answer (probeCandidate reader) = .ok result ↔
      found w reader ≠ .uncertain ∧ (found w reader).target = result := by
  rw [probeCandidate, found, Fallible.eval_bind, eval_caught, Except.ok_bind]
  cases w.connection reader with
  | error error => by_cases h : error = .noSmartcard <;> simp [PcscError.isNoSmartcard, Found.target, h]
  | ok connection =>
    simp only
    cases connection.isCanokey with
    | false => simp [Found.target]
    | true =>
      simp only [not_true_eq_false, if_false, Fallible.eval_bind, Fallible.eval_mapError, eval_probe]
      cases w.probe connection.card <;> simp [Except.mapError, Found.target]

/-- Every candidate is accounted for: the loop returns only if each of them was
certain, and then all that were found, in order. -/
theorem eval_selectionTargets {α β : Type} {probe : α → Selecting CliError (Option β)} {certain : α → Prop}
    {value : α → Option β}
    (h : ∀ candidate result, Prog.eval w.answer (probe candidate) = .ok result ↔
      certain candidate ∧ value candidate = result)
    {candidates : List α} {targets : List β} :
    Prog.eval w.answer (selectionTargets candidates probe) = .ok targets ↔
      (∀ candidate ∈ candidates, certain candidate) ∧ candidates.filterMap value = targets := by
  rw [selectionTargets, Fallible.eval_foldlM_ok_iff (P := certain)
    (f := fun targets candidate => targets ++ (value candidate).toList)]
  · rw [List.filterMap_eq_flatMap_toList, List.flatMap_eq_foldl]
  · intro before candidate after
    rw [Fallible.eval_bind, Except.bind_eq_ok_iff]
    constructor
    · rintro ⟨result, hresult, hafter⟩
      obtain ⟨hcertain, rfl⟩ := (h candidate result).mp hresult
      refine ⟨hcertain, ?_⟩
      cases hvalue : value candidate <;> rw [hvalue] at hafter <;> cases hafter <;> simp
    · rintro ⟨hcertain, rfl⟩
      refine ⟨value candidate, (h candidate _).mpr ⟨hcertain, rfl⟩, ?_⟩
      cases value candidate <;> simp

end Evaluation

section Selected

variable {lowercase : List Char → List Char} {w : World} {device : Option UInt32} {name : List Char} {target : Target}

def canokeys (w : World) (attached : List Reader) : List Target :=
  attached.filterMap fun reader => (found w reader).target

def named (lowercase : List Char → List Char) (name : List Char) (attached : List Reader) : List Reader :=
  attached.filter fun reader => readerMatches lowercase reader.displayName name

@[simp] theorem canokeys_withReaders (names : List Bytes) (attached : List Reader) :
    canokeys (w.withReaders names) attached = canokeys w attached := by
  simp only [canokeys, found_withReaders]

theorem attached_eq_ok_iff {attached : List Reader} :
    Prog.eval w.answer (mapError CliError.pcsc readers) = .ok attached ↔ w.attached = .ok attached := by
  rw [Fallible.eval_mapError, World.attached]
  cases Prog.eval w.answer readers <;> simp [Except.mapError]

/-- Without a reader name, the only CanoKey that passes the filter, where no
reader is in doubt. -/
theorem selected_none_iff :
    selected lowercase w device none = .ok target ↔
      ∃ attached, w.attached = .ok attached ∧ (∀ reader ∈ attached, found w reader ≠ .uncertain) ∧
        (canokeys w attached).filter (passes device) = [target] := by
  have hlast : ∀ targets : List Target, Prog.eval w.answer (match device with
      | some serial =>
        orThrow (onlyMatch (targets.filter fun target => target.serial = some serial)
          (.noSerial serial) (.multipleSerials serial))
      | none =>
        match targets with
        | [] => throw (.text "no CanoKey found")
        | [target] => pure target
        | _ => throw (.text "multiple CanoKeys found; use --device or --reader to select one") :
          Selecting CliError Target) = .ok target ↔ targets.filter (passes device) = [target] := by
    intro targets
    cases device with
    | some serial =>
      rw [Fallible.eval_orThrow, onlyMatch_eq_ok_iff]
      rfl
    | none =>
      have hall : targets.filter (passes none) = targets := List.filter_eq_self.mpr fun _ _ => rfl
      rw [hall]
      match targets with
      | [] => simp
      | [only] => simp
      | first :: second :: rest => simp
  rw [selected, singleTarget, Fallible.eval_bind, Except.bind_eq_ok_iff]
  refine exists_congr fun attached => and_congr attached_eq_ok_iff ?_
  rw [Fallible.eval_bind, Except.bind_eq_ok_iff]
  constructor
  · rintro ⟨targets, htargets, hfinal⟩
    obtain ⟨hcertain, rfl⟩ := (eval_selectionTargets fun _ _ => eval_probeCandidate).mp htargets
    exact ⟨hcertain, (hlast _).mp hfinal⟩
  · rintro ⟨hcertain, hfinal⟩
    exact ⟨canokeys w attached, (eval_selectionTargets fun _ _ => eval_probeCandidate).mpr ⟨hcertain, rfl⟩,
      (hlast _).mpr hfinal⟩

/-- With a reader name, the CanoKey of the only reader that has it in its
name. -/
theorem selected_some_iff :
    selected lowercase w device (some name) = .ok target ↔
      ∃ attached reader, w.attached = .ok attached ∧ named lowercase name attached = [reader] ∧
        found w reader = .canokey target := by
  rw [selected, singleTarget, Fallible.eval_bind, Except.bind_eq_ok_iff]
  refine exists_congr fun attached => ?_
  rw [attached_eq_ok_iff, Fallible.eval_bind, Except.bind_eq_ok_iff, exists_and_left]
  refine and_congr_right fun _ => exists_congr fun reader => ?_
  rw [Fallible.eval_orThrow, onlyMatch_eq_ok_iff, eval_probeReader]
  rfl

/-- The requests of a selected reader connect to that reader. -/
theorem probeReader_only (reader : Reader) :
    Prog.Only (fun q => ∀ card, q = Request.connect card → card = reader.name) (probeReader reader) := by
  have hconnect : Prog.Only (fun q => ∀ card, q = Request.connect card → card = reader.name)
      (DeviceSelection.connect reader) := by
    refine Fallible.only_bind (Fallible.only_request ?_) fun card => ?_
    · rintro card ⟨⟩
      rfl
    · refine Fallible.only_bind (Fallible.only_request ?_) fun atr => trivial
      rintro card ⟨⟩
  refine Fallible.only_bind (Fallible.only_mapError hconnect) fun connection => ?_
  have hprobe : Prog.Only (fun q => ∀ card, q = Request.connect card → card = reader.name) (probe connection) := by
    apply Fallible.only_request
    rintro card ⟨⟩
  cases connection.isCanokey with
  | false => trivial
  | true => exact Fallible.only_bind (Fallible.only_mapError hprobe) fun profile => trivial

/-- With a reader name, only the reader that is selected is connected to. -/
theorem connect_mem_requested {card : Bytes}
    (h : .connect card ∈ requested lowercase w device (some name)) :
    ∃ attached reader, w.attached = .ok attached ∧ named lowercase name attached = [reader] ∧ card = reader.name := by
  rw [requested, singleTarget, Fallible.mem_requests_bind] at h
  obtain hlist | ⟨attached, hattached, h⟩ := h
  · rw [Fallible.requests_mapError] at hlist
    have hreaders : Prog.requests w.answer readers = [.listReaders] := rfl
    simp [hreaders] at hlist
  rw [Fallible.mem_requests_bind] at h
  obtain hnone | ⟨reader, hreader, h⟩ := h
  · exact absurd hnone List.not_mem_nil
  rw [Fallible.eval_orThrow, onlyMatch_eq_ok_iff] at hreader
  exact ⟨attached, reader, attached_eq_ok_iff.mp hattached, hreader,
    Prog.requests_only (probeReader_only reader) w.answer _ h card rfl⟩

/-- The order in which the readers are listed decides nothing. -/
theorem selected_perm {names others : List Bytes} (h : names.Perm others) (readerName : Option (List Char)) :
    selected lowercase (w.withReaders names) device readerName = .ok target ↔
      selected lowercase (w.withReaders others) device readerName = .ok target := by
  have hone : ∀ {names others : List Bytes}, names.Perm others →
      selected lowercase (w.withReaders names) device readerName = .ok target →
      selected lowercase (w.withReaders others) device readerName = .ok target := by
    intro names others hperm hselected
    have hreaders := hperm.map Reader.mk
    cases readerName with
    | none =>
      obtain ⟨attached, hattached, hcertain, honly⟩ := selected_none_iff.mp hselected
      cases hattached
      simp only [found_withReaders, canokeys_withReaders] at hcertain honly
      refine selected_none_iff.mpr ⟨others.map Reader.mk, rfl, ?_, ?_⟩
      · intro reader hreader
        rw [found_withReaders]
        exact hcertain reader (hreaders.mem_iff.mpr hreader)
      · have hkeys := ((hreaders.filterMap fun reader => (found w reader).target).filter (passes device)).symm
        rw [canokeys_withReaders]
        exact List.perm_singleton.mp (honly ▸ hkeys)
    | some name =>
      obtain ⟨attached, reader, hattached, honly, hfound⟩ := selected_some_iff.mp hselected
      cases hattached
      rw [found_withReaders] at hfound
      refine selected_some_iff.mpr ⟨others.map Reader.mk, reader, rfl, ?_, by rw [found_withReaders, hfound]⟩
      have hnamed := (hreaders.filter fun reader => readerMatches lowercase reader.displayName name).symm
      exact List.perm_singleton.mp (honly ▸ hnamed)
  exact ⟨hone h, hone h.symm⟩

end Selected

/-- A device is selected without a reader name exactly when no reader is in
doubt and one CanoKey passes the filter, and by a reader name exactly when one
reader has it in its name, which alone is connected to, and holds a CanoKey;
the order of the readers does not matter. -/
theorem singleTarget_selects (lowercase : List Char → List Char) (w : World) (device : Option UInt32) :
    (∀ target, selected lowercase w device none = .ok target ↔
      ∃ attached, w.attached = .ok attached ∧ (∀ reader ∈ attached, found w reader ≠ .uncertain) ∧
        (canokeys w attached).filter (passes device) = [target]) ∧
    (∀ name target, selected lowercase w device (some name) = .ok target ↔
      ∃ attached reader, w.attached = .ok attached ∧ named lowercase name attached = [reader] ∧
        found w reader = .canokey target) ∧
    (∀ name card, .connect card ∈ requested lowercase w device (some name) →
      ∃ attached reader, w.attached = .ok attached ∧ named lowercase name attached = [reader] ∧
        card = reader.name) ∧
    ∀ names others : List Bytes, names.Perm others → ∀ readerName target,
      selected lowercase (w.withReaders names) device readerName = .ok target ↔
        selected lowercase (w.withReaders others) device readerName = .ok target :=
  ⟨fun _ => selected_none_iff, fun _ _ => selected_some_iff, fun _ _ => connect_mem_requested,
    fun _ _ h readerName _ => selected_perm h readerName⟩

end DeviceSelection
