import Ckman.Host
import Ckman.Interaction

/-!
# Driving libcanokey

The process owns the card connection: it exchanges every command of a
libcanokey operation itself. libcanokey, the card and the host CSPRNG are
parameters here. A card command is one request with any reply or transport
failure, and a run may be stopped before any request.
-/
namespace Piv

open Host Interaction

inductive Request where
  /-- One raw round trip with the card. -/
  | exchange (command : Bytes)
  /-- `getrandom::fill` of a buffer. -/
  | fill (length : Nat)
  /-- A panic: nothing answers it. -/
  | panicked
  deriving DecidableEq, Repr

/-- What a request may be answered with; `E` is the transport error. -/
abbrev Answer (E : Type) : Request → Type
  | .exchange _ => Except E Bytes
  | .fill n => Except RandomError { bytes : Bytes // bytes.length = n }
  | .panicked => Empty

inductive ErrorKind where
  | authenticationFailed | deviceAuthenticationFailed | pinBlocked | securityStatusNotSatisfied
  | conditionsNotSatisfied | notFound | capabilityUnknown | unsupportedFeature | unsupportedDevice
  | invalidResponse | invalidArgument
  /-- A kind that no caller looks at. -/
  | other (name : String)
  deriving DecidableEq, Repr

inductive Phase where
  | construction | select | authentication | command | parsing
  deriving DecidableEq, Repr

inductive SecretReference where
  | adminPin | oathAccess
  | other (name : String)
  deriving DecidableEq, Repr

/-- A libcanokey error, as far as its callers look at it. -/
structure Error where
  kind : ErrorKind
  phase : Phase
  reference : Option SecretReference := none
  retriesRemaining : Option UInt8 := none
  statusWord : Option UInt16 := none
  deriving DecidableEq, Repr

/-- `Error::new(kind)`. -/
def Error.new (kind : ErrorKind) : Error := { kind, phase := .construction }

/-- `Error::at(phase)`. -/
def Error.at (error : Error) (phase : Phase) : Error := { error with phase }

/-- A libcanokey operation: it issues one command at a time and continues with
the complete response. -/
inductive Operation (T : Type) where
  | complete (result : Except Error T)
  | exchange (command : Bytes) (advance : Bytes → Operation T)

/-- Every command that the operation can issue satisfies `P`. -/
def Operation.Only {T : Type} (P : Bytes → Prop) : Operation T → Prop
  | .complete _ => True
  | .exchange command advance => P command ∧ ∀ response, (advance response).Only P

inductive DriveError (E : Type) where
  | transport (error : E)
  | protocol (error : Error)
  deriving DecidableEq, Repr

inductive ManagementKeyUpdateStage where
  | replaceKey | updateMetadata | storeProtectedKey | protectPuk
  deriving DecidableEq, Repr

inductive PivError (E : Type) where
  | drive (error : DriveError E)
  | random (error : RandomError)
  | managementKeyUpdate (stage : ManagementKeyUpdateStage) (source : DriveError E)
  deriving DecidableEq, Repr

variable {E ε α β T σ : Type}

/-- `PivError::protocol`. -/
def PivError.ofKind (kind : ErrorKind) : PivError E := .drive (.protocol (.new kind))

/-- Drive one operation and return its typed result. A transport failure
aborts the operation; a failed exchange is never retried. -/
def execute : Operation T → Fallible (Answer E) (DriveError E) T
  | .complete result => orThrow (result.mapError .protocol)
  | .exchange command advance =>
    Prog.ask (.exchange command) fun response =>
      match response with
      | .error e => Prog.pure (.error (.transport e))
      | .ok bytes => execute (advance bytes)

/-- One round of the driver, seen through `map_err`. -/
theorem mapError_execute (f : DriveError E → ε) (command : Bytes)
    (advance : Bytes → Operation T) :
    mapError f (execute (.exchange command advance)) =
      Prog.ask (A := Answer E) (.exchange command) fun r =>
        match r with
        | .error e => .pure (.error (f (.transport e)))
        | .ok response => mapError f (execute (advance response)) := by
  rw [execute]
  refine congrArg (Prog.ask (A := Answer E) (.exchange command)) (funext fun r => ?_)
  cases r <;> rfl

def run (operation : Except Error (Operation T)) : Fallible (Answer E) (PivError E) T :=
  match operation with
  | .error e => throw (.drive (.protocol e))
  | .ok operation => mapError .drive (execute operation)

/-- `unwrap` and `expect`. -/
def unwrap (value : Option α) : Fallible (Answer E) ε α :=
  match value with
  | some a => pure a
  | none => Prog.ask .panicked (fun never => nomatch never)

@[simp] theorem unwrap_some_bind (a : α) (f : α → Fallible (Answer E) ε β) :
    (unwrap (some a) >>= f) = f a := rfl

/-- `getrandom::fill(&mut buffer)?`. -/
def fill (length : Nat) :
    Fallible (Answer E) (PivError E) { bytes : Bytes // bytes.length = length } :=
  mapError .random (attempt (Prog.request (Request.fill length)))

structure World (σ : Type) where
  card : σ
  /-- The commands sent to the card, oldest first. -/
  log : List Bytes

/-- What the card and the transport may do with a command. A failed exchange
may leave the card before or after the command. -/
abbrev Device (E σ : Type) := σ → Bytes → Except E Bytes → σ → Prop

def environment (device : Device E σ) : Env (Answer E) (World σ)
  | .exchange command, w, response, v =>
    device w.card command response v.card ∧ v.log = w.log ++ [command]
  | .fill _, w, _, v => v = w
  | .panicked, _, never, _ => nomatch never

namespace Runs

variable {device : Device E σ} {w u : World σ}

/-- A run of `run` either ends at a refused factory or is a run of the operation. -/
theorem run_iff {operation : Except Error (Operation T)} {o : Option (Except (PivError E) T)} :
    Fallible.Runs (environment device) (run operation) w o u ↔
      (∃ e, operation = .error e ∧ o = some (.error (.drive (.protocol e))) ∧ u = w) ∨
      ∃ op o', operation = .ok op ∧ o = o'.map (Except.mapError .drive) ∧
        Fallible.Runs (environment device) (execute op) w o' u := by
  cases operation with
  | error e =>
    refine Fallible.throw_iff.trans ?_
    simp
  | ok op =>
    refine Fallible.mapError_iff.trans ?_
    simp

/-- Card operations fail only with drive errors. -/
theorem run_error {operation : Except Error (Operation T)} {e : PivError E}
    (h : Fallible.Runs (environment device) (run operation) w (some (.error e)) u) :
    ∃ source, e = .drive source := by
  rcases run_iff.mp h with ⟨e', -, ho, -⟩ | ⟨op, o', -, ho, -⟩
  · cases ho
    exact ⟨_, rfl⟩
  · rcases o' with _ | ⟨source | a⟩
    · cases ho
    · cases ho
      exact ⟨source, rfl⟩
    · cases ho

/-- Unwrapping leaves the world alone; a missing value stops the process. -/
theorem unwrap_iff {value : Option α} {o : Option (Except ε α)} :
    Fallible.Runs (environment device) (unwrap value) w o u ↔
      u = w ∧ o = value.map .ok := by
  cases value with
  | some a =>
    refine Fallible.pure_iff.trans ?_
    simp [and_comm]
  | none =>
    refine Run.ask_iff.trans ?_
    constructor
    · rintro (⟨rfl, rfl⟩ | ⟨never, -⟩)
      · exact ⟨rfl, rfl⟩
      · exact nomatch never
    · rintro ⟨rfl, rfl⟩
      exact .inl ⟨rfl, rfl⟩

theorem unwrap_ok_iff {value : Option α} {a : α} :
    Fallible.Runs (environment device) (unwrap (ε := ε) value) w (some (.ok a)) u ↔
      u = w ∧ value = some a := by
  refine unwrap_iff.trans (and_congr_right fun _ => ?_)
  cases value <;> simp [eq_comm]

/-- A failure after unwrapping comes from what follows. -/
theorem unwrap_bind_error {value : Option α} {f : α → Fallible (Answer E) ε β} {e : ε}
    (h : Fallible.Runs (environment device) (unwrap value >>= f) w (some (.error e)) u) :
    ∃ a, Fallible.Runs (environment device) (f a) w (some (.error e)) u := by
  cases value with
  | some a => exact ⟨a, h⟩
  | none =>
    rcases Run.ask_iff.mp h with ⟨ho, -⟩ | ⟨never, -⟩
    · cases ho
    · exact nomatch never

/-- Drawing randomness sends nothing to the card. -/
theorem fill_world {n : Nat} {o : Option (Except (PivError E) { bytes : Bytes // bytes.length = n })}
    (h : Fallible.Runs (environment device) (fill n) w o u) : u = w := by
  obtain ⟨o', -, hr⟩ := Fallible.mapError_iff.mp h
  rcases Run.ask_iff.mp hr with ⟨-, rfl⟩ | ⟨r, v, he, hp⟩
  · rfl
  · obtain ⟨-, rfl⟩ := Run.pure_iff.mp hp
    exact he

/-- The commands of a run come from its operation. -/
theorem execute_log {P : Bytes → Prop} {op : Operation T} {o : Option (Except (DriveError E) T)}
    (hp : op.Only P) (h : Fallible.Runs (environment device) (execute op) w o u) :
    ∃ sent, u.log = w.log ++ sent ∧ ∀ command ∈ sent, P command := by
  induction op generalizing w with
  | complete result =>
    obtain ⟨-, rfl⟩ := Fallible.orThrow_iff.mp h
    exact ⟨[], by simp, by simp⟩
  | exchange command advance ih =>
    rw [execute] at h
    rcases Run.ask_iff.mp h with ⟨-, rfl⟩ | ⟨r, v, ⟨-, hlog⟩, hr⟩
    · exact ⟨[], by simp, by simp⟩
    · cases r with
      | error e =>
        obtain ⟨-, rfl⟩ := Run.pure_iff.mp hr
        exact ⟨[command], hlog, by simpa using hp.1⟩
      | ok bytes =>
        obtain ⟨sent, hs, hall⟩ := ih bytes (hp.2 bytes) hr
        refine ⟨command :: sent, by rw [hs, hlog]; simp, ?_⟩
        intro c hc
        rcases List.mem_cons.mp hc with rfl | hc
        · exact hp.1
        · exact hall c hc

end Runs

end Piv
