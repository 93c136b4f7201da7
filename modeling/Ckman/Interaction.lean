import Mathlib.Data.List.Basic

/-!
# Programs that ask their environment

A program is a finite tree of requests. The environment answers each request
and moves to a new world; it may do so in several ways, and the process may be
stopped at any request. `Run` collects every such execution, so a statement
about all runs covers every failure and every interruption at once.
-/
namespace Interaction

variable {Q : Type} {A : Q → Type} {W α β ε : Type}

/-- `ask q next` issues `q` and continues with whatever answer arrives. -/
inductive Prog {Q : Type} (A : Q → Type) (α : Type) : Type where
  | pure : α → Prog A α
  | ask : (q : Q) → (A q → Prog A α) → Prog A α

namespace Prog

def bind : Prog A α → (α → Prog A β) → Prog A β
  | .pure a, f => f a
  | .ask q next, f => .ask q (fun r => (next r).bind f)

instance : Monad (Prog A) where
  pure := Prog.pure
  bind := Prog.bind

@[simp] theorem pure_bind (a : α) (f : α → Prog A β) : (Prog.pure a >>= f) = f a := rfl
@[simp] theorem ask_bind (q : Q) (next : A q → Prog A α) (f : α → Prog A β) :
    (Prog.ask q next >>= f) = .ask q (fun r => next r >>= f) := rfl

theorem bind_assoc {γ : Type} (p : Prog A α) (f : α → Prog A β) (g : β → Prog A γ) :
    (p >>= f >>= g) = p >>= fun a => f a >>= g := by
  induction p with
  | pure a => rfl
  | ask q next ih => exact congrArg (Prog.ask q) (funext fun r => ih r)

def request (q : Q) : Prog A (A q) := .ask q .pure

/-- Every request that the program can issue satisfies `P`. -/
def Only (P : Q → Prop) : Prog A α → Prop
  | .pure _ => True
  | .ask q next => P q ∧ ∀ r, (next r).Only P

theorem Only.imp {P P' : Q → Prop} {p : Prog A α} (h : p.Only P) (himp : ∀ q, P q → P' q) :
    p.Only P' := by
  induction p with
  | pure a => trivial
  | ask q next ih => exact ⟨himp q h.1, fun r => ih r (h.2 r)⟩

theorem only_of_forall {P : Q → Prop} (h : ∀ q, P q) (p : Prog A α) : p.Only P := by
  induction p with
  | pure a => trivial
  | ask q next ih => exact ⟨h q, ih⟩

theorem only_bind {P : Q → Prop} {p : Prog A α} {f : α → Prog A β}
    (hp : p.Only P) (hf : ∀ a, (f a).Only P) : (p >>= f).Only P := by
  induction p with
  | pure a => exact hf a
  | ask q next ih => exact ⟨hp.1, fun r => ih r (hp.2 r)⟩

end Prog

/-- What one request may do: the world before, the answer, the world after. -/
abbrev Env {Q : Type} (A : Q → Type) (W : Type) := (q : Q) → W → A q → W → Prop

/-- All executions of a program. A missing result means that the process was
stopped at a request which was never issued. -/
inductive Run (env : Env A W) : Prog A α → W → Option α → W → Prop where
  | done (a : α) (w : W) : Run env (.pure a) w (some a) w
  | stop (q : Q) (next : A q → Prog A α) (w : W) : Run env (.ask q next) w none w
  | step {q : Q} {next : A q → Prog A α} {w v u : W} {r : A q} {o : Option α} :
      env q w r v → Run env (next r) v o u → Run env (.ask q next) w o u

namespace Run

variable {env : Env A W}

theorem pure_iff {a : α} {w u : W} {o : Option α} :
    Run env (.pure a) w o u ↔ o = some a ∧ u = w := by
  constructor
  · intro h
    cases h
    exact ⟨rfl, rfl⟩
  · rintro ⟨rfl, rfl⟩
    exact .done a _

theorem ask_iff {q : Q} {next : A q → Prog A α} {w u : W} {o : Option α} :
    Run env (.ask q next) w o u ↔
      (o = none ∧ u = w) ∨ ∃ r v, env q w r v ∧ Run env (next r) v o u := by
  constructor
  · intro h
    cases h with
    | stop => exact .inl ⟨rfl, rfl⟩
    | step he hr => exact .inr ⟨_, _, he, hr⟩
  · rintro (⟨rfl, rfl⟩ | ⟨r, v, he, hr⟩)
    · exact .stop q next _
    · exact .step he hr

/-- Either the first part was interrupted, or it returned and the rest ran. -/
theorem bind_iff {p : Prog A α} {f : α → Prog A β} {w u : W} {o : Option β} :
    Run env (p >>= f) w o u ↔
      (o = none ∧ Run env p w none u) ∨ ∃ a v, Run env p w (some a) v ∧ Run env (f a) v o u := by
  induction p generalizing w with
  | pure a =>
    simp only [Prog.pure_bind, pure_iff, reduceCtorEq, false_and, and_false, false_or,
      Option.some.injEq]
    constructor
    · intro h
      exact ⟨a, w, ⟨rfl, rfl⟩, h⟩
    · rintro ⟨b, v, ⟨rfl, rfl⟩, h⟩
      exact h
  | ask q next ih =>
    simp only [Prog.ask_bind, ask_iff, ih]
    constructor
    · rintro (⟨rfl, rfl⟩ | ⟨r, v, he, ⟨rfl, hr⟩ | ⟨a, x, hr, hf⟩⟩)
      · exact .inl ⟨rfl, .inl ⟨trivial, rfl⟩⟩
      · exact .inl ⟨rfl, .inr ⟨r, v, he, hr⟩⟩
      · exact .inr ⟨a, x, .inr ⟨r, v, he, hr⟩, hf⟩
    · rintro (⟨rfl, ⟨-, rfl⟩ | ⟨r, v, he, hr⟩⟩ | ⟨a, x, ⟨h, -⟩ | ⟨r, v, he, hr⟩, hf⟩)
      · exact .inl ⟨rfl, rfl⟩
      · exact .inr ⟨r, v, he, .inl ⟨rfl, hr⟩⟩
      · cases h
      · exact .inr ⟨r, v, he, .inr ⟨a, x, hr, hf⟩⟩

/-- An environment that can do more has more runs. -/
theorem mono {env' : Env A W} {p : Prog A α} {w u : W} {o : Option α} (h : Run env p w o u)
    (henv : ∀ q w r v, env q w r v → env' q w r v) : Run env' p w o u := by
  induction h with
  | done a w => exact .done a w
  | stop q next w => exact .stop q next w
  | step he _ ih => exact .step (henv _ _ _ _ he) ih

/-- The invariant rule: a relation to the start kept by every permitted request
holds wherever the run ends or is stopped. -/
theorem preserves {P : Q → Prop} {I : W → Prop} {p : Prog A α} {w u : W} {o : Option α}
    (hI : ∀ q w r v, P q → I w → env q w r v → I v)
    (hp : p.Only P) (h : Run env p w o u) (hw : I w) : I u := by
  induction h with
  | done => exact hw
  | stop => exact hw
  | step he _ ih => exact ih (hp.2 _) (hI _ _ _ _ hp.1 hw he)

/-- A run of a finer world is a run of what is seen of it. -/
theorem map {W' : Type} {env' : Env A W'} {view : W → W'} {P : Q → Prop} {I : W → Prop} {p : Prog A α} {w u : W}
    {o : Option α} (henv : ∀ q w r v, P q → I w → env q w r v → env' q (view w) r (view v) ∧ I v)
    (hp : p.Only P) (h : Run env p w o u) (hw : I w) : Run env' p (view w) o (view u) := by
  induction h with
  | done a w => exact .done a (view w)
  | stop q next w => exact .stop q next (view w)
  | step he _ ih =>
    obtain ⟨hstep, hv⟩ := henv _ _ _ _ hp.1 hw he
    exact .step hstep (ih (hp.2 _) hv)

end Run

/-!
`ExceptT` adds the errors that `?` propagates. A run of a sequence is
interrupted in the first part, fails in the first part, or reaches the rest.
-/

/-- A program that may fail with an error of type `ε`. -/
abbrev Fallible {Q : Type} (A : Q → Type) (ε α : Type) := ExceptT ε (Prog A) α

def attempt (p : Prog A (Except ε α)) : Fallible A ε α := p

/-- The `?` operator on a value that is already there. -/
def orThrow (r : Except ε α) : Fallible A ε α := Prog.pure r

/-- `map_err(f)` on a whole program. -/
def mapError {δ : Type} (f : ε → δ) (p : Fallible A ε α) : Fallible A δ α :=
  Prog.bind p (fun r => .pure (r.mapError f))

namespace Fallible

variable {env : Env A W} {w u : W}

/-- Runs of a fallible program, seen as runs of the tree below it. -/
abbrev Runs (env : Env A W) (p : Fallible A ε α) (w : W) (o : Option (Except ε α)) (u : W) : Prop :=
  Run env (p : Prog A (Except ε α)) w o u

theorem pure_iff {a : α} {o : Option (Except ε α)} :
    Runs env (pure a : Fallible A ε α) w o u ↔ o = some (.ok a) ∧ u = w := Run.pure_iff

theorem throw_iff {e : ε} {o : Option (Except ε α)} :
    Runs env (throw e : Fallible A ε α) w o u ↔ o = some (.error e) ∧ u = w := Run.pure_iff

theorem orThrow_iff {r : Except ε α} {o : Option (Except ε α)} :
    Runs env (orThrow r : Fallible A ε α) w o u ↔ o = some r ∧ u = w := Run.pure_iff

theorem bind_iff {p : Fallible A ε α} {f : α → Fallible A ε β} {o : Option (Except ε β)} :
    Runs env (p >>= f) w o u ↔
      (o = none ∧ Runs env p w none u) ∨
      (∃ e, o = some (.error e) ∧ Runs env p w (some (.error e)) u) ∨
      ∃ a v, Runs env p w (some (.ok a)) v ∧ Runs env (f a) v o u := by
  have hb : (p >>= f : Fallible A ε β) = ExceptT.mk (Prog.bind p (ExceptT.bindCont f)) := rfl
  rw [Runs, hb]
  refine Run.bind_iff.trans (or_congr_right ?_)
  constructor
  · rintro ⟨a | a, v, hp, hf⟩
    · obtain ⟨rfl, rfl⟩ := Run.pure_iff.mp hf
      exact .inl ⟨a, rfl, hp⟩
    · exact .inr ⟨a, v, hp, hf⟩
  · rintro (⟨e, rfl, hp⟩ | ⟨a, v, hp, hf⟩)
    · exact ⟨.error e, u, hp, .done _ _⟩
    · exact ⟨.ok a, v, hp, hf⟩

/-- A sequence succeeds when its first part does and the rest does after it. -/
theorem bind_ok_iff {p : Fallible A ε α} {f : α → Fallible A ε β} {b : β} :
    Runs env (p >>= f) w (some (.ok b)) u ↔
      ∃ a v, Runs env p w (some (.ok a)) v ∧ Runs env (f a) v (some (.ok b)) u := by
  refine bind_iff.trans ?_
  simp

theorem bind_assoc {γ : Type} (p : Fallible A ε α) (f : α → Fallible A ε β) (g : β → Fallible A ε γ) :
    (p >>= f >>= g) = p >>= fun a => f a >>= g := by
  refine (Prog.bind_assoc (p : Prog _ _) (ExceptT.bindCont f) (ExceptT.bindCont g)).trans ?_
  refine congrArg (Prog.bind (p : Prog _ _)) (funext fun r => ?_)
  cases r <;> rfl

/-- `?` on a value fails at once or hands the value on. -/
theorem orThrow_bind_iff {r : Except ε α} {f : α → Fallible A ε β} {o : Option (Except ε β)} :
    Runs env (orThrow r >>= f) w o u ↔
      (∃ e, r = .error e ∧ o = some (.error e) ∧ u = w) ∨ ∃ a, r = .ok a ∧ Runs env (f a) w o u := by
  cases r with
  | error e =>
    have hthrow : Runs env (orThrow (.error e : Except ε α) >>= f) w o u ↔ o = some (.error e) ∧ u = w :=
      Run.pure_iff
    simp [hthrow]
  | ok a =>
    have hgo : Runs env (orThrow (.ok a : Except ε α) >>= f) w o u ↔ Runs env (f a) w o u := Iff.rfl
    simp [hgo]

theorem mapError_iff {δ : Type} {f : ε → δ} {p : Fallible A ε α} {o : Option (Except δ α)} :
    Runs env (mapError f p) w o u ↔
      ∃ o', o = o'.map (Except.mapError f) ∧ Runs env p w o' u := by
  refine Run.bind_iff.trans ?_
  constructor
  · rintro (⟨rfl, h⟩ | ⟨r, v, h, hr⟩)
    · exact ⟨none, rfl, h⟩
    · obtain ⟨rfl, rfl⟩ := Run.pure_iff.mp hr
      exact ⟨some r, rfl, h⟩
  · rintro ⟨o', rfl, h⟩
    cases o' with
    | none => exact .inl ⟨rfl, h⟩
    | some r => exact .inr ⟨r, u, h, .done _ _⟩

end Fallible

/-!
A scripted environment answers each request by a function of the next choice.
It turns a list of choices into a run, so concrete executions can be computed.
-/

/-- Follow the choices until the program returns, or until they run out or
leave a request unanswered. -/
def follow {C : Type} (answer : C → (q : Q) → W → Option (A q × W)) :
    List C → Prog A α → W → Option α × W
  | _, .pure a, w => (some a, w)
  | [], .ask _ _, w => (none, w)
  | c :: cs, .ask q next, w =>
    match answer c q w with
    | none => (none, w)
    | some (r, v) => follow answer cs (next r) v

theorem run_follow {C : Type} {env : Env A W} {answer : C → (q : Q) → W → Option (A q × W)}
    (h : ∀ c q w r v, answer c q w = some (r, v) → env q w r v) (cs : List C) (p : Prog A α) (w : W) :
    Run env p w (follow answer cs p w).1 (follow answer cs p w).2 := by
  induction p generalizing cs w with
  | pure a =>
    cases cs <;> exact .done a w
  | ask q next ih =>
    cases cs with
    | nil => exact .stop q next w
    | cons c cs =>
      rw [follow]
      cases hanswer : answer c q w with
      | none => exact .stop q next w
      | some found =>
        obtain ⟨r, v⟩ := found
        exact .step (h c q w r v hanswer) (ih r cs v)

/-!
A program written against a small set of requests runs unchanged in an
environment that offers more of them.
-/

section Lift

variable {Q' : Type} {A' : Q' → Type} {W' : Type}

/-- Re-issue every request through `ι`, reading the wider answer back. -/
def Prog.lift (ι : Q → Q') (back : ∀ q, A' (ι q) → A q) : Prog A α → Prog A' α
  | .pure a => .pure a
  | .ask q next => .ask (ι q) (fun r => (next (back q r)).lift ι back)

/-- Runs of a lifted program are runs of the original one, on the part of the
wide world that the small requests see. -/
theorem Run.of_lift {env : Env A W} {env' : Env A' W'} {ι : Q → Q'}
    {back : ∀ q, A' (ι q) → A q} {part : W' → W}
    (h : ∀ q w r v, env' (ι q) w r v → env q (part w) (back q r) (part v))
    {p : Prog A α} {w u : W'} {o : Option α} (hr : Run env' (p.lift ι back) w o u) :
    Run env p (part w) o (part u) := by
  induction p generalizing w with
  | pure a =>
    obtain ⟨rfl, rfl⟩ := Run.pure_iff.mp hr
    exact .done a _
  | ask q next ih =>
    rcases Run.ask_iff.mp hr with ⟨rfl, rfl⟩ | ⟨r, v, he, hn⟩
    · exact .stop q next _
    · exact .step (h _ _ _ _ he) (ih _ hn)

/-- Answer every request by a program of a wider world. -/
def Prog.interpret (handler : (q : Q) → Prog A' (A q)) : Prog A α → Prog A' α
  | .pure a => .pure a
  | .ask q next => handler q >>= fun r => (next r).interpret handler

/-- What all handlers of the requests ask for is all that the interpreted program asks for. -/
theorem Prog.only_interpret {P : Q' → Prop} {handler : (q : Q) → Prog A' (A q)}
    (h : ∀ q, (handler q).Only P) (p : Prog A α) : (p.interpret handler).Only P := by
  induction p with
  | pure a => trivial
  | ask q next ih => exact Prog.only_bind (h q) fun r => ih r

theorem Prog.only_lift {P : Q' → Prop} {ι : Q → Q'} {back : ∀ q, A' (ι q) → A q}
    (p : Prog A α) (h : ∀ q, P (ι q)) : (p.lift ι back).Only P := by
  induction p with
  | pure a => trivial
  | ask q next ih => exact ⟨h q, fun r => ih _⟩

end Lift

end Interaction
