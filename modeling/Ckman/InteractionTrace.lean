import Ckman.Interaction

/-!
# Traces of programs

Where every request may be answered in every way, an execution is the list of
its requests with their answers. A trace without a result belongs to a process
that was stopped before its next request.
-/
namespace Interaction

variable {Q : Type} {A : Q → Type} {α β δ ε : Type}

structure Event {Q : Type} (A : Q → Type) where
  request : Q
  answer : A request

inductive Trace : Prog A α → List (Event A) → Option α → Prop where
  | done (a : α) : Trace (.pure a) [] (some a)
  | stop (q : Q) (next : A q → Prog A α) : Trace (.ask q next) [] none
  | step {q : Q} {next : A q → Prog A α} {r : A q} {tr : List (Event A)} {o : Option α} :
      Trace (next r) tr o → Trace (.ask q next) (⟨q, r⟩ :: tr) o

namespace Trace

variable {tr : List (Event A)}

theorem pure_iff {a : α} {o : Option α} : Trace (A := A) (.pure a) tr o ↔ tr = [] ∧ o = some a := by
  constructor
  · intro h
    cases h
    exact ⟨rfl, rfl⟩
  · rintro ⟨rfl, rfl⟩
    exact .done a

theorem ask_iff {q : Q} {next : A q → Prog A α} {o : Option α} :
    Trace (.ask q next) tr o ↔
      (tr = [] ∧ o = none) ∨ ∃ r tr', tr = ⟨q, r⟩ :: tr' ∧ Trace (next r) tr' o := by
  constructor
  · intro h
    cases h with
    | stop => exact .inl ⟨rfl, rfl⟩
    | step h => exact .inr ⟨_, _, rfl, h⟩
  · rintro (⟨rfl, rfl⟩ | ⟨r, tr', rfl, h⟩)
    · exact .stop q next
    · exact .step h

/-- Either the first part was stopped, or it returned and the rest followed. -/
theorem bind_iff {p : Prog A α} {f : α → Prog A β} {o : Option β} :
    Trace (p >>= f) tr o ↔ (o = none ∧ Trace p tr none) ∨
      ∃ a first rest, tr = first ++ rest ∧ Trace p first (some a) ∧ Trace (f a) rest o := by
  induction p generalizing tr with
  | pure a =>
    simp only [Prog.pure_bind, pure_iff, reduceCtorEq, and_false, false_or, Option.some.injEq]
    constructor
    · intro h
      exact ⟨a, [], tr, rfl, ⟨rfl, rfl⟩, h⟩
    · rintro ⟨b, first, rest, rfl, ⟨rfl, rfl⟩, h⟩
      exact h
  | ask q next ih =>
    simp only [Prog.ask_bind, ask_iff, ih]
    constructor
    · rintro (⟨rfl, rfl⟩ | ⟨r, tr', rfl, ⟨rfl, h⟩ | ⟨a, first, rest, rfl, hp, hf⟩⟩)
      · exact .inl ⟨rfl, .inl ⟨rfl, trivial⟩⟩
      · exact .inl ⟨rfl, .inr ⟨r, tr', rfl, h⟩⟩
      · exact .inr ⟨a, ⟨q, r⟩ :: first, rest, rfl, .inr ⟨r, first, rfl, hp⟩, hf⟩
    · rintro (⟨rfl, ⟨rfl, -⟩ | ⟨r, tr', rfl, h⟩⟩ | ⟨a, first, rest, rfl, ⟨-, h⟩ | ⟨r, tr', rfl, hp⟩, hf⟩)
      · exact .inl ⟨rfl, rfl⟩
      · exact .inr ⟨r, tr', rfl, .inl ⟨rfl, h⟩⟩
      · cases h
      · exact .inr ⟨r, tr' ++ rest, rfl, .inr ⟨a, tr', rest, rfl, hp, hf⟩⟩

/-- What a first part did fixes what is left to the rest. -/
theorem bind_append {p : Prog A α} {f : α → Prog A β} {a : α} {first rest : List (Event A)}
    {o : Option β} (hp : Trace p first (some a)) (h : Trace (p >>= f) (first ++ rest) o) :
    Trace (f a) rest o := by
  induction p generalizing first with
  | pure b =>
    obtain ⟨rfl, hb⟩ := pure_iff.mp hp
    cases hb
    exact h
  | ask q next ih =>
    cases hp with
    | step hp =>
      cases h with
      | step h => exact ih _ hp h

/-- The requests of a trace are requests of the program. -/
theorem only {P : Q → Prop} {p : Prog A α} {o : Option α} (hp : p.Only P) (h : Trace p tr o) :
    ∀ event ∈ tr, P event.request := by
  induction h with
  | done => simp
  | stop => simp
  | step _ ih =>
    intro event hevent
    rcases List.mem_cons.mp hevent with rfl | hevent
    · exact hp.1
    · exact ih (hp.2 _) event hevent

end Trace

/-- The worlds along a trace: each of its events is one that the environment allows. -/
inductive Leads {W : Type} (env : Env A W) : W → List (Event A) → W → Prop where
  | nil (w : W) : Leads env w [] w
  | cons {q : Q} {r : A q} {tr : List (Event A)} {w v u : W} :
      env q w r v → Leads env v tr u → Leads env w (⟨q, r⟩ :: tr) u

/-- A run is a trace together with the worlds along it. -/
theorem Run.iff_trace {W : Type} {env : Env A W} {p : Prog A α} {w u : W} {o : Option α} :
    Run env p w o u ↔ ∃ tr, Trace p tr o ∧ Leads env w tr u := by
  constructor
  · intro h
    induction h with
    | done a w => exact ⟨[], .done a, .nil w⟩
    | stop q next w => exact ⟨[], .stop q next, .nil w⟩
    | step he _ ih =>
      obtain ⟨tr, htr, hleads⟩ := ih
      exact ⟨_, .step htr, .cons he hleads⟩
  · rintro ⟨tr, htr, hleads⟩
    induction htr generalizing w with
    | done a =>
      cases hleads
      exact .done a _
    | stop q next =>
      cases hleads
      exact .stop q next _
    | step _ ih =>
      cases hleads with
      | cons he hleads => exact .step he (ih hleads)

/-- The trace and the result when every request that is answered at all is
answered by a function of the request. -/
def Prog.against (oracle : (q : Q) → Option (A q)) : Prog A α → List (Event A) × Option α
  | .pure a => ([], some a)
  | .ask q next =>
    match oracle q with
    | none => ([], none)
    | some r => (⟨q, r⟩ :: ((next r).against oracle).1, ((next r).against oracle).2)

theorem Trace.against (oracle : (q : Q) → Option (A q)) (p : Prog A α) :
    Trace p (p.against oracle).1 (p.against oracle).2 := by
  induction p with
  | pure a => exact .done a
  | ask q next ih =>
    rw [Prog.against]
    cases oracle q with
    | none => exact .stop q next
    | some r => exact .step (ih r)

/-- Every event of that run is answered by the function. -/
theorem Prog.against_answers {oracle : (q : Q) → Option (A q)} {p : Prog A α} :
    ∀ event ∈ (p.against oracle).1, oracle event.request = some event.answer := by
  induction p with
  | pure a => exact fun event hevent => absurd hevent List.not_mem_nil
  | ask q next ih =>
    rw [Prog.against]
    cases hanswer : oracle q with
    | none => exact fun event hevent => absurd hevent List.not_mem_nil
    | some r => exact List.forall_mem_cons.mpr ⟨hanswer, ih r⟩

/-- The result when every request is answered by a function. -/
def Prog.eval (answer : (q : Q) → A q) : Prog A α → α
  | .pure a => a
  | .ask q next => (next (answer q)).eval answer

theorem Prog.eval_bind (answer : (q : Q) → A q) (p : Prog A α) (f : α → Prog A β) :
    (p >>= f).eval answer = (f (p.eval answer)).eval answer := by
  induction p with
  | pure a => rfl
  | ask q next ih => exact ih (answer q)

theorem Prog.against_total (answer : (q : Q) → A q) (p : Prog A α) :
    (p.against fun q => some (answer q)).2 = some (p.eval answer) := by
  induction p with
  | pure a => rfl
  | ask q next ih => exact ih (answer q)

def Prog.requests (answer : (q : Q) → A q) : Prog A α → List Q
  | .pure _ => []
  | .ask q next => q :: (next (answer q)).requests answer

theorem Prog.requests_bind (answer : (q : Q) → A q) (p : Prog A α) (f : α → Prog A β) :
    (p >>= f).requests answer = p.requests answer ++ (f (p.eval answer)).requests answer := by
  induction p with
  | pure a => rfl
  | ask q next ih => exact congrArg (q :: ·) (ih (answer q))

theorem Prog.requests_only {P : Q → Prop} {p : Prog A α} (hp : p.Only P) (answer : (q : Q) → A q) :
    ∀ q ∈ p.requests answer, P q := by
  induction p with
  | pure a => exact fun q hq => absurd hq List.not_mem_nil
  | ask q next ih => exact List.forall_mem_cons.mpr ⟨hp.1, ih (answer q) (hp.2 (answer q))⟩

/-- Where one event of a concatenation stands. -/
theorem split_append {pre post first second : List α} {event : α}
    (h : pre ++ event :: post = first ++ second) :
    (∃ more, first = pre ++ event :: more ∧ post = more ++ second) ∨
      ∃ more, pre = first ++ more ∧ second = more ++ event :: post := by
  rcases List.append_eq_append_iff.mp h with ⟨more, hfirst, hmore⟩ | ⟨more, hpre, hsecond⟩
  · cases more with
    | nil => exact .inr ⟨[], by simpa using hfirst.symm, hmore.symm⟩
    | cons head more =>
      obtain ⟨rfl, rfl⟩ := List.cons.inj hmore
      exact .inl ⟨more, hfirst, rfl⟩
  · exact .inr ⟨more, hpre, hsecond⟩

/-- A request that the first part never issues comes after the whole of it. -/
theorem Trace.first_before {P : Q → Prop} {p : Prog A α} {f : α → Prog A β}
    {before after : List (Event A)} {event : Event A} {o : Option β}
    (hp : p.Only fun q => ¬ P q) (h : Trace (p >>= f) (before ++ event :: after) o)
    (hevent : P event.request) :
    ∃ a first between, before = first ++ between ∧ Trace p first (some a) ∧
      Trace (f a) (between ++ event :: after) o := by
  rcases Trace.bind_iff.mp h with ⟨-, h⟩ | ⟨a, first, rest, htr, h, hrest⟩
  · exact absurd hevent (h.only hp event (by simp))
  · rcases split_append htr with ⟨more, hfirst, -⟩ | ⟨between, hbefore, hafter⟩
    · exact absurd hevent (h.only hp event (by rw [hfirst]; simp))
    · exact ⟨a, first, between, hbefore, h, hafter ▸ hrest⟩

/-- After an answer that is fatal, the program returns what it stands for. -/
def Prog.Stops (fatal : (q : Q) → A q → Option α) : Prog A α → Prop
  | .pure _ => True
  | .ask q next => ∀ r, (∀ a, fatal q r = some a → next r = .pure a) ∧ (next r).Stops fatal

theorem Prog.stops_bind {P : Q → Prop} {fatal : (q : Q) → A q → Option α}
    {fatal' : (q : Q) → A q → Option β} {p : Prog A α} {f : α → Prog A β} (honly : p.Only P)
    (hp : p.Stops fatal) (hf : ∀ a, (f a).Stops fatal')
    (hfatal : ∀ q r b, P q → fatal' q r = some b → ∃ a, fatal q r = some a ∧ f a = .pure b) :
    (p >>= f).Stops fatal' := by
  induction p with
  | pure a => exact hf a
  | ask q next ih =>
    intro r
    refine ⟨?_, ih r (honly.2 r) (hp r).2⟩
    intro b hb
    obtain ⟨a, ha, hpure⟩ := hfatal q r b honly.1 hb
    change (next r).bind f = .pure b
    rw [(hp r).1 a ha]
    exact hpure

/-- Nothing follows a fatal answer but its result. -/
theorem Trace.last {fatal : (q : Q) → A q → Option α} {p : Prog A α} {tr pre post : List (Event A)}
    {o : Option α} {event : Event A} {a : α} (hp : p.Stops fatal) (h : Trace p tr o)
    (htr : tr = pre ++ event :: post) (hevent : fatal event.request event.answer = some a) :
    post = [] ∧ o = some a := by
  induction h generalizing pre with
  | done => simp at htr
  | stop => simp at htr
  | @step q next r tr o h ih =>
    rcases List.cons_eq_append_iff.mp htr with ⟨-, hhead⟩ | ⟨rest, rfl, hrest⟩
    · obtain ⟨rfl, rfl⟩ := List.cons.inj hhead
      rw [(hp r).1 a hevent] at h
      exact Trace.pure_iff.mp h
    · exact ih (hp r).2 hrest

namespace Fallible

variable {tr : List (Event A)}

/-- Traces of a fallible program, seen as traces of the tree below it. -/
abbrev Traces (p : Fallible A ε α) (tr : List (Event A)) (o : Option (Except ε α)) : Prop :=
  Trace (p : Prog A (Except ε α)) tr o

theorem traces_pure_iff {a : α} {o : Option (Except ε α)} :
    Traces (pure a : Fallible A ε α) tr o ↔ tr = [] ∧ o = some (.ok a) := Trace.pure_iff

theorem traces_throw_iff {e : ε} {o : Option (Except ε α)} :
    Traces (throw e : Fallible A ε α) tr o ↔ tr = [] ∧ o = some (.error e) := Trace.pure_iff

theorem traces_orThrow_iff {r : Except ε α} {o : Option (Except ε α)} :
    Traces (orThrow r : Fallible A ε α) tr o ↔ tr = [] ∧ o = some r := Trace.pure_iff

/-- A sequence is stopped in its first part, fails there, or goes on. -/
theorem traces_bind_iff {p : Fallible A ε α} {f : α → Fallible A ε β} {o : Option (Except ε β)} :
    Traces (p >>= f) tr o ↔ (o = none ∧ Traces p tr none) ∨
      (∃ e, o = some (.error e) ∧ Traces p tr (some (.error e))) ∨
      ∃ a first rest, tr = first ++ rest ∧ Traces p first (some (.ok a)) ∧ Traces (f a) rest o := by
  have hb : (p >>= f : Fallible A ε β) = ExceptT.mk (Prog.bind p (ExceptT.bindCont f)) := rfl
  rw [Traces, hb]
  refine Trace.bind_iff.trans (or_congr_right ?_)
  constructor
  · rintro ⟨a | a, first, rest, rfl, hp, hf⟩
    · obtain ⟨rfl, rfl⟩ := Trace.pure_iff.mp hf
      exact .inl ⟨a, rfl, by rwa [List.append_nil]⟩
    · exact .inr ⟨a, first, rest, rfl, hp, hf⟩
  · rintro (⟨e, rfl, hp⟩ | ⟨a, first, rest, rfl, hp, hf⟩)
    · exact ⟨.error e, tr, [], by rw [List.append_nil], hp, .done _⟩
    · exact ⟨.ok a, first, rest, rfl, hp, hf⟩

/-- A sequence that returns is a first part that returns and the rest after it. -/
theorem traces_bind_ok_iff {p : Fallible A ε α} {f : α → Fallible A ε β} {b : β} :
    Traces (p >>= f) tr (some (.ok b)) ↔
      ∃ a first rest, tr = first ++ rest ∧ Traces p first (some (.ok a)) ∧
        Traces (f a) rest (some (.ok b)) := by
  refine traces_bind_iff.trans ?_
  simp

/-- `?` on a value fails at once or hands the value on. -/
theorem traces_orThrow_bind_iff {r : Except ε α} {f : α → Fallible A ε β}
    {o : Option (Except ε β)} :
    Traces (orThrow r >>= f) tr o ↔
      (∃ e, r = .error e ∧ tr = [] ∧ o = some (.error e)) ∨ ∃ a, r = .ok a ∧ Traces (f a) tr o := by
  cases r with
  | error e =>
    have hthrow : Traces (orThrow (.error e : Except ε α) >>= f) tr o ↔
        tr = [] ∧ o = some (.error e) := Trace.pure_iff
    simp [hthrow]
  | ok a =>
    have hgo : Traces (orThrow (.ok a : Except ε α) >>= f) tr o ↔ Traces (f a) tr o := Iff.rfl
    simp [hgo]

theorem traces_mapError_iff {f : ε → δ} {p : Fallible A ε α} {o : Option (Except δ α)} :
    Traces (mapError f p) tr o ↔ ∃ o', o = o'.map (Except.mapError f) ∧ Traces p tr o' := by
  refine Trace.bind_iff.trans ?_
  constructor
  · rintro (⟨rfl, h⟩ | ⟨r, first, rest, rfl, h, hr⟩)
    · exact ⟨none, rfl, h⟩
    · obtain ⟨rfl, rfl⟩ := Trace.pure_iff.mp hr
      exact ⟨some r, rfl, by rwa [List.append_nil]⟩
  · rintro ⟨o', rfl, h⟩
    cases o' with
    | none => exact .inl ⟨rfl, h⟩
    | some r => exact .inr ⟨r, tr, [], by rw [List.append_nil], h, .done _⟩

/-- A single request returns its answer. -/
theorem traces_request_iff {q : Q} {answer : A q → Except ε α} {o : Option (Except ε α)} :
    Traces (attempt (.ask q fun r => .pure (answer r))) tr o ↔
      (tr = [] ∧ o = none) ∨ ∃ r, tr = [⟨q, r⟩] ∧ o = some (answer r) := by
  refine Trace.ask_iff.trans (or_congr_right ?_)
  constructor
  · rintro ⟨r, tr', rfl, h⟩
    obtain ⟨rfl, rfl⟩ := Trace.pure_iff.mp h
    exact ⟨r, rfl, rfl⟩
  · rintro ⟨r, rfl, rfl⟩
    exact ⟨r, [], rfl, .done _⟩

theorem only_bind {P : Q → Prop} {p : Fallible A ε α} {f : α → Fallible A ε β}
    (hp : Prog.Only P p) (hf : ∀ a, Prog.Only P (f a)) :
    Prog.Only P (p >>= f : Fallible A ε β) := by
  refine Prog.only_bind hp fun r => ?_
  cases r with
  | error e => trivial
  | ok a => exact hf a

/-- A sequence of fallible programs, answered as a sequence of their results. -/
theorem eval_bind (answer : (q : Q) → A q) (p : Fallible A ε α) (f : α → Fallible A ε β) :
    Prog.eval answer (p >>= f : Fallible A ε β) =
      Prog.eval answer p >>= fun a => Prog.eval answer (f a) := by
  have hb : (p >>= f : Fallible A ε β) = ExceptT.mk (Prog.bind p (ExceptT.bindCont f)) := rfl
  refine (congrArg (Prog.eval answer) hb).trans ((Prog.eval_bind answer p _).trans ?_)
  cases Prog.eval answer p with
  | error e => rfl
  | ok a => rfl

/-- A loop whose turns have these results. -/
theorem eval_foldlM {σ : Type} {answer : (q : Q) → A q} {step : σ → α → Fallible A ε σ}
    {step' : σ → α → Except ε σ} (h : ∀ s item, Prog.eval answer (step s item) = step' s item)
    (items : List α) (s : σ) :
    Prog.eval answer (items.foldlM step s : Fallible A ε σ) = items.foldlM step' s := by
  induction items generalizing s with
  | nil => rfl
  | cons item items ih =>
    rw [List.foldlM_cons, List.foldlM_cons, eval_bind, h]
    exact congrArg _ (funext ih)

/-- A loop whose turns refuse some of the items returns where no item is refused. -/
theorem eval_foldlM_ok_iff {σ : Type} {answer : (q : Q) → A q} {step : σ → α → Fallible A ε σ}
    {P : α → Prop} {f : σ → α → σ}
    (h : ∀ s item t, Prog.eval answer (step s item) = .ok t ↔ P item ∧ f s item = t)
    {items : List α} {s t : σ} :
    Prog.eval answer (items.foldlM step s : Fallible A ε σ) = .ok t ↔
      (∀ item ∈ items, P item) ∧ items.foldl f s = t := by
  induction items generalizing s with
  | nil =>
    have hpure : Prog.eval answer (pure s : Fallible A ε σ) = .ok s := rfl
    rw [List.foldlM_nil, List.foldl_nil, hpure, Except.ok.injEq]
    simp
  | cons item items ih =>
    rw [List.foldlM_cons, List.foldl_cons, eval_bind, List.forall_mem_cons]
    cases hturn : Prog.eval answer (step s item) with
    | error e =>
      have hnot : ¬ P item := fun hitem => by
        have hok := (h s item _).mpr ⟨hitem, rfl⟩
        rw [hturn] at hok
        cases hok
      simp only [hnot, false_and, iff_false]
      exact nofun
    | ok middle =>
      obtain ⟨hitem, rfl⟩ := (h s item middle).mp hturn
      simp only [hitem, true_and]
      exact ih

/-- A check that is made a second time under a condition. -/
theorem eval_secondCheck {answer : (q : Q) → A q} {first second : Fallible A ε Bool}
    {refusal : Fallible A ε Unit} {passed passed' : Bool} (c : Prop) [Decidable c]
    (hfirst : Prog.eval answer first = .ok passed) (hsecond : Prog.eval answer second = .ok passed') :
    Prog.eval answer (first >>= fun passed => if passed then pure () else
        (if c then second else pure false) >>= fun passed => if passed then pure () else refusal :
          Fallible A ε Unit) =
      if passed then .ok () else if c ∧ passed' then .ok () else Prog.eval answer refusal := by
  rw [eval_bind, hfirst]
  cases passed with
  | true => rfl
  | false =>
    by_cases hc : c
    · simp only [Bool.false_eq_true, if_false, hc, if_true, true_and]
      refine (eval_bind answer second _).trans ?_
      rw [hsecond]
      cases passed' <;> rfl
    · simp only [Bool.false_eq_true, if_false, hc, false_and]
      rfl

@[simp] theorem eval_pure (answer : (q : Q) → A q) (a : α) :
    Prog.eval answer (pure a : Fallible A ε α) = .ok a := rfl

@[simp] theorem eval_throw (answer : (q : Q) → A q) (e : ε) :
    Prog.eval answer (throw e : Fallible A ε α) = .error e := rfl

@[simp] theorem eval_orThrow (answer : (q : Q) → A q) (r : Except ε α) :
    Prog.eval answer (orThrow r) = r := rfl

@[simp] theorem eval_mapError (answer : (q : Q) → A q) (f : ε → δ) (p : Fallible A ε α) :
    Prog.eval answer (mapError f p) = (Prog.eval answer p).mapError f := Prog.eval_bind answer p _

@[simp] theorem requests_mapError (answer : (q : Q) → A q) (f : ε → δ) (p : Fallible A ε α) :
    Prog.requests answer (mapError f p) = Prog.requests answer p :=
  (Prog.requests_bind answer p _).trans (List.append_nil _)

/-- A sequence issues the requests of its first part and, once that has returned, of the rest. -/
theorem mem_requests_bind {answer : (q : Q) → A q} {p : Fallible A ε α} {f : α → Fallible A ε β}
    {q : Q} :
    q ∈ Prog.requests answer (p >>= f : Fallible A ε β) ↔ q ∈ Prog.requests answer p ∨
      ∃ a, Prog.eval answer p = .ok a ∧ q ∈ Prog.requests answer (f a) := by
  have hb : (p >>= f : Fallible A ε β) = ExceptT.mk (Prog.bind p (ExceptT.bindCont f)) := rfl
  have hsplit : Prog.requests answer (p >>= f : Fallible A ε β) = Prog.requests answer p ++
      Prog.requests answer (ExceptT.bindCont f (Prog.eval answer p)) :=
    (congrArg (Prog.requests answer) hb).trans (Prog.requests_bind answer p _)
  rw [hsplit, List.mem_append]
  refine or_congr_right ?_
  cases Prog.eval answer p with
  | error e =>
    have hnone : Prog.requests answer (ExceptT.bindCont f (.error e)) = [] := rfl
    simp [hnone]
  | ok a =>
    have hgo : ExceptT.bindCont f (.ok a) = f a := rfl
    simp [hgo]

/-- A loop issues the requests of the turns that it comes to. -/
theorem mem_requests_foldlM {σ : Type} {answer : (q : Q) → A q} {step : σ → α → Fallible A ε σ}
    {step' : σ → α → Except ε σ} (h : ∀ s item, Prog.eval answer (step s item) = step' s item)
    {items : List α} {s : σ} {q : Q} :
    q ∈ Prog.requests answer (items.foldlM step s : Fallible A ε σ) ↔
      ∃ before item after t, items = before ++ item :: after ∧
        before.foldlM step' s = .ok t ∧ q ∈ Prog.requests answer (step t item) := by
  induction items generalizing s with
  | nil =>
    constructor
    · intro hq
      cases hq
    · rintro ⟨before, item, after, t, hitems, -⟩
      simp at hitems
  | cons item items ih =>
    rw [List.foldlM_cons, mem_requests_bind, h]
    constructor
    · rintro (hq | ⟨next, hnext, hq⟩)
      · exact ⟨[], item, items, s, rfl, rfl, hq⟩
      · obtain ⟨before, later, after, t, rfl, hbefore, hlater⟩ := ih.mp hq
        refine ⟨item :: before, later, after, t, rfl, ?_, hlater⟩
        rw [List.foldlM_cons, hnext]
        exact hbefore
    · rintro ⟨before, later, after, t, hitems, hbefore, hlater⟩
      cases before with
      | nil =>
        obtain ⟨rfl, rfl⟩ := List.cons.inj hitems
        cases hbefore
        exact .inl hlater
      | cons first before =>
        obtain ⟨rfl, rfl⟩ := List.cons.inj hitems
        rw [List.foldlM_cons] at hbefore
        cases hnext : step' s item with
        | error e =>
          rw [hnext] at hbefore
          cases hbefore
        | ok next =>
          rw [hnext] at hbefore
          exact .inr ⟨next, rfl, ih.mpr ⟨before, later, after, t, rfl, hbefore, hlater⟩⟩

/-- What the second part asks for comes after a first part that returned. -/
theorem first_before {P : Q → Prop} {p : Fallible A ε α} {f : α → Fallible A ε β}
    {before after : List (Event A)} {event : Event A} {o : Option (Except ε β)}
    (hp : Prog.Only (fun q => ¬ P q) p) (h : Traces (p >>= f) (before ++ event :: after) o)
    (hevent : P event.request) :
    ∃ a first between, before = first ++ between ∧ Traces p first (some (.ok a)) ∧
      Traces (f a) (between ++ event :: after) o := by
  obtain ⟨r, first, between, hbefore, hfirst, hrest⟩ := Trace.first_before hp h hevent
  cases r with
  | error e =>
    obtain ⟨hnil, -⟩ := Trace.pure_iff.mp hrest
    exact absurd hnil (by simp)
  | ok a => exact ⟨a, first, between, hbefore, hfirst, hrest⟩

theorem only_mapError {P : Q → Prop} {f : ε → δ} {p : Fallible A ε α} (hp : Prog.Only P p) :
    Prog.Only P (mapError f p) := Prog.only_bind hp fun _ => trivial

theorem only_request {P : Q → Prop} {q : Q} {answer : A q → Except ε α} (h : P q) :
    Prog.Only P (attempt (.ask q fun r => .pure (answer r))) := ⟨h, fun _ => trivial⟩

end Fallible

/-- No execution issues more than `n` requests of a kind. -/
def Prog.AtMost (P : Q → Bool) (n : Nat) (p : Prog A α) : Prop :=
  ∀ tr o, Trace p tr o → (tr.countP fun event => P event.request) ≤ n

namespace Prog.AtMost

variable {P : Q → Bool} {m n : Nat}

theorem pure (a : α) : AtMost P n (.pure a : Prog A α) := by
  intro tr o h
  obtain ⟨rfl, -⟩ := Trace.pure_iff.mp h
  exact Nat.zero_le n

/-- A request of the kind is one more than what follows. -/
theorem ask {q : Q} {next : A q → Prog A α} (h : ∀ r, AtMost P n (next r)) :
    AtMost P (n + 1) (.ask q next) := by
  intro tr o htr
  rcases Trace.ask_iff.mp htr with ⟨rfl, -⟩ | ⟨r, rest, rfl, hrest⟩
  · exact Nat.zero_le _
  · rw [List.countP_cons]
    have hle := h r rest o hrest
    split <;> omega

theorem ask_other {q : Q} {next : A q → Prog A α} (hq : P q = false) (h : ∀ r, AtMost P n (next r)) :
    AtMost P n (.ask q next) := by
  intro tr o htr
  rcases Trace.ask_iff.mp htr with ⟨rfl, -⟩ | ⟨r, rest, rfl, hrest⟩
  · exact Nat.zero_le _
  · rw [List.countP_cons_of_neg (by simp [hq])]
    exact h r rest o hrest

theorem bind {p : Prog A α} {f : α → Prog A β} (hp : AtMost P m p) (hf : ∀ a, AtMost P n (f a)) :
    AtMost P (m + n) (p >>= f) := by
  intro tr o h
  rcases Trace.bind_iff.mp h with ⟨-, h⟩ | ⟨a, first, rest, rfl, h, hrest⟩
  · exact Nat.le_trans (hp tr none h) (Nat.le_add_right m n)
  · rw [List.countP_append]
    exact Nat.add_le_add (hp first _ h) (hf a rest o hrest)

/-- The rule of sequencing for a program that may fail. -/
theorem andThen {p : Fallible A ε α} {f : α → Fallible A ε β} (hp : AtMost P m p)
    (hf : ∀ a, AtMost P n (f a)) : AtMost P (m + n) (p >>= f : Fallible A ε β) := by
  refine bind (f := ExceptT.bindCont f) hp fun r => ?_
  cases r with
  | error e => exact pure _
  | ok a => exact hf a

theorem mapError {p : Fallible A ε α} {f : ε → δ} (hp : AtMost P n p) :
    AtMost P n (Interaction.mapError f p) := bind (n := 0) hp fun _ => pure _

theorem of_only {p : Prog A α} (hp : p.Only fun q => P q = false) : AtMost P n p := by
  intro tr o h
  have hnone : (tr.countP fun event => P event.request) = 0 := by
    rw [List.countP_eq_zero]
    intro event hevent
    simpa using h.only hp event hevent
  omega

end Prog.AtMost

/-- Before the first answer that grants, no request of the kind is issued. -/
def Prog.Guards (P : Q → Prop) (grants : (q : Q) → A q → Prop) : Prog A α → Prop
  | .pure _ => True
  | .ask q next => ¬ P q ∧ ∀ r, grants q r ∨ (next r).Guards P grants

namespace Prog.Guards

variable {P : Q → Prop} {grants : (q : Q) → A q → Prop}

theorem of_only {p : Prog A α} (hp : p.Only fun q => ¬ P q) : p.Guards P grants := by
  induction p with
  | pure a => trivial
  | ask q next ih => exact ⟨hp.1, fun r => .inr (ih r (hp.2 r))⟩

theorem bind {p : Prog A α} {f : α → Prog A β} (hp : p.Guards P grants) (hf : ∀ a, (f a).Guards P grants) :
    (p >>= f).Guards P grants := by
  induction p with
  | pure a => exact hf a
  | ask q next ih => exact ⟨hp.1, fun r => (hp.2 r).imp id (ih r)⟩

/-- The rule of sequencing for a program that may fail. -/
theorem andThen {p : Fallible A ε α} {f : α → Fallible A ε β} (hp : Prog.Guards P grants p)
    (hf : ∀ a, Prog.Guards P grants (f a)) : Prog.Guards P grants (p >>= f : Fallible A ε β) := by
  refine bind (f := ExceptT.bindCont f) hp fun r => ?_
  cases r with
  | error e => trivial
  | ok a => exact hf a

/-- Every request of the kind comes after an answer that grants. -/
theorem granted {p : Prog A α} {tr before after : List (Event A)} {event : Event A} {o : Option α}
    (hp : p.Guards P grants) (h : Trace p tr o) (htr : tr = before ++ event :: after)
    (hevent : P event.request) : ∃ earlier ∈ before, grants earlier.request earlier.answer := by
  induction h generalizing before with
  | done => simp at htr
  | stop => simp at htr
  | @step q next r tr o _ ih =>
    rcases List.cons_eq_append_iff.mp htr with ⟨-, hhead⟩ | ⟨rest, rfl, hrest⟩
    · obtain ⟨rfl, -⟩ := List.cons.inj hhead
      exact absurd hevent hp.1
    · rcases hp.2 r with hgrants | hguards
      · exact ⟨⟨q, r⟩, List.mem_cons_self, hgrants⟩
      · obtain ⟨earlier, hmem, hgrants⟩ := ih hguards hrest
        exact ⟨earlier, List.mem_cons_of_mem _ hmem, hgrants⟩

end Prog.Guards

section Lift

variable {Q' : Type} {A' : Q' → Type}

/-- The events of a lifted program are those of the original one. -/
theorem Trace.of_lift (ι : Q → Q') {back : ∀ q, A' (ι q) → A q} (forth : ∀ q, A q → A' (ι q))
    (hback : ∀ q r, forth q (back q r) = r) {p : Prog A α} {tr : List (Event A')} {o : Option α}
    (h : Trace (p.lift ι back) tr o) :
    ∃ tr', tr = tr'.map (fun event => ⟨ι event.request, forth _ event.answer⟩) ∧ Trace p tr' o := by
  induction p generalizing tr with
  | pure a =>
    obtain ⟨rfl, rfl⟩ := Trace.pure_iff.mp h
    exact ⟨[], rfl, .done a⟩
  | ask q next ih =>
    rcases Trace.ask_iff.mp h with ⟨rfl, rfl⟩ | ⟨r, rest, rfl, hrest⟩
    · exact ⟨[], rfl, .stop q next⟩
    · obtain ⟨tr', rfl, htr⟩ := ih _ hrest
      exact ⟨⟨q, back q r⟩ :: tr', by rw [List.map_cons, hback], .step htr⟩

end Lift

end Interaction
