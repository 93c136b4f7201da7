import Ckman.Interaction

/-!
# Rules for failing programs

A triple says what every run of a program keeps, wherever it ends or is
stopped, and what its errors and results satisfy. A staged program is a
sequence of labelled operations, and an error of it carries the label of the
operation that failed.
-/
namespace Interaction

variable {Q : Type} {A : Q → Type} {W C α β δ ε ι : Type}

namespace Fallible

/-- A run from `pre` is in `always` wherever it ends or is stopped; its errors
satisfy `fail`, and a result satisfies `post` together with the world. -/
def Triple (env : Env A W) (pre : W → Prop) (p : Fallible A ε α) (always : W → Prop)
    (fail : ε → Prop) (post : α → W → Prop) : Prop :=
  ∀ w o u, pre w → Runs env p w o u →
    always u ∧ (∀ e, o = some (.error e) → fail e) ∧ ∀ a, o = some (.ok a) → post a u

namespace Triple

variable {env : Env A W} {pre always : W → Prop} {fail : ε → Prop}

theorem pure {post : α → W → Prop} {a : α} (halways : ∀ w, pre w → always w)
    (hpost : ∀ w, pre w → post a w) :
    Triple env pre (Pure.pure a : Fallible A ε α) always fail post := by
  intro w o u hw hr
  obtain ⟨rfl, rfl⟩ := pure_iff.mp hr
  refine ⟨halways u hw, ?_, ?_⟩
  · intro e he
    cases he
  · intro b hb
    cases hb
    exact hpost u hw

theorem throw {post : α → W → Prop} {e : ε} (halways : ∀ w, pre w → always w) (he : fail e) :
    Triple env pre (MonadExcept.throw e : Fallible A ε α) always fail post := by
  intro w o u hw hr
  obtain ⟨rfl, rfl⟩ := throw_iff.mp hr
  refine ⟨halways u hw, ?_, ?_⟩
  · intro e' he'
    cases he'
    exact he
  · intro a ha
    cases ha

theorem orThrow {post : α → W → Prop} {r : Except ε α} (halways : ∀ w, pre w → always w)
    (he : ∀ e, r = .error e → fail e) (ha : ∀ a, r = .ok a → ∀ w, pre w → post a w) :
    Triple env pre (Interaction.orThrow r) always fail post := by
  intro w o u hw hr
  obtain ⟨rfl, rfl⟩ := orThrow_iff.mp hr
  exact ⟨halways u hw, fun e h => he e (Option.some.inj h),
    fun a h => ha a (Option.some.inj h) u hw⟩

/-- The rule of a single request. -/
theorem attempt {post : α → W → Prop} {q : Q} (answer : A q → Except ε α)
    (halways : ∀ w, pre w → always w)
    (hstep : ∀ w r v, pre w → env q w r v →
      always v ∧ (∀ e, answer r = .error e → fail e) ∧ ∀ a, answer r = .ok a → post a v) :
    Triple env pre (Interaction.attempt (.ask q fun r => .pure (answer r))) always fail post := by
  intro w o u hw hr
  rcases Run.ask_iff.mp hr with ⟨rfl, rfl⟩ | ⟨r, v, he, hx⟩
  · exact ⟨halways u hw, by simp, by simp⟩
  · obtain ⟨rfl, rfl⟩ := Run.pure_iff.mp hx
    obtain ⟨hv, hfail, hpost⟩ := hstep w r u hw he
    exact ⟨hv, fun e h => hfail e (Option.some.inj h), fun a h => hpost a (Option.some.inj h)⟩

/-- The rule of sequencing. -/
theorem bind {p : Fallible A ε α} {f : α → Fallible A ε β} {P : α → W → Prop}
    {post : β → W → Prop} (hp : Triple env pre p always fail P)
    (hf : ∀ a, Triple env (P a) (f a) always fail post) :
    Triple env pre (p >>= f) always fail post := by
  intro w o u hw hr
  rcases bind_iff.mp hr with ⟨rfl, hp'⟩ | ⟨e, rfl, hp'⟩ | ⟨a, v, hp', hf'⟩
  · exact ⟨(hp w _ u hw hp').1, by simp, by simp⟩
  · obtain ⟨hu, hfail, -⟩ := hp w _ u hw hp'
    refine ⟨hu, ?_, by simp⟩
    intro e' he'
    cases he'
    exact hfail e rfl
  · obtain ⟨-, -, hmid⟩ := hp w _ v hw hp'
    exact hf a v o u (hmid a rfl) hf'

/-- The rule of consequence. -/
theorem weaken {p : Fallible A ε α} {pre' always' : W → Prop} {post post' : α → W → Prop}
    (hp : Triple env pre p always fail post) (hpre : ∀ w, pre' w → pre w)
    (halways : ∀ w, always w → always' w) (ha : ∀ a w, post a w → post' a w) :
    Triple env pre' p always' fail post' := by
  intro w o u hw hr
  obtain ⟨hu, hfail, hpost⟩ := hp w o u (hpre w hw) hr
  exact ⟨halways u hu, hfail, fun a h => ha a u (hpost a h)⟩

/-- A part of the precondition that no world is in is known of the program. -/
theorem assume {p : Fallible A ε α} {φ : Prop} {post : α → W → Prop}
    (hp : φ → Triple env pre p always fail post) : Triple env (fun w => pre w ∧ φ) p always fail post :=
  fun w o u hw hr => hp hw.2 w o u hw.1 hr

theorem mapError {fail' : δ → Prop} {f : ε → δ} {p : Fallible A ε α} {post : α → W → Prop}
    (hp : Triple env pre p always fail post) (he : ∀ e, fail e → fail' (f e)) :
    Triple env pre (Interaction.mapError f p) always fail' post := by
  intro w o u hw hr
  obtain ⟨o', rfl, hr'⟩ := mapError_iff.mp hr
  obtain ⟨hu, hfail, hpost⟩ := hp w o' u hw hr'
  refine ⟨hu, ?_, ?_⟩
  · intro e h
    rcases o' with _ | ⟨e' | a⟩ <;> cases h
    exact he e' (hfail e' rfl)
  · intro a h
    rcases o' with _ | ⟨e' | a'⟩ <;> cases h
    exact hpost a rfl

/-- The rule of handling a result: after an error only `always` is known. -/
theorem handle {p : Fallible A ε α} {f : Except ε α → Fallible A δ β} {fail' : δ → Prop}
    {P : α → W → Prop} {post : β → W → Prop} (hp : Triple env pre p always fail P)
    (hok : ∀ a, Triple env (P a) (f (.ok a)) always fail' post)
    (herror : ∀ e, Triple env always (f (.error e)) always fail' post) :
    Triple env pre (Prog.bind p f : Fallible A δ β) always fail' post := by
  intro w o u hw hr
  rcases Run.bind_iff.mp hr with ⟨rfl, hp'⟩ | ⟨r, v, hp', hf⟩
  · exact ⟨(hp w _ u hw hp').1, by simp, by simp⟩
  · obtain ⟨hv, -, hmid⟩ := hp w _ v hw hp'
    cases r with
    | error e => exact herror e v o u hv hf
    | ok a => exact hok a v o u (hmid a rfl) hf

end Triple

/-- Every run that starts in `I` stays in `I`; its errors satisfy `fail` and
its results satisfy `post`. -/
def Holds (env : Env A W) (I : W → Prop) (p : Fallible A ε α) (fail : ε → Prop)
    (post : α → Prop) : Prop :=
  Triple env I p I fail fun a w => I w ∧ post a

namespace Holds

variable {env : Env A W} {I : W → Prop} {fail : ε → Prop}

/-- An invariant of a program, from its runs. -/
theorem of_runs {p : Fallible A ε α} {post : α → Prop}
    (h : ∀ w o u, I w → Runs env p w o u →
      I u ∧ (∀ e, o = some (.error e) → fail e) ∧ ∀ a, o = some (.ok a) → post a) :
    Holds env I p fail post := by
  intro w o u hw hr
  obtain ⟨hu, hfail, hpost⟩ := h w o u hw hr
  exact ⟨hu, hfail, fun a ha => ⟨hu, hpost a ha⟩⟩

theorem pure {post : α → Prop} {a : α} (ha : post a) :
    Holds env I (Pure.pure a : Fallible A ε α) fail post :=
  Triple.pure (fun _ hw => hw) (fun _ hw => ⟨hw, ha⟩)

theorem orThrow {post : α → Prop} {r : Except ε α} (he : ∀ e, r = .error e → fail e)
    (ha : ∀ a, r = .ok a → post a) : Holds env I (Interaction.orThrow r) fail post :=
  Triple.orThrow (fun _ hw => hw) he (fun a h _ hw => ⟨hw, ha a h⟩)

theorem bind {p : Fallible A ε α} {f : α → Fallible A ε β} {P : α → Prop} {post : β → Prop}
    (hp : Holds env I p fail P) (hf : ∀ a, P a → Holds env I (f a) fail post) :
    Holds env I (p >>= f) fail post := by
  refine Triple.bind hp ?_
  intro a w o u hw hr
  exact hf a hw.2 w o u hw.1 hr

end Holds

end Fallible

section Staged

variable {env : Env A W} {operation : ι → Fallible A ε Unit} {label : ι → ε → δ}

/-- The runs of labelled operations in sequence: the first one that does not
succeed is the last one that runs. -/
inductive Staged (env : Env A W) (operation : ι → Fallible A ε Unit) (label : ι → ε → δ) :
    List ι → W → Option (Except δ Unit) → W → Prop where
  | finished (w : W) : Staged env operation label [] w (some (.ok ())) w
  | stopped {i : ι} {rest : List ι} {w u : W} :
      Fallible.Runs env (operation i) w none u → Staged env operation label (i :: rest) w none u
  | failed {i : ι} {rest : List ι} {w u : W} {e : ε} :
      Fallible.Runs env (operation i) w (some (.error e)) u →
        Staged env operation label (i :: rest) w (some (.error (label i e))) u
  | next {i : ι} {rest : List ι} {w v u : W} {o : Option (Except δ Unit)} :
      Fallible.Runs env (operation i) w (some (.ok ())) v → Staged env operation label rest v o u →
        Staged env operation label (i :: rest) w o u

/-- A labelled operation followed by the remaining stages. -/
theorem Staged.of_bind {i : ι} {rest : List ι} {next : Unit → Fallible A δ Unit} {w u : W}
    {o : Option (Except δ Unit)}
    (hnext : ∀ v o u, Fallible.Runs env (next ()) v o u → Staged env operation label rest v o u)
    (hr : Fallible.Runs env (mapError (label i) (operation i) >>= next) w o u) :
    Staged env operation label (i :: rest) w o u := by
  rcases Fallible.bind_iff.mp hr with ⟨rfl, hp⟩ | ⟨e, rfl, hp⟩ | ⟨a, v, hp, hf⟩
  · obtain ⟨o', ho, hx⟩ := Fallible.mapError_iff.mp hp
    cases o' <;> cases ho
    exact .stopped hx
  · obtain ⟨o', ho, hx⟩ := Fallible.mapError_iff.mp hp
    rcases o' with _ | ⟨e' | a⟩ <;> cases ho
    exact .failed hx
  · obtain ⟨o', ho, hx⟩ := Fallible.mapError_iff.mp hp
    rcases o' with _ | ⟨e' | a'⟩ <;> cases ho
    exact .next hx (hnext v o u hf)

/-- A failed run: the stages before the failing one succeeded in order, the
failing one is the last that ran, and the error carries its label. -/
theorem Staged.error {stages : List ι} {w u : W} {d : δ}
    (h : Staged env operation label stages w (some (.error d)) u) :
    ∃ done i rest v e, stages = done ++ i :: rest ∧ d = label i e ∧
      Staged env operation label done w (some (.ok ())) v ∧
      Fallible.Runs env (operation i) v (some (.error e)) u := by
  generalize ho : some (.error d : Except δ Unit) = o at h
  induction h with
  | finished w => cases ho
  | stopped hr => cases ho
  | @failed i rest w u e hr =>
    cases ho
    exact ⟨[], i, rest, w, e, rfl, rfl, .finished w, hr⟩
  | @next i rest w v u o hr _ ih =>
    obtain ⟨done, j, rest', x, e, rfl, hd, hdone, hfail⟩ := ih ho
    exact ⟨i :: done, j, rest', x, e, rfl, hd, .next hr hdone, hfail⟩

/-- A relation for each label, composed along a list. -/
inductive Steps (R : ι → C → C → Prop) : List ι → C → C → Prop where
  | nil (c : C) : Steps R [] c c
  | cons {i : ι} {rest : List ι} {c d e : C} :
      R i c d → Steps R rest d e → Steps R (i :: rest) c e

theorem Steps.cons_iff {R : ι → C → C → Prop} {i : ι} {rest : List ι} {c e : C} :
    Steps R (i :: rest) c e ↔ ∃ d, R i c d ∧ Steps R rest d e := by
  constructor
  · intro h
    cases h with
    | cons hi hrest => exact ⟨_, hi, hrest⟩
  · rintro ⟨d, hi, hrest⟩
    exact .cons hi hrest

theorem Steps.nil_iff {R : ι → C → C → Prop} {c e : C} : Steps R [] c e ↔ e = c := by
  constructor
  · intro h
    cases h
    rfl
  · rintro rfl
    exact .nil e

/-- The state between two parts of a composition. -/
theorem Steps.append_iff {R : ι → C → C → Prop} {first rest : List ι} {c e : C} :
    Steps R (first ++ rest) c e ↔ ∃ d, Steps R first c d ∧ Steps R rest d e := by
  induction first generalizing c with
  | nil =>
    constructor
    · intro h
      exact ⟨c, .nil c, h⟩
    · rintro ⟨d, hfirst, hrest⟩
      obtain rfl := Steps.nil_iff.mp hfirst
      exact hrest
  | cons i first ih =>
    simp only [List.cons_append, Steps.cons_iff, ih]
    constructor
    · rintro ⟨b, hi, d, hfirst, hrest⟩
      exact ⟨d, ⟨b, hi, hfirst⟩, hrest⟩
    · rintro ⟨d, ⟨b, hi, hfirst⟩, hrest⟩
      exact ⟨b, hi, d, hfirst, hrest⟩

/-- A step that is only there under a condition. -/
theorem Steps.optional {R : ι → C → C → Prop} {b : Prop} [Decidable b] {i : ι} {rest : List ι}
    {c e : C} (h : Steps R ((if b then [i] else []) ++ rest) c e) :
    ∃ d, (b ∧ R i c d ∨ ¬ b ∧ d = c) ∧ Steps R rest d e := by
  by_cases hb : b
  · rw [if_pos hb] at h
    obtain ⟨d, hi, hrest⟩ := Steps.cons_iff.mp h
    exact ⟨d, .inl ⟨hb, hi⟩, hrest⟩
  · rw [if_neg hb] at h
    exact ⟨c, .inr ⟨hb, rfl⟩, h⟩

/-- The effects of a completed run follow each other. -/
theorem Staged.steps {R : ι → C → C → Prop} (part : W → C) {stages : List ι} {w u : W}
    (hR : ∀ i ∈ stages, ∀ w u, Fallible.Runs env (operation i) w (some (.ok ())) u →
      R i (part w) (part u))
    (h : Staged env operation label stages w (some (.ok ())) u) :
    Steps R stages (part w) (part u) := by
  generalize ho : some (.ok () : Except δ Unit) = o at h
  induction h with
  | finished w => exact .nil (part w)
  | stopped hr => cases ho
  | failed hr => cases ho
  | @next i rest w v u o hr _ ih =>
    have hhead := hR i (by simp) w v hr
    exact .cons hhead (ih (fun j hj => hR j (List.mem_cons_of_mem i hj)) ho)

end Staged

/-- A run from `pre` is in `always` wherever it ends or is stopped, and its
result, an error as well, satisfies `post` together with the world. -/
def Prog.Ensures (env : Env A W) (pre : W → Prop) (p : Prog A α) (always : W → Prop) (post : α → W → Prop) : Prop :=
  ∀ w o u, pre w → Run env p w o u → always u ∧ ∀ a, o = some a → post a u

namespace Prog.Ensures

variable {env : Env A W} {pre always : W → Prop}

theorem pure {post : α → W → Prop} {a : α} (h : ∀ w, pre w → always w ∧ post a w) :
    Ensures env pre (.pure a) always post := by
  intro w o u hw hr
  obtain ⟨rfl, rfl⟩ := Run.pure_iff.mp hr
  refine ⟨(h u hw).1, fun b hb => ?_⟩
  cases hb
  exact (h u hw).2

/-- The rule of a request, whose answers lead to a middle world. -/
theorem ask {post : α → W → Prop} {q : Q} {next : A q → Prog A α} {M : A q → W → Prop}
    (halways : ∀ w, pre w → always w) (hstep : ∀ w r v, pre w → env q w r v → M r v)
    (hnext : ∀ r, Ensures env (M r) (next r) always post) : Ensures env pre (.ask q next) always post := by
  intro w o u hw hr
  rcases Run.ask_iff.mp hr with ⟨rfl, rfl⟩ | ⟨r, v, he, hx⟩
  · exact ⟨halways u hw, fun a ha => nomatch ha⟩
  · exact hnext r v o u (hstep w r v hw he) hx

/-- The rule of a request whose answer is the result. -/
theorem request {q : Q} {post : A q → W → Prop} (halways : ∀ w, pre w → always w)
    (hstep : ∀ w r v, pre w → env q w r v → always v ∧ post r v) :
    Ensures env pre (Prog.request q) always post :=
  ask halways hstep fun _ => pure fun _ hw => hw

/-- The rule of sequencing. -/
theorem bind {p : Prog A α} {f : α → Prog A β} {P : α → W → Prop} {post : β → W → Prop}
    (hp : Ensures env pre p always P) (hf : ∀ a, Ensures env (P a) (f a) always post) :
    Ensures env pre (p >>= f) always post := by
  intro w o u hw hr
  rcases Run.bind_iff.mp hr with ⟨rfl, hp'⟩ | ⟨a, v, hp', hf'⟩
  · exact ⟨(hp w _ u hw hp').1, fun b hb => nomatch hb⟩
  · exact hf a v o u ((hp w _ v hw hp').2 a rfl) hf'

/-- The rule of consequence. -/
theorem weaken {p : Prog A α} {pre' always' : W → Prop} {post post' : α → W → Prop}
    (hp : Ensures env pre p always post) (hpre : ∀ w, pre' w → pre w) (halways : ∀ w, always w → always' w)
    (hpost : ∀ a w, post a w → post' a w) : Ensures env pre' p always' post' := by
  intro w o u hw hr
  obtain ⟨hu, hresult⟩ := hp w o u (hpre w hw) hr
  exact ⟨halways u hu, fun a ha => hpost a u (hresult a ha)⟩

/-- An environment that does less has fewer runs. -/
theorem restrict {env' : Env A W} {p : Prog A α} {post : α → W → Prop} (hp : Ensures env pre p always post)
    (henv : ∀ q w r v, env' q w r v → env q w r v) : Ensures env' pre p always post :=
  fun w o u hw hr => hp w o u hw (hr.mono henv)

/-- The worlds of a precondition, one at a time, with what is known of them. -/
theorem each {p : Prog A α} {post : α → W → Prop}
    (h : ∀ w, pre w → ∃ pre', pre' w ∧ Ensures env pre' p always post) : Ensures env pre p always post := by
  intro w o u hw hr
  obtain ⟨pre', hw', hp⟩ := h w hw
  exact hp w o u hw' hr

/-- The rule of sequencing for a program that may fail: an error passes the
rest by. -/
theorem andThen {p : Fallible A ε α} {f : α → Fallible A ε β} {P : Except ε α → W → Prop}
    {post : Except ε β → W → Prop} (hp : Ensures env pre p always P)
    (hf : ∀ a, Ensures env (P (.ok a)) (f a) always post)
    (herror : ∀ e w, P (.error e) w → always w ∧ post (.error e) w) :
    Ensures env pre (p >>= f : Fallible A ε β) always post := by
  refine bind (f := ExceptT.bindCont f) hp fun r => ?_
  cases r with
  | error e => exact pure (herror e)
  | ok a => exact hf a

/-- The rule of a request whose answer is a value of a program that may fail. -/
theorem askValue {q : Q} {f : A q → Fallible A ε β} {M : A q → W → Prop} {post : Except ε β → W → Prop}
    (halways : ∀ w, pre w → always w) (hstep : ∀ w r v, pre w → env q w r v → M r v)
    (hnext : ∀ r, Ensures env (M r) (f r) always post) :
    Ensures env pre ((Prog.ask q fun r => .pure (.ok r) : Fallible A ε (A q)) >>= f : Fallible A ε β) always post :=
  ask halways hstep hnext

/-- The rule of sequencing from one world. -/
theorem next {p : Fallible A ε α} {f : α → Fallible A ε β} {w : W} {P : Except ε α → W → Prop}
    {post : Except ε β → W → Prop} (hp : Ensures env (fun v => v = w) p always P)
    (hf : ∀ a v, P (.ok a) v → Ensures env (fun x => x = v) (f a) always post)
    (herror : ∀ e v, P (.error e) v → always v ∧ post (.error e) v) :
    Ensures env (fun v => v = w) (p >>= f : Fallible A ε β) always post :=
  andThen hp (fun a => each fun v hv => ⟨fun x => x = v, rfl, hf a v hv⟩) herror

/-- The rule of a request from one world, whose answer is a value. -/
theorem askNext {q : Q} {f : A q → Fallible A ε β} {w : W} {post : Except ε β → W → Prop}
    (halways : always w) (hf : ∀ r v, env q w r v → Ensures env (fun x => x = v) (f r) always post) :
    Ensures env (fun v => v = w)
      ((Prog.ask q fun r => .pure (.ok r) : Fallible A ε (A q)) >>= f : Fallible A ε β) always post :=
  askValue (M := fun r v => env q w r v) (fun _ hv => hv ▸ halways) (fun _ _ _ hv he => hv ▸ he)
    fun r => each fun v hv => ⟨fun x => x = v, rfl, hf r v hv⟩

/-- The rule of a translated error. -/
theorem mapError {p : Fallible A ε α} {f : ε → δ} {post : Except δ α → W → Prop}
    (hp : Ensures env pre p always fun r w => post (r.mapError f) w) :
    Ensures env pre (Interaction.mapError f p) always post := by
  intro w o u hw hr
  obtain ⟨o', rfl, hr'⟩ := Fallible.mapError_iff.mp hr
  obtain ⟨hu, hpost⟩ := hp w o' u hw hr'
  refine ⟨hu, ?_⟩
  intro r hr
  obtain ⟨r', rfl, rfl⟩ := Option.map_eq_some_iff.mp hr
  exact hpost r' rfl

/-- What all handlers of the requests keep is kept by the interpreted program. -/
theorem interpret {Q' : Type} {A' : Q' → Type} {handler : (q : Q') → Prog A (A' q)}
    (h : ∀ q, Ensures env always (handler q) always fun _ => always) (p : Prog A' α) :
    Ensures env always (p.interpret handler) always fun _ => always := by
  induction p with
  | pure a => exact pure fun w hw => ⟨hw, hw⟩
  | ask q next ih => exact bind (h q) fun r => ih r

/-- The rule of a program that only looks. -/
theorem of_only {p : Prog A α} {w : W} (hp : p.Only fun q => ∀ v r x, env q v r x → x = v) :
    Ensures env (fun v => v = w) p (fun v => v = w) fun _ v => v = w := by
  rintro _ o u rfl hr
  have hu := Run.preserves (I := fun v => v = _) (fun q v r x hq hv he => (hq v r x he).trans hv) hp hr rfl
  exact ⟨hu, fun _ _ => hu⟩

end Prog.Ensures

end Interaction
