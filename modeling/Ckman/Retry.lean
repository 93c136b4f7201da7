import Ckman.InteractionLogic

/-!
# Trying again with a credential

An operation may be open to everyone or protected, and only its outcome tells.
It is tried without a credential first; an error that asks for one is answered
by obtaining the credential and by a single second try.
-/
namespace Interaction

variable {Q : Type} {A : Q → Type} {W α γ δ ε : Type}

/-- Try without a credential and, when the error asks for one, once more with it. -/
def retryWith (needs : ε → Bool) (describe : ε → δ) (credential : Fallible A δ γ)
    (operation : Option γ → Fallible A ε α) : Fallible A δ α :=
  Prog.bind (operation none) fun
    | .ok a => .pure (.ok a)
    | .error e =>
      if needs e then (credential >>= fun c => mapError describe (operation (some c)) : Fallible A δ α)
      else .pure (.error (describe e))

section

variable {env : Env A W} {needs : ε → Bool} {describe : ε → δ} {credential : Fallible A δ γ}
  {operation : Option γ → Fallible A ε α} {w u : W} {o : Option (Except δ α)}

/-- The first try decided, or it asked for a credential which was not obtained,
or the second try decided. -/
theorem retryWith_iff : Fallible.Runs env (retryWith needs describe credential operation) w o u ↔
    (∃ o', Fallible.Runs env (operation none) w o' u ∧ o = o'.map (Except.mapError describe) ∧
      ∀ e, o' = some (.error e) → needs e = false) ∨
    ∃ e v, Fallible.Runs env (operation none) w (some (.error e)) v ∧ needs e = true ∧
      ((o = none ∧ Fallible.Runs env credential v none u) ∨
       (∃ d, o = some (.error d) ∧ Fallible.Runs env credential v (some (.error d)) u) ∨
       ∃ c x o', Fallible.Runs env credential v (some (.ok c)) x ∧
        Fallible.Runs env (operation (some c)) x o' u ∧ o = o'.map (Except.mapError describe)) := by
  refine Run.bind_iff.trans ?_
  constructor
  · rintro (⟨rfl, h⟩ | ⟨r, v, h, hrest⟩)
    · exact .inl ⟨none, h, rfl, nofun⟩
    · cases r with
      | ok a =>
        obtain ⟨rfl, rfl⟩ := Run.pure_iff.mp hrest
        exact .inl ⟨some (.ok a), h, rfl, nofun⟩
      | error e =>
        cases hneeds : needs e with
        | false =>
          simp only [hneeds, Bool.false_eq_true, if_false] at hrest
          obtain ⟨rfl, rfl⟩ := Run.pure_iff.mp hrest
          refine .inl ⟨some (.error e), h, rfl, ?_⟩
          intro e' he
          cases he
          exact hneeds
        | true =>
          simp only [hneeds, if_true] at hrest
          refine .inr ⟨e, v, h, hneeds, ?_⟩
          refine (Fallible.bind_iff.mp hrest).imp id (Or.imp id ?_)
          rintro ⟨c, x, hc, hop⟩
          obtain ⟨o', ho, hop⟩ := Fallible.mapError_iff.mp hop
          exact ⟨c, x, o', hc, hop, ho⟩
  · rintro (⟨o', h, rfl, hno⟩ | ⟨e, v, h, hneeds, hrest⟩)
    · rcases o' with _ | e | a
      · exact .inl ⟨rfl, h⟩
      · refine .inr ⟨.error e, u, h, ?_⟩
        simp only [hno e rfl, Bool.false_eq_true, if_false]
        exact .done _ _
      · exact .inr ⟨.ok a, u, h, .done _ _⟩
    · refine .inr ⟨.error e, v, h, ?_⟩
      simp only [hneeds, if_true]
      refine Fallible.bind_iff.mpr (hrest.imp id (Or.imp id ?_))
      rintro ⟨c, x, o', hc, hop, rfl⟩
      exact ⟨c, x, hc, Fallible.mapError_iff.mpr ⟨o', rfl, hop⟩⟩

/-- The rule of a second try: the first one either decides or leads to a world
in which the credential is asked for. -/
theorem retryWith_ensures {pre always M : W → Prop} {P : γ → W → Prop} {post : Except δ α → W → Prop}
    (hfirst : Prog.Ensures env pre (operation none) always fun r w =>
      (∀ a, r = .ok a → post (.ok a) w) ∧
        ∀ e, r = .error e → if needs e then M w else post (.error (describe e)) w)
    (hcredential : Prog.Ensures env M credential always fun r w =>
      (∀ c, r = .ok c → P c w) ∧ ∀ d, r = .error d → post (.error d) w)
    (hsecond : ∀ c, Prog.Ensures env (P c) (operation (some c)) always fun r w =>
      post (r.mapError describe) w) :
    Prog.Ensures env pre (retryWith needs describe credential operation) always post := by
  intro w o u hw hr
  rcases retryWith_iff.mp hr with ⟨o', h, rfl, hno⟩ | ⟨e, v, h, hneeds, hrest⟩
  · obtain ⟨halways, hpost⟩ := hfirst w o' u hw h
    refine ⟨halways, ?_⟩
    intro r hr
    rcases o' with _ | e | a
    · cases hr
    · cases hr
      have := (hpost _ rfl).2 e rfl
      rwa [hno e rfl] at this
    · cases hr
      exact (hpost _ rfl).1 a rfl
  · have hmid : M v := by
      have := ((hfirst w _ v hw h).2 _ rfl).2 e rfl
      rwa [hneeds] at this
    rcases hrest with ⟨rfl, hc⟩ | ⟨d, rfl, hc⟩ | ⟨c, x, o', hc, hop, rfl⟩
    · exact ⟨(hcredential v _ u hmid hc).1, nofun⟩
    · obtain ⟨halways, hpost⟩ := hcredential v _ u hmid hc
      refine ⟨halways, ?_⟩
      intro r hr
      cases hr
      exact (hpost _ rfl).2 d rfl
    · have hx : P c x := ((hcredential v _ x hmid hc).2 _ rfl).1 c rfl
      obtain ⟨halways, hpost⟩ := hsecond c x o' u hx hop
      refine ⟨halways, ?_⟩
      intro r hr
      rcases o' with _ | r'
      · cases hr
      · cases hr
        exact hpost r' rfl

end

end Interaction
