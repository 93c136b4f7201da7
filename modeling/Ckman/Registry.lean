import Ckman.InteractionLogic
import Mathlib.Logic.Function.Basic

/-!
# Registries

A registry holds a value under every key in use. A key is taken only when it is
free, so an entry can be followed through any history of changes: it keeps its
value under the key that the changes have given to it, until it is erased.
-/
namespace Registry

open Interaction (Steps)

variable {K V : Type}

inductive Change (K V : Type) where
  | stay
  | insert (key : K) (value : V)
  | move (old new : K)
  | erase (key : K)
  | clear
  deriving DecidableEq, Repr

variable [DecidableEq K]

inductive Step : Change K V → (K → Option V) → (K → Option V) → Prop where
  | stay (s : K → Option V) : Step .stay s s
  | insert {s : K → Option V} {key : K} (value : V) :
      s key = none → Step (.insert key value) s (Function.update s key (some value))
  | move {s : K → Option V} {old new : K} {value : V} : s old = some value → s new = none →
      Step (.move old new) s (Function.update (Function.update s old none) new (some value))
  | erase {s : K → Option V} {key : K} {value : V} :
      s key = some value → Step (.erase key) s (Function.update s key none)
  | clear (s : K → Option V) : Step .clear s fun _ => none

/-- The key of an entry after a change, unless it is gone. -/
def Change.follow : Change K V → K → Option K
  | .stay, key => some key
  | .insert _ _, key => some key
  | .move old new, key => some (if key = old then new else key)
  | .erase erased, key => if key = erased then none else some key
  | .clear, _ => none

/-- The key of an entry after a history. -/
def trail : List (Change K V) → K → Option K
  | [], key => some key
  | change :: changes, key => (change.follow key).bind (trail changes)

variable {change : Change K V} {changes : List (Change K V)} {s t : K → Option V} {key key' other : K}
  {v : V}

/-- An entry that is followed keeps its value. -/
theorem Step.value (h : Step change s t) (hkey : s key = some v) (hfollow : change.follow key = some key') :
    t key' = some v := by
  cases h with
  | stay =>
    cases hfollow
    exact hkey
  | @insert _ fresh _ hfresh =>
    cases hfollow
    rw [Function.update_of_ne (by rintro rfl; rw [hfresh] at hkey; cases hkey), hkey]
  | @move _ old new _ hold hnew =>
    simp only [Change.follow, Option.some.injEq] at hfollow
    subst hfollow
    by_cases h : key = old
    · subst h
      rw [if_pos rfl, Function.update_self, ← hold, hkey]
    · rw [if_neg h, Function.update_of_ne (by rintro rfl; rw [hnew] at hkey; cases hkey),
        Function.update_of_ne h, hkey]
  | @erase _ erased _ herased =>
    simp only [Change.follow] at hfollow
    split at hfollow
    · cases hfollow
    · rename_i h
      cases hfollow
      rw [Function.update_of_ne h, hkey]
  | clear => cases hfollow

/-- Two entries do not come under one key. -/
theorem Step.injective (h : Step change s t) (hkey : s key ≠ none) (hother : s other ≠ none)
    (hfollow : change.follow key = some key') (hfollow' : change.follow other = some key') : key = other := by
  cases h with
  | stay => exact Option.some.inj (hfollow.trans hfollow'.symm)
  | insert => exact Option.some.inj (hfollow.trans hfollow'.symm)
  | @move _ old new _ hold hnew =>
    simp only [Change.follow, Option.some.injEq] at hfollow hfollow'
    split at hfollow <;> split at hfollow'
    · rename_i hk ho
      exact hk.trans ho.symm
    · exact absurd ((congrArg s (hfollow'.trans hfollow.symm)).trans hnew) hother
    · exact absurd ((congrArg s (hfollow.trans hfollow'.symm)).trans hnew) hkey
    · exact hfollow.trans hfollow'.symm
  | erase =>
    simp only [Change.follow] at hfollow hfollow'
    split at hfollow <;> split at hfollow' <;> simp_all
  | clear => cases hfollow

/-- An entry after a change was there before it or has just been inserted. -/
theorem Step.origin (h : Step change s t) (hkey : t key' = some v) :
    (∃ key, s key = some v ∧ change.follow key = some key') ∨ change = .insert key' v := by
  cases h with
  | stay => exact .inl ⟨key', hkey, rfl⟩
  | @insert _ fresh _ hfresh =>
    by_cases h : key' = fresh
    · subst h
      rw [Function.update_self] at hkey
      cases hkey
      exact .inr rfl
    · rw [Function.update_of_ne h] at hkey
      exact .inl ⟨key', hkey, rfl⟩
  | @move _ old new _ hold hnew =>
    by_cases h : key' = new
    · subst h
      rw [Function.update_self] at hkey
      exact .inl ⟨old, hold.trans hkey, by rw [Change.follow, if_pos rfl]⟩
    · rw [Function.update_of_ne h] at hkey
      by_cases ho : key' = old
      · subst ho
        rw [Function.update_self] at hkey
        cases hkey
      · rw [Function.update_of_ne ho] at hkey
        exact .inl ⟨key', hkey, by rw [Change.follow, if_neg ho]⟩
  | @erase _ erased _ herased =>
    by_cases h : key' = erased
    · subst h
      rw [Function.update_self] at hkey
      cases hkey
    · rw [Function.update_of_ne h] at hkey
      exact .inl ⟨key', hkey, by rw [Change.follow, if_neg h]⟩
  | clear => cases hkey

theorem Steps.value (h : Steps Step changes s t) (hkey : s key = some v)
    (htrail : trail changes key = some key') : t key' = some v := by
  induction h generalizing key with
  | nil s =>
    cases htrail
    exact hkey
  | @cons change changes s r t hstep _ ih =>
    obtain ⟨middle, hfollow, hrest⟩ := Option.bind_eq_some_iff.mp htrail
    exact ih (hstep.value hkey hfollow) hrest

theorem Steps.injective (h : Steps Step changes s t) (hkey : s key ≠ none) (hother : s other ≠ none)
    (htrail : trail changes key = some key') (htrail' : trail changes other = some key') : key = other := by
  induction h generalizing key other with
  | nil s => exact Option.some.inj (htrail.trans htrail'.symm)
  | @cons change changes s r t hstep _ ih =>
    obtain ⟨middle, hfollow, hrest⟩ := Option.bind_eq_some_iff.mp htrail
    obtain ⟨middle', hfollow', hrest'⟩ := Option.bind_eq_some_iff.mp htrail'
    obtain ⟨v, hv⟩ := Option.ne_none_iff_exists'.mp hkey
    obtain ⟨v', hv'⟩ := Option.ne_none_iff_exists'.mp hother
    have hmiddle : r middle ≠ none := by rw [hstep.value hv hfollow]; exact Option.some_ne_none v
    have hmiddle' : r middle' ≠ none := by rw [hstep.value hv' hfollow']; exact Option.some_ne_none v'
    obtain rfl := ih hmiddle hmiddle' hrest hrest'
    exact hstep.injective hkey hother hfollow hfollow'

/-- An entry after a history was there before it, or an insertion of the
history has brought it. -/
theorem Steps.origin (h : Steps Step changes s t) (hkey : t key' = some v) :
    (∃ key, s key = some v ∧ trail changes key = some key') ∨
      ∃ before key after, changes = before ++ .insert key v :: after ∧ trail after key = some key' := by
  induction h with
  | nil s => exact .inl ⟨key', hkey, rfl⟩
  | @cons change changes s r t hstep _ ih =>
    rcases ih hkey with ⟨middle, hmiddle, htrail⟩ | ⟨before, fresh, after, rfl, htrail⟩
    · rcases hstep.origin hmiddle with ⟨start, hstart, hfollow⟩ | rfl
      · exact .inl ⟨start, hstart, Option.bind_eq_some_iff.mpr ⟨middle, hfollow, htrail⟩⟩
      · exact .inr ⟨[], middle, changes, rfl, htrail⟩
    · exact .inr ⟨change :: before, fresh, after, rfl, htrail⟩

/-- An entry that is gone was erased under the key that it had then. -/
theorem gone {changes : List (Change K V)} {key : K} (h : trail changes key = none) :
    ∃ before change after middle, changes = before ++ change :: after ∧ trail before key = some middle ∧
      (change = .clear ∨ change = .erase middle) := by
  induction changes generalizing key with
  | nil => cases h
  | cons change changes ih =>
    cases hfollow : change.follow key with
    | none =>
      refine ⟨[], change, changes, key, rfl, rfl, ?_⟩
      cases change with
      | clear => exact .inl rfl
      | erase erased =>
        simp only [Change.follow] at hfollow
        split at hfollow
        · rename_i heq
          exact .inr (congrArg _ heq.symm)
        · cases hfollow
      | stay | insert fresh value | move old new => cases hfollow
    | some next =>
      rw [trail, hfollow, Option.bind_some] at h
      obtain ⟨before, erasing, after, middle, rfl, htrail, herases⟩ := ih h
      exact ⟨change :: before, erasing, after, middle, rfl, by rw [trail, hfollow, Option.bind_some, htrail],
        herases⟩

end Registry
