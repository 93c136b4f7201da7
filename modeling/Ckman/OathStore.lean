import Ckman.OathCard
import Ckman.Registry
import Mathlib.Data.Multiset.MapFold

/-!
# The account store

The accounts of the applet as a registry: under each name what was stored there,
without the counter, which calculations advance. Each operation of the applet is
one change of the registry.
-/
namespace OathCard

open Registry
open Host (Bytes)
open Oath (Algorithm Credential Kind Name)

structure Material where
  kind : Kind
  algorithm : Algorithm
  digits : UInt8
  secret : Bytes
  requireTouch : Bool
  increasing : Bool
  deriving DecidableEq, Repr

def materialOf (credential : Credential) : Material :=
  ⟨credential.kind, credential.algorithm, credential.digits, credential.secret,
    credential.requireTouch, credential.increasing⟩

abbrev Store := Name → Option Material

/-- No two accounts have one name, and the store holds each under its name. -/
structure Represents (accounts : Multiset Credential) (store : Store) : Prop where
  nodup : (accounts.map Credential.name).Nodup
  lookup : ∀ name material, store name = some material ↔
    ∃ credential ∈ accounts, credential.name = name ∧ materialOf credential = material

variable {accounts rest : Multiset Credential} {store : Store} {credential : Credential} {name : Name}

theorem Represents.eq_none_iff (h : Represents accounts store) :
    store name = none ↔ ∀ credential ∈ accounts, credential.name ≠ name := by
  rw [Option.eq_none_iff_forall_ne_some]
  constructor
  · rintro hnone credential hmem rfl
    exact hnone (materialOf credential) ((h.lookup _ _).mpr ⟨credential, hmem, rfl, rfl⟩)
  · intro hfree material hsome
    obtain ⟨credential, hmem, hname, -⟩ := (h.lookup _ _).mp hsome
    exact hfree credential hmem hname

theorem Represents.empty : Represents 0 fun _ => none := ⟨Multiset.nodup_zero, by simp⟩

theorem Represents.insert (credential : Credential) (h : Represents accounts store)
    (hfree : ∀ other ∈ accounts, other.name ≠ credential.name) :
    Represents (credential ::ₘ accounts)
      (Function.update store credential.name (some (materialOf credential))) := by
  refine ⟨?_, fun name material => ?_⟩
  · rw [Multiset.map_cons, Multiset.nodup_cons]
    refine ⟨fun hmem => ?_, h.nodup⟩
    obtain ⟨other, hother, hname⟩ := Multiset.mem_map.mp hmem
    exact hfree other hother hname
  · simp only [Multiset.mem_cons, exists_eq_or_imp]
    by_cases hname : name = credential.name
    · subst hname
      rw [Function.update_self, Option.some.injEq]
      refine ⟨fun hm => .inl ⟨rfl, hm⟩, ?_⟩
      rintro (⟨-, hm⟩ | ⟨other, hother, hname, -⟩)
      · exact hm
      · exact absurd hname (hfree other hother)
    · rw [Function.update_of_ne hname, h.lookup]
      exact ⟨.inr, fun hor => hor.resolve_left fun hc => hname hc.1.symm⟩

/-- An account of the applet is in the store, and without it the rest is left. -/
theorem Represents.erase (h : Represents (credential ::ₘ rest) store) :
    store credential.name = some (materialOf credential) ∧
      Represents rest (Function.update store credential.name none) := by
  have hnodup := h.nodup
  rw [Multiset.map_cons, Multiset.nodup_cons] at hnodup
  have hother : ∀ other ∈ rest, other.name ≠ credential.name := fun other hmem hname =>
    hnodup.1 (Multiset.mem_map.mpr ⟨other, hmem, hname⟩)
  refine ⟨(h.lookup _ _).mpr ⟨credential, Multiset.mem_cons_self _ _, rfl, rfl⟩, hnodup.2, fun name material => ?_⟩
  by_cases hname : name = credential.name
  · subst hname
    rw [Function.update_self]
    refine ⟨nofun, ?_⟩
    rintro ⟨other, hmem, hsame, -⟩
    exact absurd hsame (hother other hmem)
  · rw [Function.update_of_ne hname, h.lookup]
    simp only [Multiset.mem_cons, exists_eq_or_imp]
    exact ⟨fun hor => hor.resolve_left fun hc => hname hc.1.symm, .inr⟩

/-- A counter is no part of the store. -/
theorem Represents.advance {counter : UInt32} (h : Represents (credential ::ₘ rest) store) :
    Represents ({ credential with initialCounter := counter } ::ₘ rest) store := by
  obtain ⟨hsome, hrest⟩ := h.erase
  have hfree := hrest.eq_none_iff.mp (Function.update_self credential.name none store)
  have hsame := hrest.insert { credential with initialCounter := counter } hfree
  rwa [Function.update_idem, show some (materialOf { credential with initialCounter := counter }) =
    store credential.name from hsome.symm, Function.update_eq_self] at hsame

/-- Accounts with different names have a store. -/
theorem exists_represents (hnodup : (accounts.map Credential.name).Nodup) :
    ∃ store, Represents accounts store := by
  induction accounts using Multiset.induction with
  | empty => exact ⟨_, .empty⟩
  | cons credential rest ih =>
    rw [Multiset.map_cons, Multiset.nodup_cons] at hnodup
    obtain ⟨store, hstore⟩ := ih hnodup.2
    refine ⟨_, hstore.insert credential fun other hmem hname => ?_⟩
    exact hnodup.1 (Multiset.mem_map.mpr ⟨other, hmem, hname⟩)

def changeOf : Operation → Change Name Material
  | .put credential => .insert credential.name (materialOf credential)
  | .rename old new => .move old new
  | .delete name => .erase name
  | _ => .stay

/-- The accounts go through one change, whatever store they have. -/
def Changes (change : Change Name Material) (accounts accounts' : Multiset Credential) : Prop :=
  ∀ store, Represents accounts store → ∃ store', Step change store store' ∧ Represents accounts' store'

theorem Changes.stay (accounts : Multiset Credential) : Changes .stay accounts accounts :=
  fun store h => ⟨store, .stay store, h⟩

theorem Changes.clear (accounts : Multiset Credential) : Changes .clear accounts 0 :=
  fun store _ => ⟨_, .clear store, .empty⟩

/-- A change and then none. -/
theorem Changes.stays {change : Change Name Material} {accounts accounts' accounts'' : Multiset Credential}
    (h : Changes change accounts accounts') (h' : Changes .stay accounts' accounts'') :
    Changes change accounts accounts'' := by
  intro store hstore
  obtain ⟨store', hstep, hstore'⟩ := h store hstore
  obtain ⟨store'', hstay, hstore''⟩ := h' store' hstore'
  cases hstay
  exact ⟨store', hstep, hstore''⟩

/-- A performed operation is its change of the store, if the new name of a
renamed account is free: the applet itself does not see to that. -/
theorem Target.changes {operation : Operation} {c d : Card} {outcome : Outcome}
    (h : Target operation c outcome d)
    (hfree : ∀ old new, operation = .rename old new → ∀ other ∈ c.accounts, other.name ≠ new) :
    Changes (changeOf operation) c.accounts d.accounts := by
  intro store hstore
  cases operation with
  | put credential =>
    obtain ⟨-, hfresh, rfl⟩ := h
    exact ⟨_, .insert _ (hstore.eq_none_iff.mpr hfresh), hstore.insert credential hfresh⟩
  | rename old new =>
    obtain ⟨-, credential, rest, haccounts, rfl, rfl⟩ := h
    rw [haccounts] at hstore
    obtain ⟨hsome, hrest⟩ := hstore.erase
    have hnew : ∀ other ∈ credential ::ₘ rest, other.name ≠ new :=
      haccounts ▸ hfree credential.name new rfl
    refine ⟨_, .move hsome (hstore.eq_none_iff.mpr hnew), ?_⟩
    exact hrest.insert { credential with name := new } fun other hmem => hnew other (Multiset.mem_cons_of_mem hmem)
  | delete name =>
    obtain ⟨-, credential, rest, haccounts, rfl, rfl⟩ := h
    rw [haccounts] at hstore
    obtain ⟨hsome, hrest⟩ := hstore.erase
    exact ⟨_, .erase hsome, hrest⟩
  | calculate reference challenge format =>
    obtain ⟨credential, rest, counter, haccounts, -, rfl⟩ := h
    rw [haccounts] at hstore
    exact ⟨store, .stay store, hstore.advance⟩
  | setCode key challenge =>
    obtain ⟨-, handle, -, rfl⟩ := h
    exact ⟨store, .stay store, hstore⟩
  | clearCode =>
    obtain ⟨-, handle, -, rfl⟩ := h
    exact ⟨store, .stay store, hstore⟩
  | select | validate | list | setDefault slot enter name =>
    obtain ⟨rfl, -⟩ := h
    exact ⟨store, .stay store, hstore⟩
  | getSerial | challengeResponseHmac slot challenge =>
    cases h
    exact ⟨store, .stay store, hstore⟩

end OathCard
