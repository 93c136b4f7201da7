import Ckman.Text
import Mathlib.Data.List.Flatten
import Mathlib.Data.List.Infix

/-!
# Searching in a text

`str::find`, `str::matches` and one-sided trimming. Positions count characters.
-/
namespace Text

variable {pat text : List Char}

/-- `str::find`: the position of the first occurrence. -/
def find (pat : List Char) : List Char → Option Nat
  | [] => if pat = [] then some 0 else none
  | c :: cs => if pat.isPrefixOf (c :: cs) then some 0 else (find pat cs).map (· + 1)

/-- `str::contains`. -/
def contains (pat text : List Char) : Bool := (find pat text).isSome

/-- `str::matches(_).count()`: after a match the search goes on behind it. -/
def countMatches (pat : List Char) : Nat → List Char → Nat
  | _, [] => 0
  | skip + 1, _ :: cs => countMatches pat skip cs
  | 0, c :: cs =>
    if pat.isPrefixOf (c :: cs) then countMatches pat (pat.length - 1) cs + 1
    else countMatches pat 0 cs

def occurrences (pat text : List Char) : Nat := text.tails.countP (pat.isPrefixOf ·)

def trimStart (cs : List Char) : List Char := cs.dropWhile isWhitespace

def trimEnd (cs : List Char) : List Char := cs.rdropWhile isWhitespace

/-- An occurrence ends within the text. -/
theorem find_le {n : Nat} (h : find pat text = some n) : n + pat.length ≤ text.length := by
  induction text generalizing n with
  | nil =>
    by_cases hp : pat = []
    · rw [find, if_pos hp] at h
      cases h
      rw [hp]
      exact Nat.le_refl _
    · rw [find, if_neg hp] at h
      cases h
  | cons c cs ih =>
    rw [find] at h
    by_cases hp : pat.isPrefixOf (c :: cs)
    · rw [if_pos hp] at h
      cases h
      rw [Nat.zero_add]
      exact (List.isPrefixOf_iff_prefix.mp hp).length_le
    · rw [if_neg hp] at h
      obtain ⟨m, hm, rfl⟩ := Option.map_eq_some_iff.mp h
      have := ih hm
      rw [List.length_cons]
      omega

theorem find_eq_some_iff {n : Nat} :
    find pat text = some n ↔ pat <+: text.drop n ∧ ∀ i < n, ¬ pat <+: text.drop i := by
  induction text generalizing n with
  | nil =>
    rw [find]
    constructor
    · intro h
      split_ifs at h with hp
      cases h
      rw [hp]
      exact ⟨List.nil_prefix, fun i hi => absurd hi (Nat.not_lt_zero i)⟩
    · rintro ⟨hp, hfirst⟩
      rw [List.drop_nil, List.prefix_nil] at hp
      rcases Nat.eq_zero_or_pos n with rfl | hn
      · rw [if_pos hp]
      · exact absurd (by rw [hp]; exact List.nil_prefix) (hfirst 0 hn)
  | cons c cs ih =>
    rw [find]
    by_cases hp : pat.isPrefixOf (c :: cs)
    · rw [if_pos hp]
      have hp := List.isPrefixOf_iff_prefix.mp hp
      constructor
      · intro h
        cases h
        exact ⟨hp, fun i hi => absurd hi (Nat.not_lt_zero i)⟩
      · rintro ⟨-, hfirst⟩
        rcases Nat.eq_zero_or_pos n with rfl | hn
        · rfl
        · exact absurd hp (hfirst 0 hn)
    · rw [if_neg hp, Option.map_eq_some_iff]
      have hp := mt List.isPrefixOf_iff_prefix.mpr hp
      constructor
      · rintro ⟨m, hm, rfl⟩
        obtain ⟨hpre, hfirst⟩ := ih.mp hm
        refine ⟨hpre, fun i hi => ?_⟩
        cases i with
        | zero => exact hp
        | succ i => exact hfirst i (by omega)
      · rintro ⟨hpre, hfirst⟩
        cases n with
        | zero => exact absurd hpre hp
        | succ n => exact ⟨n, ih.mpr ⟨hpre, fun i hi => hfirst (i + 1) (by omega)⟩, rfl⟩

theorem find_eq_none_iff : find pat text = none ↔ ¬ pat <:+: text := by
  induction text with
  | nil =>
    rw [find, List.infix_nil]
    split_ifs with hp <;> simp [hp]
  | cons c cs ih =>
    rw [find, List.infix_cons_iff, not_or, ← ih, ← List.isPrefixOf_iff_prefix]
    split_ifs with hp <;> simp [hp]

theorem contains_eq_false_iff : contains pat text = false ↔ find pat text = none := by
  rw [contains, Option.isSome_eq_false_iff, Option.isNone_iff_eq_none]

theorem contains_iff_infix : contains pat text = true ↔ pat <:+: text := by
  rw [← Bool.not_eq_false, contains_eq_false_iff, find_eq_none_iff, not_not]

theorem find_self_append (pat rest : List Char) : find pat (pat ++ rest) = some 0 :=
  find_eq_some_iff.mpr ⟨List.prefix_append _ _, fun i hi => absurd hi (Nat.not_lt_zero i)⟩

/-- Text without the first character of the pattern is passed over. -/
theorem find_append_of_not_mem {c : Char} {cs pre : List Char} (h : c ∉ pre) (rest : List Char) :
    find (c :: cs) (pre ++ rest) = (find (c :: cs) rest).map (· + pre.length) := by
  induction pre with
  | nil => simp
  | cons d ds ih =>
    rw [List.mem_cons, not_or] at h
    have hp : ¬ (c :: cs).isPrefixOf (d :: (ds ++ rest)) := by
      rw [List.isPrefixOf_iff_prefix, List.cons_prefix_cons]
      exact fun hp => h.1 hp.1
    rw [List.cons_append, find, if_neg hp, ih h.2, Option.map_map]
    rfl

theorem singleton_prefix_drop_iff {c : Char} {i : Nat} : [c] <+: text.drop i ↔ text[i]? = some c := by
  rw [← List.head?_drop]
  cases text.drop i with
  | nil => simp
  | cons d ds => simp [eq_comm]

theorem find_singleton_lt_iff {c : Char} {stop : Nat} :
    (∃ n < stop, find [c] text = some n) ↔ c ∈ text.take stop := by
  rw [List.mem_iff_getElem?]
  constructor
  · rintro ⟨n, hn, hfind⟩
    refine ⟨n, ?_⟩
    rw [List.getElem?_take_of_lt hn]
    exact singleton_prefix_drop_iff.mp (find_eq_some_iff.mp hfind).1
  · rintro ⟨i, hi⟩
    obtain ⟨hlt, hi⟩ : i < stop ∧ text[i]? = some c := by
      rw [List.getElem?_take] at hi
      split_ifs at hi with hlt
      exact ⟨hlt, hi⟩
    have hat := singleton_prefix_drop_iff.mpr hi
    cases hfind : find [c] text with
    | none => exact absurd (hat.isInfix.trans (List.drop_suffix _ _).isInfix) (find_eq_none_iff.mp hfind)
    | some n =>
      refine ⟨n, Nat.lt_of_not_le fun hle => ?_, rfl⟩
      exact (find_eq_some_iff.mp hfind).2 i (by omega) hat

/-- The first occurrence stays the first one when less than what precedes it is cut off. -/
theorem find_drop {n k : Nat} (h : find pat text = some n) (hk : k ≤ n) :
    find pat (text.drop k) = some (n - k) := by
  obtain ⟨hpre, hfirst⟩ := find_eq_some_iff.mp h
  refine find_eq_some_iff.mpr ⟨?_, fun i hi => ?_⟩
  · rwa [List.drop_drop, Nat.add_sub_cancel' hk]
  · rw [List.drop_drop]
    exact hfirst _ (by omega)

theorem find_drop_eq_none (h : find pat text = none) (k : Nat) : find pat (text.drop k) = none := by
  rw [find_eq_none_iff] at h ⊢
  exact fun hin => h (hin.trans (List.drop_suffix _ _).isInfix)

/-- No proper suffix of the pattern is a prefix of it. -/
def Unbordered (pat : List Char) : Prop :=
  ∀ k < pat.length, 0 < k → ¬ pat.drop k <+: pat

instance (pat : List Char) : Decidable (Unbordered pat) :=
  inferInstanceAs (Decidable (∀ k < pat.length, 0 < k → ¬ pat.drop k <+: pat))

/-- Text free of the pattern takes no part in an occurrence that follows it. -/
theorem find_append_of_free {pre : List Char} (hpat : Unbordered pat) (hfree : ¬ pat <:+: pre)
    (rest : List Char) : find pat (pre ++ (pat ++ rest)) = some pre.length := by
  refine find_eq_some_iff.mpr ⟨?_, fun i hi hp => ?_⟩
  · rw [List.drop_left]
    exact List.prefix_append _ _
  · rw [List.drop_append_of_le_length hi.le] at hp
    have hlen : (pre.drop i).length = pre.length - i := List.length_drop
    rcases Nat.lt_or_ge (pre.drop i).length pat.length with hlt | hge
    · have hborder := hp.drop (pre.drop i).length
      rw [List.drop_left] at hborder
      refine hpat _ hlt (by omega) ?_
      refine List.prefix_of_prefix_length_le hborder (List.prefix_append _ _) ?_
      rw [List.length_drop]
      exact Nat.sub_le _ _
    · have hhead := List.prefix_of_prefix_length_le hp (List.prefix_append _ _) hge
      exact hfree (hhead.isInfix.trans (List.drop_suffix _ _).isInfix)

/-- Within a match there is no further occurrence, so skipping it misses none. -/
theorem countMatches_skip (hpat : Unbordered pat) {k : Nat} (hk : 0 < k)
    (h : pat.drop k <+: text) :
    countMatches pat (pat.length - k) text = countMatches pat 0 text := by
  induction text generalizing k with
  | nil => cases pat.length - k <;> rfl
  | cons c cs ih =>
    rcases Nat.lt_or_ge k pat.length with hlt | hge
    · obtain ⟨skip, hskip⟩ : ∃ skip, pat.length - k = skip + 1 := ⟨pat.length - k - 1, by omega⟩
      have hnot : ¬ pat.isPrefixOf (c :: cs) := by
        intro hp
        refine hpat k hlt hk ?_
        refine List.prefix_of_prefix_length_le h (List.isPrefixOf_iff_prefix.mp hp) ?_
        rw [List.length_drop]
        exact Nat.sub_le _ _
      rw [List.drop_eq_getElem_cons hlt, List.cons_prefix_cons] at h
      rw [hskip, countMatches, show skip = pat.length - (k + 1) by omega, ih (Nat.succ_pos k) h.2,
        countMatches, if_neg hnot]
    · rw [Nat.sub_eq_zero_of_le hge]

theorem countMatches_eq_occurrences (hne : pat ≠ []) (hpat : Unbordered pat) (text : List Char) :
    countMatches pat 0 text = occurrences pat text := by
  induction text with
  | nil =>
    have hnot : ¬ pat.isPrefixOf [] := by simpa [List.isPrefixOf_iff_prefix] using hne
    rw [countMatches, occurrences, List.tails, List.countP_cons_of_neg hnot, List.countP_nil]
  | cons c cs ih =>
    rw [occurrences, List.tails]
    by_cases hp : pat.isPrefixOf (c :: cs)
    · have hrest : pat.drop 1 <+: cs := by
        have := (List.isPrefixOf_iff_prefix.mp hp).drop 1
        rwa [List.drop_one, List.drop_one, List.tail_cons, ← List.drop_one] at this
      rw [countMatches, if_pos hp, countMatches_skip hpat Nat.one_pos hrest, ih,
        List.countP_cons_of_pos hp, occurrences]
    · rw [countMatches, if_neg hp, ih, List.countP_cons_of_neg hp, occurrences]

/-- Every character has a byte at least. -/
theorem length_le_utf8 (cs : List Char) : cs.length ≤ (utf8 cs).length := by
  induction cs with
  | nil => exact Nat.le_refl _
  | cons c cs ih =>
    rw [utf8_cons, List.length_append, List.length_cons, String.length_utf8EncodeChar]
    have := Char.utf8Size_pos c
    omega

/-- A shorter text has no more bytes. -/
theorem length_utf8_le_of_sublist {cs ds : List Char} (h : cs.Sublist ds) :
    (utf8 cs).length ≤ (utf8 ds).length :=
  (h.flatMap _).length_le

end Text
