import Ckman.OathName

/-!
# The account search

The loop of `search` keeps substring matches until it comes to an exact match.
Which of the two it returns depends on the visible entries alone.
-/
namespace Oath

open Host
open Text

variable {lowercase : List Char → List Char} {entries : List Entry} {query : List Char}
  {showHidden : Bool}

def isVisible (showHidden : Bool) (entry : Entry) : Bool :=
  showHidden ∨ (parseName entry.name.bytes ((kindOf entry).getD .totp)).issuer ≠ some "_hidden".toList

theorem isVisible_iff {entry : Entry} : isVisible showHidden entry = true ↔
    showHidden = true ∨
      (parseName entry.name.bytes ((kindOf entry).getD .totp)).issuer ≠ some "_hidden".toList :=
  decide_eq_true_iff

def isExact (query : List Char) (entry : Entry) : Bool := entry.name.bytes = utf8 query

def isMatch (lowercase : List Char → List Char) (query : List Char) (entry : Entry) : Bool :=
  lowercase query <:+: lowercase (displayName entry)

/-- What the loop returns: the first exact match, or the matches so far and the
rest of them. -/
theorem searchLoop_eq (hits : List Entry) :
    searchLoop lowercase query showHidden hits entries =
      match (entries.filter (isVisible showHidden)).find? (isExact query) with
      | some entry => [entry]
      | none => hits ++ (entries.filter (isVisible showHidden)).filter (isMatch lowercase query) := by
  induction entries generalizing hits with
  | nil => simp [searchLoop]
  | cons entry entries ih =>
    rw [searchLoop]
    by_cases hvisible : isVisible showHidden entry = true
    · have hshown : ¬ ((!showHidden) = true ∧
          (parseName entry.name.bytes ((kindOf entry).getD .totp)).issuer = some "_hidden".toList) := by
        rintro ⟨hno, hissuer⟩
        rcases isVisible_iff.mp hvisible with hshow | hother
        · rw [hshow] at hno
          cases hno
        · exact hother hissuer
      rw [if_neg hshown, List.filter_cons_of_pos hvisible]
      by_cases hexact : entry.name.bytes = utf8 query
      · rw [if_pos hexact, List.find?_cons_of_pos (by simpa [isExact] using hexact)]
      · rw [if_neg hexact, List.find?_cons_of_neg (by simpa [isExact] using hexact)]
        split
        · rename_i hcontains
          rw [ih, List.filter_cons_of_pos (by simpa [isMatch] using hcontains), List.append_assoc,
            List.singleton_append]
        · rename_i hcontains
          rw [ih, List.filter_cons_of_neg (by simpa [isMatch] using hcontains)]
    · have hhidden : (!showHidden) = true ∧
          (parseName entry.name.bytes ((kindOf entry).getD .totp)).issuer = some "_hidden".toList := by
        rw [isVisible_iff, not_or, not_not, Bool.not_eq_true] at hvisible
        rw [hvisible.1]
        exact ⟨rfl, hvisible.2⟩
      rw [if_pos hhidden, ih, List.filter_cons_of_neg hvisible]

/-- An exact match hides every other match, wherever it stands. -/
theorem search_exact {before after : List Entry} {entry : Entry}
    (hvisible : isVisible showHidden entry = true) (hexact : entry.name.bytes = utf8 query)
    (hfirst : ∀ other ∈ before, isVisible showHidden other = true → other.name.bytes ≠ utf8 query) :
    search lowercase (before ++ entry :: after) query showHidden = [entry] := by
  have hfind : ((before ++ entry :: after).filter (isVisible showHidden)).find? (isExact query) =
      some entry := by
    rw [List.filter_append, List.filter_cons_of_pos hvisible, List.find?_eq_some_iff_append]
    refine ⟨by simpa [isExact] using hexact, _, _, rfl, ?_⟩
    intro other hother
    obtain ⟨hmem, hvis⟩ := List.mem_filter.mp hother
    simpa [isExact] using hfirst other hmem hvis
  rw [search, searchLoop_eq, hfind]

/-- Without an exact match every match is returned, in the order of the device. -/
theorem search_contains
    (hnone : ∀ entry ∈ entries, isVisible showHidden entry = true → entry.name.bytes ≠ utf8 query) :
    search lowercase entries query showHidden =
      (entries.filter (isVisible showHidden)).filter (isMatch lowercase query) := by
  have hfind : (entries.filter (isVisible showHidden)).find? (isExact query) = none := by
    rw [List.find?_eq_none]
    intro entry hentry
    obtain ⟨hmem, hvis⟩ := List.mem_filter.mp hentry
    simpa [isExact] using hnone entry hmem hvis
  rw [search, searchLoop_eq, hfind, List.nil_append]

/-- Only an entry whose raw name is the query is returned alone for it. -/
theorem search_cases :
    (∃ entry ∈ entries, isVisible showHidden entry = true ∧ entry.name.bytes = utf8 query ∧
      search lowercase entries query showHidden = [entry]) ∨
    search lowercase entries query showHidden =
      (entries.filter (isVisible showHidden)).filter (isMatch lowercase query) := by
  rw [search, searchLoop_eq]
  cases hfind : (entries.filter (isVisible showHidden)).find? (isExact query) with
  | none => exact .inr (List.nil_append _)
  | some entry =>
    obtain ⟨hmem, hvis⟩ := List.mem_filter.mp (List.mem_of_find?_eq_some hfind)
    exact .inl ⟨entry, hmem, hvis, by simpa [isExact] using List.find?_some hfind, rfl⟩

/-- `search` returns the first visible entry whose raw name is the query, or
else the visible entries whose displayed name contains it. Hidden entries are
returned only when asked for, and a name that only looks like the query does not
displace the other matches. -/
theorem search_returns (lowercase : List Char → List Char) (entries : List Entry)
    (query : List Char) (showHidden : Bool) :
    (∀ before entry after, entries = before ++ entry :: after → isVisible showHidden entry = true →
      entry.name.bytes = utf8 query →
      (∀ other ∈ before, isVisible showHidden other = true → other.name.bytes ≠ utf8 query) →
      search lowercase entries query showHidden = [entry]) ∧
    ((∀ entry ∈ entries, isVisible showHidden entry = true → entry.name.bytes ≠ utf8 query) →
      search lowercase entries query showHidden =
        entries.filter fun entry => isVisible showHidden entry && isMatch lowercase query entry) ∧
    (∀ entry ∈ search lowercase entries query showHidden,
      (parseName entry.name.bytes ((kindOf entry).getD .totp)).issuer = some "_hidden".toList →
      showHidden = true) ∧
    ∀ lookalike ∈ search lowercase entries query showHidden, lookalike.name.bytes ≠ utf8 query →
      ∀ entry ∈ entries, isVisible showHidden entry = true → isMatch lowercase query entry = true →
        entry ∈ search lowercase entries query showHidden := by
  refine ⟨?_, ?_, ?_, ?_⟩
  · rintro before entry after rfl hvisible hexact hfirst
    exact search_exact hvisible hexact hfirst
  · intro hnone
    rw [search_contains hnone, List.filter_filter]
    exact List.filter_congr fun entry _ => Bool.and_comm _ _
  · intro entry hentry hissuer
    have hvisible : isVisible showHidden entry = true := by
      rcases search_cases with ⟨only, -, hvis, -, honly⟩ | hall
      · rw [honly, List.mem_singleton] at hentry
        rw [hentry]
        exact hvis
      · rw [hall] at hentry
        exact (List.mem_filter.mp (List.mem_of_mem_filter hentry)).2
    exact (isVisible_iff.mp hvisible).resolve_right fun hother => hother hissuer
  · intro lookalike hlook hraw entry hentry hvisible hcontains
    rcases search_cases with ⟨only, -, -, hexact, honly⟩ | hall
    · rw [honly, List.mem_singleton] at hlook
      exact absurd (hlook ▸ hexact) hraw
    · rw [hall]
      exact List.mem_filter.mpr ⟨List.mem_filter.mpr ⟨hentry, hvisible⟩, hcontains⟩

/-- Two raw names with one display text: the one that is the query wins. -/
theorem search_returns_lookalike :
    search (List.map Char.toLower) [⟨⟨[0x61, 0xff], by decide, by decide⟩, 0x21⟩,
        ⟨⟨[0x61, 0xef, 0xbf, 0xbd], by decide, by decide⟩, 0x21⟩] ['a', '\uFFFD'] true =
      [⟨⟨[0x61, 0xef, 0xbf, 0xbd], by decide, by decide⟩, 0x21⟩] :=
  (search_returns (List.map Char.toLower) _ ['a', '\uFFFD'] true).1 [⟨⟨[0x61, 0xff], by decide, by decide⟩, 0x21⟩]
    ⟨⟨[0x61, 0xef, 0xbf, 0xbd], by decide, by decide⟩, 0x21⟩ [] rfl rfl (by decide) (by decide)

end Oath
