import Ckman.Host
import Ckman.Text

/-!
# FIDO PINs

`normalize_pin` copies the NFC form of a PIN character by character into a
buffer that is reserved once. The normalisation belongs to another crate and is
a parameter.
-/
namespace FidoPin

open Host
open Text

inductive ErrorKind where
  | invalidPin
  deriving DecidableEq, Repr

/-- A `String` with the bytes it has allocated. -/
structure Buffer where
  text : List Char
  capacity : Nat
  deriving DecidableEq, Repr

namespace Buffer

def withCapacity (capacity : Nat) : Buffer := ⟨[], capacity⟩

/-- `String::len`. -/
def length (buffer : Buffer) : Nat := (utf8 buffer.text).length

/-- `String::push`, which reallocates when the character does not fit. -/
def push (buffer : Buffer) (character : Char) : Buffer :=
  let required := buffer.length + character.utf8Size
  ⟨buffer.text ++ [character],
    if buffer.capacity < required then max (2 * buffer.capacity) required else buffer.capacity⟩

end Buffer

section Program

variable (nfc : List Char → List Char)

/-- One turn of the loop over the characters of the NFC form. -/
def pushChecked (normalized : Buffer) (character : Char) : Except ErrorKind Buffer :=
  if character = '\x00' ∨ 63 < normalized.length + character.utf8Size then .error .invalidPin
  else .ok (normalized.push character)

/-- Normalize a FIDO PIN to Unicode NFC, then enforce its limits. -/
def normalizePin (pin : Bytes) : Except ErrorKind (List Char) := do
  let text ← okOr (fromUtf8 pin) .invalidPin
  let normalized ← (nfc text).foldlM pushChecked (.withCapacity 63)
  if normalized.text.length < 4 then .error .invalidPin
  else pure normalized.text

def pinsMatch (first second : List Char) : Bool :=
  match normalizePin nfc (utf8 first), normalizePin nfc (utf8 second) with
  | .ok first, .ok second => first = second
  | _, _ => false

end Program

/-- The buffer holds exactly these characters: none is NUL, they fit, and the
allocation is the reserved one. -/
structure Filled (characters : List Char) (buffer : Buffer) : Prop where
  text : buffer.text = characters
  noNul : '\x00' ∉ characters
  fits : (utf8 characters).length ≤ 63
  capacity : buffer.capacity = 63

section Loop

variable {characters rest : List Char} {buffer next : Buffer} {character : Char}

theorem length_utf8_append (characters rest : List Char) :
    (utf8 (characters ++ rest)).length = (utf8 characters).length + (utf8 rest).length := by
  rw [utf8_append, List.length_append]

theorem length_utf8_singleton (character : Char) : (utf8 [character]).length = character.utf8Size := by
  rw [utf8_cons, utf8_nil, List.append_nil, String.length_utf8EncodeChar]

theorem Filled.start : Filled [] (.withCapacity 63) := ⟨rfl, List.not_mem_nil, Nat.zero_le 63, rfl⟩

theorem Filled.unique (h : Filled characters buffer) (h' : Filled characters next) : buffer = next := by
  obtain ⟨text, capacity⟩ := buffer
  obtain ⟨text', capacity'⟩ := next
  obtain rfl : text = characters := h.text
  obtain rfl : text' = text := h'.text
  obtain rfl : capacity = 63 := h.capacity
  obtain rfl : capacity' = 63 := h'.capacity
  rfl

/-- What fits still fits before its last characters. -/
theorem Filled.before (h : Filled (characters ++ rest) next) : Filled characters ⟨characters, 63⟩ := by
  have hfits := h.fits
  rw [length_utf8_append] at hfits
  exact ⟨rfl, fun hnul => h.noNul (List.mem_append_left rest hnul), by omega, rfl⟩

/-- One turn adds a character exactly if the text with it is permitted. -/
theorem pushChecked_iff (h : Filled characters buffer) :
    pushChecked buffer character = .ok next ↔ Filled (characters ++ [character]) next := by
  have hlength : buffer.length = (utf8 characters).length := by rw [Buffer.length, h.text]
  have htotal : (utf8 (characters ++ [character])).length = buffer.length + character.utf8Size := by
    rw [length_utf8_append, length_utf8_singleton, hlength]
  constructor
  · intro hpush
    rw [pushChecked] at hpush
    split at hpush
    · cases hpush
    · rename_i hgood
      rw [not_or] at hgood
      cases hpush
      refine ⟨by rw [Buffer.push, h.text], ?_, by omega, ?_⟩
      · rw [List.mem_append, List.mem_singleton, not_or]
        exact ⟨h.noNul, fun hnul => hgood.1 hnul.symm⟩
      · rw [Buffer.push, h.capacity]
        exact if_neg hgood.2
  · intro hnext
    have hfits := hnext.fits
    have hgood : ¬ (character = '\x00' ∨ 63 < buffer.length + character.utf8Size) := by
      rintro (hnul | hlong)
      · exact hnext.noNul (by simp [hnul])
      · omega
    have hpush : Filled (characters ++ [character]) (buffer.push character) := by
      refine ⟨by rw [Buffer.push, h.text], hnext.noNul, hfits, ?_⟩
      rw [Buffer.push, h.capacity]
      exact if_neg (by omega)
    rw [pushChecked, if_neg hgood, hpush.unique hnext]

/-- The loop adds characters exactly if the whole text is permitted: leaving
early at one character agrees with the rule for the text. -/
theorem foldlM_pushChecked_iff (h : Filled characters buffer) :
    rest.foldlM pushChecked buffer = .ok next ↔ Filled (characters ++ rest) next := by
  induction rest generalizing characters buffer with
  | nil =>
    rw [List.append_nil]
    constructor
    · intro hdone
      cases hdone
      exact h
    · intro hnext
      rw [h.unique hnext]
      rfl
  | cons character rest ih =>
    rw [List.foldlM_cons, Except.bind_eq_ok_iff]
    have happend : characters ++ character :: rest = characters ++ [character] ++ rest := by simp
    rw [happend]
    constructor
    · rintro ⟨middle, hpush, hrest⟩
      exact (ih ((pushChecked_iff h).mp hpush)).mp hrest
    · intro hnext
      have hmiddle := hnext.before
      exact ⟨_, (pushChecked_iff h).mpr hmiddle, (ih hmiddle).mpr hnext⟩

end Loop

section Normal

variable {nfc : List Char → List Char}

structure Permitted (text : List Char) : Prop where
  atLeast : 4 ≤ text.length
  atMost : (utf8 text).length ≤ 63
  noNul : '\x00' ∉ text

theorem normalizePin_iff {pin : Bytes} {out : List Char} :
    normalizePin nfc pin = .ok out ↔ ∃ text, pin = utf8 text ∧ out = nfc text ∧ Permitted (nfc text) := by
  have hloop : ∀ text next, (nfc text).foldlM pushChecked (.withCapacity 63) = .ok next ↔
      Filled (nfc text) next := by
    intro text next
    exact foldlM_pushChecked_iff .start
  simp only [normalizePin, Except.bind_eq_ok_iff, okOr_eq_ok_iff, fromUtf8_eq_some_iff, hloop]
  constructor
  · rintro ⟨text, rfl, next, hfilled, hout⟩
    split at hout
    · cases hout
    · rename_i hlong
      cases hout
      rw [hfilled.text] at hlong ⊢
      exact ⟨text, rfl, rfl, by omega, hfilled.fits, hfilled.noNul⟩
  · rintro ⟨text, rfl, rfl, hpermitted⟩
    refine ⟨text, rfl, ⟨nfc text, 63⟩, ⟨rfl, hpermitted.noNul, hpermitted.atMost, rfl⟩, ?_⟩
    rw [if_neg (by have := hpermitted.atLeast; dsimp only; omega)]
    rfl

/-- The outcome for a text depends on its normal form alone. -/
theorem normalizePin_utf8 (text : List Char) {out : List Char} :
    normalizePin nfc (utf8 text) = .ok out ↔ out = nfc text ∧ Permitted (nfc text) := by
  rw [normalizePin_iff]
  constructor
  · rintro ⟨text', htext, rfl, hpermitted⟩
    have hsame : text' = text := by
      have := congrArg fromUtf8 htext
      rw [fromUtf8_utf8, fromUtf8_utf8] at this
      exact (Option.some.inj this).symm
    rw [hsame] at hpermitted ⊢
    exact ⟨rfl, hpermitted⟩
  · rintro ⟨rfl, hpermitted⟩
    exact ⟨text, rfl, rfl, hpermitted⟩

theorem normalizePin_congr {first second : List Char} (h : nfc first = nfc second) :
    normalizePin nfc (utf8 first) = normalizePin nfc (utf8 second) := by
  rw [normalizePin, normalizePin, fromUtf8_utf8, fromUtf8_utf8]
  simp only [okOr, Except.ok_bind, h]

theorem pinsMatch_iff {first second : List Char} :
    pinsMatch nfc first second = true ↔ nfc first = nfc second ∧ Permitted (nfc first) := by
  rw [pinsMatch]
  constructor
  · intro h
    split at h
    · rename_i a b ha hb
      obtain ⟨rfl, hpermitted⟩ := (normalizePin_utf8 first).mp ha
      obtain ⟨rfl, -⟩ := (normalizePin_utf8 second).mp hb
      exact ⟨of_decide_eq_true h, hpermitted⟩
    · cases h
  · rintro ⟨heq, hpermitted⟩
    rw [← normalizePin_congr heq, (normalizePin_utf8 first).mpr ⟨rfl, hpermitted⟩]
    exact decide_eq_true rfl

/-- `normalize_pin` accepts exactly the permitted normal forms and returns them;
its buffer stays the reserved one; it is idempotent; and normal forms are what
`pins_match` compares. -/
theorem normalizePin_normal (hnfc : ∀ text, nfc (nfc text) = nfc text) :
    (∀ pin out, normalizePin nfc pin = .ok out ↔
      ∃ text, pin = utf8 text ∧ out = nfc text ∧ 4 ≤ out.length ∧ (utf8 out).length ≤ 63 ∧ '\x00' ∉ out) ∧
    (∀ text before after buffer, nfc text = before ++ after →
      before.foldlM pushChecked (.withCapacity 63) = .ok buffer →
        buffer.capacity = 63 ∧ buffer.length ≤ 63) ∧
    (∀ pin out, normalizePin nfc pin = .ok out → normalizePin nfc (utf8 out) = .ok out) ∧
    (∀ first second, nfc first = nfc second →
      normalizePin nfc (utf8 first) = normalizePin nfc (utf8 second) ∧
        ((∃ out, normalizePin nfc (utf8 first) = .ok out) → pinsMatch nfc first second = true)) ∧
    ∀ first second, nfc first ≠ nfc second → pinsMatch nfc first second = false := by
  refine ⟨?_, ?_, ?_, ?_, ?_⟩
  · intro pin out
    rw [normalizePin_iff]
    constructor
    · rintro ⟨text, rfl, rfl, hpermitted⟩
      exact ⟨text, rfl, rfl, hpermitted.atLeast, hpermitted.atMost, hpermitted.noNul⟩
    · rintro ⟨text, rfl, rfl, hleast, hmost, hnul⟩
      exact ⟨text, rfl, rfl, hleast, hmost, hnul⟩
  · intro text before after buffer _ hbuffer
    have hfilled := (foldlM_pushChecked_iff .start).mp hbuffer
    rw [List.nil_append] at hfilled
    refine ⟨hfilled.capacity, ?_⟩
    rw [Buffer.length, hfilled.text]
    exact hfilled.fits
  · intro pin out hout
    obtain ⟨text, -, rfl, hpermitted⟩ := normalizePin_iff.mp hout
    rw [normalizePin_utf8, hnfc]
    exact ⟨rfl, hpermitted⟩
  · intro first second heq
    refine ⟨normalizePin_congr heq, ?_⟩
    rintro ⟨out, hout⟩
    exact pinsMatch_iff.mpr ⟨heq, ((normalizePin_utf8 first).mp hout).2⟩
  · intro first second hne
    rw [Bool.eq_false_iff]
    exact fun hmatch => hne (pinsMatch_iff.mp hmatch).1

end Normal

/-- The composition of `e` with an acute accent. -/
def composeAcute : List Char → List Char
  | 'e' :: '\u0301' :: rest => 'é' :: composeAcute rest
  | c :: rest => c :: composeAcute rest
  | [] => []

theorem composeAcute_cons {c : Char} {rest : List Char}
    (h : ∀ tail, c = 'e' → rest = '\u0301' :: tail → False) :
    composeAcute (c :: rest) = c :: composeAcute rest := by
  rw [composeAcute]
  exact h

/-- Composing brings no accent to the front. -/
theorem composeAcute_accent {text tail : List Char} (h : composeAcute text = '\u0301' :: tail) :
    ∃ rest, text = '\u0301' :: rest := by
  fun_cases composeAcute text with
  | case1 rest =>
    rw [composeAcute] at h
    exact absurd (List.cons.inj h).1 (by decide)
  | case2 c rest hplain =>
    rw [composeAcute_cons hplain] at h
    exact ⟨rest, by rw [(List.cons.inj h).1]⟩
  | case3 => cases h

theorem composeAcute_idempotent (text : List Char) :
    composeAcute (composeAcute text) = composeAcute text := by
  fun_induction composeAcute text with
  | case1 rest ih =>
    rw [composeAcute_cons (fun _ he _ => absurd he (by decide)), ih]
  | case2 c rest hplain ih =>
    rw [composeAcute_cons, ih]
    intro tail hc htail
    obtain ⟨rest', hrest⟩ := composeAcute_accent htail
    exact hplain rest' hc hrest
  | case3 => rfl

/-- Both spellings of an accent are one PIN. -/
theorem normalizePin_normal_acute :
    pinsMatch composeAcute ['e', '\u0301', 'a', 'b', 'c'] ['é', 'a', 'b', 'c'] = true := by
  have hpermitted : ∃ out, normalizePin composeAcute (utf8 ['e', '\u0301', 'a', 'b', 'c']) = .ok out := by
    refine ⟨['é', 'a', 'b', 'c'], (normalizePin_utf8 _).mpr ⟨by decide, ?_⟩⟩
    exact ⟨by decide, by decide, by decide⟩
  exact ((normalizePin_normal composeAcute_idempotent).2.2.2.1 ['e', '\u0301', 'a', 'b', 'c']
    ['é', 'a', 'b', 'c'] (by decide)).2 hpermitted

end FidoPin
