import Ckman.Host
import Ckman.Text

/-!
# Percent-encoding

Decoding works on the bytes of a text. `Encodes` relates a text to every text
that spells some of its characters as escapes, byte by byte; the escapes that
are already there stay as they are, and so does a percent sign that starts none.
-/
namespace Percent

open Host (Bytes hexValue)
open Text

def decodeBytes : Bytes → Option Bytes
  | [] => some []
  | b :: rest =>
    if b = 0x25 then
      match rest with
      | hi :: lo :: rest =>
        (hexValue hi).bind fun h => (hexValue lo).bind fun l =>
          (decodeBytes rest).map ((h <<< 4 ||| l) :: ·)
      | _ => none
    else (decodeBytes rest).map (b :: ·)

theorem decodeBytes_escape (hi lo : UInt8) (rest : Bytes) :
    decodeBytes (0x25 :: hi :: lo :: rest) = (hexValue hi).bind fun h => (hexValue lo).bind fun l =>
      (decodeBytes rest).map ((h <<< 4 ||| l) :: ·) := by
  rw [decodeBytes, if_pos rfl]

theorem decodeBytes_cons {b : UInt8} (h : b ≠ 0x25) (rest : Bytes) :
    decodeBytes (b :: rest) = (decodeBytes rest).map (b :: ·) := by
  rcases rest with _ | ⟨_, _ | ⟨_, _⟩⟩ <;> rw [decodeBytes.eq_def] <;> simp only [if_neg h]

/-- Decoding must yield UTF-8 again. -/
def decode (text : List Char) : Option (List Char) := (decodeBytes (utf8 text)).bind fromUtf8

def digitValue (c : Char) : Option UInt8 := if c.toNat < 128 then hexValue c.toUInt8 else none

inductive Escapes : Bytes → List Char → Prop where
  | nil : Escapes [] []
  | cons {hi lo : Char} {h l : UInt8} {bs : Bytes} {cs : List Char} :
      digitValue hi = some h → digitValue lo = some l → Escapes bs cs →
      Escapes ((h <<< 4 ||| l) :: bs) ('%' :: hi :: lo :: cs)

def StartsHex : List Char → Prop
  | hi :: lo :: _ => digitValue hi ≠ none ∧ digitValue lo ≠ none
  | _ => False

inductive Encodes : List Char → List Char → Prop where
  | nil : Encodes [] []
  | plain {c : Char} {s t : List Char} : c ≠ '%' → Encodes s t → Encodes (c :: s) (c :: t)
  | encoded {c : Char} {e s t : List Char} : c ≠ '%' → Escapes (String.utf8EncodeChar c) e →
      Encodes s t → Encodes (c :: s) (e ++ t)
  | escape {hi lo : Char} {s t : List Char} : digitValue hi ≠ none → digitValue lo ≠ none →
      Encodes s t → Encodes ('%' :: hi :: lo :: s) ('%' :: hi :: lo :: t)
  | stray {s t : List Char} : ¬ StartsHex s → Encodes s t → Encodes ('%' :: s) ('%' :: t)

theorem hexValue_of_le {b : UInt8} (h : 128 ≤ b.toNat) : hexValue b = none := by
  have h57 : (57 : UInt8).toNat = 57 := rfl
  have h102 : (102 : UInt8).toNat = 102 := rfl
  have h70 : (70 : UInt8).toNat = 70 := rfl
  rw [hexValue, if_neg, if_neg, if_neg]
  all_goals
    simp only [UInt8.le_iff_toNat_le, not_and]
    omega

theorem digitValue_eq_some {c : Char} {v : UInt8} (h : digitValue c = some v) :
    String.utf8EncodeChar c = [c.toUInt8] ∧ hexValue c.toUInt8 = some v := by
  rw [digitValue] at h
  split_ifs at h with hlt
  exact ⟨utf8EncodeChar_of_lt hlt, h⟩

/-- A character that is no digit starts with a byte that is none. -/
theorem digitValue_eq_none {c : Char} (h : digitValue c = none) :
    ∃ b bs, String.utf8EncodeChar c = b :: bs ∧ hexValue b = none := by
  rw [digitValue] at h
  by_cases hlt : c.toNat < 128
  · rw [if_pos hlt] at h
    exact ⟨_, [], utf8EncodeChar_of_lt hlt, h⟩
  · cases hb : String.utf8EncodeChar c with
    | nil => exact absurd hb String.utf8EncodeChar_ne_nil
    | cons b bs =>
      have hmem : b ∈ String.utf8EncodeChar c := by
        rw [hb]
        exact List.mem_cons_self
      exact ⟨b, bs, rfl, hexValue_of_le (le_of_mem_utf8EncodeChar (Nat.le_of_not_lt hlt) hmem)⟩

theorem utf8_percent (s : List Char) : utf8 ('%' :: s) = 0x25 :: utf8 s := rfl

theorem decodeBytes_plain {bs : Bytes} (h : ∀ b ∈ bs, b ≠ 0x25) (rest : Bytes) :
    decodeBytes (bs ++ rest) = (decodeBytes rest).map (bs ++ ·) := by
  induction bs with
  | nil => simp
  | cons b bs ih =>
    rw [List.cons_append, decodeBytes_cons (h b List.mem_cons_self),
      ih fun c hc => h c (List.mem_cons_of_mem b hc), Option.map_map]
    rfl

theorem decodeBytes_escapes {bs : Bytes} {cs : List Char} (h : Escapes bs cs) (rest : Bytes) :
    decodeBytes (utf8 cs ++ rest) = (decodeBytes rest).map (bs ++ ·) := by
  induction h with
  | nil => simp
  | cons hhi hlo _ ih =>
    obtain ⟨ehi, vhi⟩ := digitValue_eq_some hhi
    obtain ⟨elo, vlo⟩ := digitValue_eq_some hlo
    rw [utf8_percent, utf8_cons, utf8_cons, ehi, elo]
    simp only [List.cons_append, List.nil_append, decodeBytes_escape, vhi, vlo, Option.bind_some,
      ih, Option.map_map]
    rfl

/-- A percent sign that starts no escape makes the text undecodable. -/
theorem decodeBytes_stray {s : List Char} (h : ¬ StartsHex s) :
    decodeBytes (utf8 ('%' :: s)) = none := by
  rw [utf8_percent]
  rcases s with _ | ⟨hi, s⟩
  · rfl
  · cases hhi : digitValue hi with
    | none =>
      obtain ⟨b, bs, hb, hv⟩ := digitValue_eq_none hhi
      rw [utf8_cons, hb, List.cons_append]
      rcases bs ++ utf8 s with _ | ⟨lo, rest⟩
      · rfl
      · rw [decodeBytes_escape, hv, Option.bind_none]
    | some v =>
      obtain ⟨ehi, vhi⟩ := digitValue_eq_some hhi
      rw [utf8_cons, ehi]
      rcases s with _ | ⟨lo, s⟩
      · rfl
      · have hlo : digitValue lo = none := by
          by_contra hne
          exact h ⟨by simp [hhi], hne⟩
        obtain ⟨b, bs, hb, hv⟩ := digitValue_eq_none hlo
        rw [utf8_cons, hb, List.cons_append, List.cons_append, List.nil_append,
          decodeBytes_escape, vhi, hv, Option.bind_some, Option.bind_none]

/-- Nothing has to be encoded. -/
theorem Encodes.refl {s : List Char} (h : '%' ∉ s) : Encodes s s := by
  induction s with
  | nil => exact .nil
  | cons c s ih =>
    rw [List.mem_cons, not_or] at h
    exact .plain (Ne.symm h.1) (ih h.2)

/-- An encoding that goes on with a digit starts with the same digit. -/
theorem Encodes.digit {c : Char} {s t : List Char} (h : Encodes s (c :: t))
    (hc : digitValue c ≠ none) : ∃ s', s = c :: s' ∧ Encodes s' t := by
  have percent : digitValue '%' = none := by decide
  generalize hu : c :: t = u at h
  cases h with
  | nil => cases hu
  | plain _ hs =>
    cases hu
    exact ⟨_, rfl, hs⟩
  | @encoded d e s t' _ he _ =>
    cases he' : String.utf8EncodeChar d with
    | nil => exact absurd he' String.utf8EncodeChar_ne_nil
    | cons b bs =>
      rw [he'] at he
      cases he
      cases hu
      exact absurd percent hc
  | escape _ _ _ =>
    cases hu
    exact absurd percent hc
  | stray _ _ =>
    cases hu
    exact absurd percent hc

/-- No encoding makes an escape of a percent sign that starts none. -/
theorem Encodes.startsHex {s t : List Char} (h : Encodes s t) (ht : StartsHex t) : StartsHex s := by
  rcases t with _ | ⟨hi, _ | ⟨lo, t⟩⟩
  · exact ht.elim
  · exact ht.elim
  · obtain ⟨s', rfl, h'⟩ := h.digit ht.1
    obtain ⟨s'', rfl, -⟩ := h'.digit ht.2
    exact ht

/-- Encoded text has the bytes of the text. -/
theorem Encodes.decodeBytes_eq {s t : List Char} (h : Encodes s t) :
    decodeBytes (utf8 t) = decodeBytes (utf8 s) := by
  induction h with
  | nil => rfl
  | plain hc _ ih =>
    rw [utf8_cons, utf8_cons, decodeBytes_plain fun b hb => ne_of_mem_utf8EncodeChar (by decide) hc hb,
      decodeBytes_plain fun b hb => ne_of_mem_utf8EncodeChar (by decide) hc hb, ih]
  | encoded hc he _ ih =>
    rw [utf8_append, decodeBytes_escapes he, utf8_cons,
      decodeBytes_plain fun b hb => ne_of_mem_utf8EncodeChar (by decide) hc hb, ih]
  | @escape hi lo s t hhi hlo _ ih =>
    obtain ⟨h, hh⟩ := Option.ne_none_iff_exists'.mp hhi
    obtain ⟨l, hl⟩ := Option.ne_none_iff_exists'.mp hlo
    have he := Escapes.cons hh hl .nil
    have hs := decodeBytes_escapes he (utf8 s)
    have ht := decodeBytes_escapes he (utf8 t)
    rw [← utf8_append] at hs ht
    exact ht.trans (ih ▸ hs.symm)
  | stray hs hst ih =>
    rw [decodeBytes_stray hs, decodeBytes_stray fun ht => hs (hst.startsHex ht)]

theorem Encodes.decode_eq {s t : List Char} (h : Encodes s t) : decode t = decode s := by
  rw [decode, decode, h.decodeBytes_eq]

/-- Escapes consist of percent signs and digits. -/
theorem not_mem_of_escapes {c : Char} (hp : c ≠ '%') (hd : digitValue c = none) {bs : Bytes}
    {e : List Char} (h : Escapes bs e) : c ∉ e := by
  induction h with
  | nil => exact List.not_mem_nil
  | cons hhi hlo _ ih =>
    simp only [List.mem_cons, not_or]
    refine ⟨hp, ?_, ?_, ih⟩
    · rintro rfl
      simp [hd] at hhi
    · rintro rfl
      simp [hd] at hlo

/-- A character that no escape is made of occurs in no encoding of a text
without it. -/
theorem Encodes.not_mem {c : Char} (hp : c ≠ '%') (hd : digitValue c = none) {s t : List Char}
    (h : Encodes s t) (hs : c ∉ s) : c ∉ t := by
  induction h with
  | nil => exact List.not_mem_nil
  | plain _ _ ih =>
    simp only [List.mem_cons, not_or] at hs ⊢
    exact ⟨hs.1, ih hs.2⟩
  | encoded _ he _ ih =>
    simp only [List.mem_cons, List.mem_append, not_or] at hs ⊢
    exact ⟨not_mem_of_escapes hp hd he, ih hs.2⟩
  | escape _ _ _ ih =>
    simp only [List.mem_cons, not_or] at hs ⊢
    exact ⟨hs.1, hs.2.1, hs.2.2.1, ih hs.2.2.2⟩
  | stray _ _ ih =>
    simp only [List.mem_cons, not_or] at hs ⊢
    exact ⟨hs.1, ih hs.2⟩

theorem Encodes.eq_nil_iff {s t : List Char} (h : Encodes s t) : t = [] ↔ s = [] := by
  cases h with
  | nil => simp
  | plain => simp
  | @encoded c e _ _ _ he _ =>
    have hne : e ≠ [] := by
      rintro rfl
      cases hb : String.utf8EncodeChar c with
      | nil => exact absurd hb String.utf8EncodeChar_ne_nil
      | cons => rw [hb] at he; cases he
    simp [hne]
  | escape => simp
  | stray => simp

theorem digitValue_visible {c : Char} (h : digitValue c ≠ none) : ¬ isWhitespace c := by
  have hlt : c.toNat < 128 := by
    by_contra hge
    exact h (if_neg hge)
  have hvalue : hexValue c.toUInt8 ≠ none := by rwa [digitValue, if_pos hlt] at h
  have hcode : c.toUInt8.toNat = c.toNat :=
    (UInt32.toNat_toUInt8 c.val).trans (Nat.mod_eq_of_lt (by
      show c.toNat < 256
      omega))
  have hlow : 48 ≤ c.toNat := by
    by_contra hlow
    apply hvalue
    have h48 : (48 : UInt8).toNat = 48 := rfl
    have h97 : (97 : UInt8).toNat = 97 := rfl
    have h65 : (65 : UInt8).toNat = 65 := rfl
    rw [hexValue, if_neg, if_neg, if_neg]
    all_goals
      simp only [UInt8.le_iff_toNat_le, not_and, hcode]
      omega
  simp only [isWhitespace, decide_eq_true_eq]
  omega

theorem endsVisible_escapes {bs : Bytes} {e : List Char} (h : Escapes bs e) : EndsVisible e := by
  induction h with
  | nil => simp [EndsVisible]
  | @cons _ lo _ _ _ _ _ hlo _ ih =>
    have visible : ¬ isWhitespace lo := digitValue_visible (by simp [hlo])
    simp only [endsVisible_cons_iff]
    exact ⟨⟨⟨ih, fun _ => visible⟩, by simp⟩, by simp⟩

/-- Encoding adds no white space at the end. -/
theorem Encodes.endsVisible {s t : List Char} (h : Encodes s t) (hs : EndsVisible s) :
    EndsVisible t := by
  have percent : ¬ isWhitespace '%' := by decide
  induction h with
  | nil => exact hs
  | plain _ hst ih =>
    rw [endsVisible_cons_iff] at hs ⊢
    exact ⟨ih hs.1, fun ht => hs.2 (hst.eq_nil_iff.mp ht)⟩
  | encoded _ he _ ih => exact (endsVisible_escapes he).append (ih (endsVisible_cons_iff.mp hs).1)
  | escape hhi hlo _ ih =>
    simp only [endsVisible_cons_iff] at hs ⊢
    exact ⟨⟨⟨ih hs.1.1.1, fun _ => digitValue_visible hlo⟩, by simp⟩, by simp⟩
  | stray _ _ ih =>
    rw [endsVisible_cons_iff] at hs ⊢
    exact ⟨ih hs.1, fun _ => percent⟩

end Percent
