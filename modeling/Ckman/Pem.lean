import Ckman.Host
import Ckman.TextSearch

/-!
# PEM armour

`pem_decode` extracts the first block with a wanted label and passes everything
without armour through; `pem_encode` writes a block. Base64 belongs to another
crate and is a parameter.
-/
namespace Pem

open Host
open Text

/-- The Base64 codec. The source has a buffer of its own size to decode into. -/
structure Base64 where
  /-- `Base64::encode_string`. -/
  encode : Bytes → List Char
  /-- `Base64::decode`. -/
  decode : (source : Bytes) → Option { out : Bytes // out.length ≤ source.length }

inductive KeyError where
  | pem | encoding | unsupported | unsupportedEncryption | password | rsaExponent | macMismatch
  | ambiguousCertificates
  deriving DecidableEq, Repr

def beginMarker : List Char := "-----BEGIN ".toList

/-- `format!("-----END {label}-----")`. -/
def endMarker (label : List Char) : List Char := "-----END ".toList ++ label ++ "-----".toList

section Decode

variable (base64 : Base64)

/-- The body of a block; `tail` begins at the end of its label. -/
def decodeBody (tail marker : List Char) : Except KeyError Bytes := do
  let newline ← okOr (find ['\n'] tail) .pem
  let body := tail.drop (newline + 1)
  let stop ← okOr (find marker body) .pem
  let decoded ← okOr (base64.decode (utf8 ((body.take stop).filter fun c => !isWhitespace c))) .pem
  pure decoded.val

/-- The `while` loop over the blocks; the cursor has reached `text`, and every
block that is skipped moves it on by one character at least. -/
def decodeBlocks (labels : List (List Char)) : Nat → List Char → Except KeyError (List Char × Bytes)
  | 0, _ => .error .pem
  | fuel + 1, text => do
    let start ← okOr (find beginMarker text) .pem
    let block := text.drop (start + beginMarker.length)
    let labelEnd ← okOr (find "-----".toList block) .pem
    let label := block.take labelEnd
    let tail := block.drop labelEnd
    let marker := endMarker label
    let stop ← okOr (find marker tail) .pem
    if label ∈ labels then do
      let decoded ← decodeBody base64 tail marker
      pure (label, decoded)
    else decodeBlocks labels fuel (tail.drop (stop + marker.length))

/-- UTF-8 text with a BEGIN marker is armoured, everything else is DER. -/
def armoured (input : Bytes) : Option (List Char) :=
  (fromUtf8 input).filter (contains "-----BEGIN".toList ·)

def pemDecode (input : Bytes) (labels : List (List Char)) : Except KeyError (List Char × Bytes) :=
  match armoured input with
  | none => .ok ([], input)
  | some text => decodeBlocks base64 labels text.length text

/-- The armour that `pem_encode` writes, as text. -/
def pemText (label : List Char) (der : Bytes) : List Char :=
  beginMarker ++ label ++ "-----\n".toList ++
    ((base64.encode der).toChunks 64).flatMap (· ++ ['\n']) ++ endMarker label ++ ['\n']

def pemEncode (label : List Char) (der : Bytes) : Bytes := utf8 (pemText base64 label der)

end Decode

variable {base64 : Base64} {labels : List (List Char)} {label : List Char}

/-- A decoded body is no longer than the text it stands in. -/
theorem decodeBody_length {tail marker : List Char} {der : Bytes}
    (h : decodeBody base64 tail marker = .ok der) : der.length ≤ (utf8 tail).length := by
  simp only [decodeBody, Except.bind_eq_ok_iff, okOr_eq_ok_iff] at h
  obtain ⟨newline, -, stop, -, decoded, -, hder⟩ := h
  cases hder
  refine decoded.property.trans (length_utf8_le_of_sublist ?_)
  exact List.filter_sublist.trans ((List.take_sublist _ _).trans (List.drop_sublist _ _))

/-- A decoded block lies behind the first character of the text. -/
theorem decodeBlocks_length {fuel : Nat} {text : List Char} {der : Bytes}
    (h : decodeBlocks base64 labels fuel text = .ok (label, der)) :
    der.length ≤ (utf8 text.tail).length := by
  induction fuel generalizing text with
  | zero => cases h
  | succ fuel ih =>
    simp only [decodeBlocks, Except.bind_eq_ok_iff, okOr_eq_ok_iff] at h
    obtain ⟨start, -, labelEnd, -, stop, -, h⟩ := h
    have hblock : ((text.drop (start + beginMarker.length)).drop labelEnd).Sublist text.tail := by
      have hpos : start + beginMarker.length = 1 + (start + 10) := by
        rw [show beginMarker.length = 11 by decide]
        omega
      rw [hpos, ← List.drop_drop, List.drop_one]
      exact (List.drop_sublist _ _).trans (List.drop_sublist _ _)
    split_ifs at h
    · obtain ⟨der', hder, hpair⟩ := Except.bind_eq_ok_iff.mp h
      cases hpair
      exact (decodeBody_length hder).trans (length_utf8_le_of_sublist hblock)
    · refine (ih h).trans (length_utf8_le_of_sublist ?_)
      exact (List.tail_sublist _).trans ((List.drop_sublist _ _).trans hblock)

/-- The cursor moves on in every round, so the length of the text is fuel enough. -/
theorem decodeBlocks_fuel {n m : Nat} {text : List Char} (hn : text.length ≤ n) (hm : text.length ≤ m) :
    decodeBlocks base64 labels n text = decodeBlocks base64 labels m text := by
  induction n generalizing m text with
  | zero =>
    obtain rfl : text = [] := List.length_eq_zero_iff.mp (by omega)
    cases m <;> rfl
  | succ n ih =>
    cases m with
    | zero =>
      obtain rfl : text = [] := List.length_eq_zero_iff.mp (by omega)
      rfl
    | succ m =>
      simp only [decodeBlocks]
      cases hstart : find beginMarker text with
      | none => rfl
      | some start =>
        have hle := find_le hstart
        have hmarker : beginMarker.length = 11 := by decide
        have hrest : ∀ labelEnd skipped,
            (((text.drop (start + beginMarker.length)).drop labelEnd).drop skipped).length < text.length := by
          intro labelEnd skipped
          simp only [List.length_drop]
          omega
        simp only [okOr, Except.ok_bind]
        cases hlabel : find "-----".toList (text.drop (start + beginMarker.length)) with
        | none => rfl
        | some labelEnd =>
          simp only [Except.ok_bind]
          cases find (endMarker ((text.drop (start + beginMarker.length)).take labelEnd))
              ((text.drop (start + beginMarker.length)).drop labelEnd) with
          | none => rfl
          | some stop =>
            simp only [Except.ok_bind]
            split_ifs
            · rfl
            · have hshort := hrest labelEnd
                (stop + (endMarker ((text.drop (start + beginMarker.length)).take labelEnd)).length)
              exact ih (by omega) (by omega)

theorem pemDecode_armoured {input : Bytes} {text : List Char} (h : armoured input = some text) :
    pemDecode base64 input labels = decodeBlocks base64 labels text.length text := by
  rw [pemDecode, h]

theorem pemDecode_der {input : Bytes} (h : armoured input = none) :
    pemDecode base64 input labels = .ok ([], input) := by
  rw [pemDecode, h]

/-- A decoded block is shorter than the armoured input around it. -/
theorem pemDecode_length {input : Bytes} {text : List Char} {der : Bytes}
    (harmour : armoured input = some text)
    (h : pemDecode base64 input labels = .ok (label, der)) : der.length < input.length := by
  obtain ⟨htext, hcontains⟩ := Option.filter_eq_some_iff.mp harmour
  rw [pemDecode_armoured harmour] at h
  rw [fromUtf8_eq_some_iff.mp htext]
  refine (decodeBlocks_length h).trans_lt ?_
  cases text with
  | nil => simp [contains, find] at hcontains
  | cons c cs =>
    rw [List.tail_cons, utf8_cons, List.length_append, String.length_utf8EncodeChar]
    have := Char.utf8Size_pos c
    omega

end Pem
