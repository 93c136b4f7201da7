import Ckman.Text
import Mathlib.Tactic.IntervalCases

/-!
# Host-side values

Byte strings, the errors of the operating system, and the hexadecimal text
form that the command line uses for keys.
-/
namespace Host

set_option maxRecDepth 4000

abbrev Bytes := List UInt8

/-- `str::as_bytes`: the bytes that a text is stored in, which `str::len` counts. -/
def asBytes (text : String) : Bytes := text.toByteArray.data.toList

/-- The kinds of `io::Error` that the code distinguishes. -/
inductive IoErrorKind where
  | alreadyExists
  | invalidInput
  | notFound
  | other
  deriving DecidableEq, Repr

/-- An `io::Error` with the text it displays. -/
structure IoError where
  kind : IoErrorKind
  message : String
  deriving DecidableEq, Repr

/-- A `getrandom::Error`: the host CSPRNG failed, or a caller made one up. -/
inductive RandomError where
  | os (code : Nat)
  | custom (code : Nat)
  deriving DecidableEq, Repr

/-! The `?` operator on a value that is already there. -/

@[simp] theorem Except.ok_bind {ε α β : Type} (a : α) (f : α → Except ε β) :
    ((Except.ok a : Except ε α) >>= f) = f a := rfl

@[simp] theorem Except.error_bind {ε α β : Type} (e : ε) (f : α → Except ε β) :
    ((Except.error e : Except ε α) >>= f) = .error e := rfl

/-- A sequence succeeds when its first part does and the rest does after it. -/
theorem Except.bind_eq_ok_iff {ε α β : Type} {x : Except ε α} {f : α → Except ε β} {b : β} :
    (x >>= f) = .ok b ↔ ∃ a, x = .ok a ∧ f a = .ok b := by
  cases x <;> simp

/-- A sequence fails when its first part does or the rest does after it. -/
theorem Except.bind_eq_error_iff {ε α β : Type} {x : Except ε α} {f : α → Except ε β} {e : ε} :
    (x >>= f) = .error e ↔ x = .error e ∨ ∃ a, x = .ok a ∧ f a = .error e := by
  cases x <;> simp

/-- A mapped error does not change what succeeds. -/
theorem Except.mapError_eq_ok_iff {ε δ α : Type} {x : Except ε α} {f : ε → δ} {a : α} :
    x.mapError f = .ok a ↔ x = .ok a := by
  cases x <;> simp [Except.mapError]

theorem Except.map_eq_ok_iff {ε α β : Type} {x : Except ε α} {f : α → β} {b : β} :
    x.map f = .ok b ↔ ∃ a, x = .ok a ∧ f a = b := by
  cases x <;> simp [Except.map]

/-- A property that every turn keeps holds after a loop that returns. -/
theorem Except.foldlM_preserves {ε σ α : Type} {step : σ → α → Except ε σ} {P : σ → Prop}
    {items : List α} (hstep : ∀ item ∈ items, ∀ s t, step s item = .ok t → P s → P t) {s t : σ}
    (h : items.foldlM step s = .ok t) (hs : P s) : P t := by
  induction items generalizing s with
  | nil =>
    cases h
    exact hs
  | cons item items ih =>
    rw [List.foldlM_cons, Except.bind_eq_ok_iff] at h
    obtain ⟨next, hnext, h⟩ := h
    exact ih (fun i hi => hstep i (List.mem_cons_of_mem item hi)) h
      (hstep item List.mem_cons_self s next hnext hs)

/-- `if bad { return Err(error); }` -/
def refuse {ε : Type} (bad : Prop) [Decidable bad] (error : ε) : Except ε Unit :=
  if bad then .error error else .ok ()

/-- `Option::ok_or`. -/
def okOr {ε α : Type} (o : Option α) (error : ε) : Except ε α :=
  match o with
  | some a => .ok a
  | none => .error error

@[simp] theorem refuse_eq_ok_iff {ε : Type} {bad : Prop} [Decidable bad] {error : ε} {u : Unit} :
    refuse bad error = .ok u ↔ ¬ bad := by
  by_cases h : bad <;> simp [refuse, h]

@[simp] theorem okOr_eq_ok_iff {ε α : Type} {o : Option α} {error : ε} {a : α} :
    okOr o error = .ok a ↔ o = some a := by
  cases o <;> simp [okOr]

theorem refuse_eq_error_iff {ε : Type} {bad : Prop} [Decidable bad] {error e : ε} :
    refuse bad error = (.error e : Except ε Unit) ↔ bad ∧ error = e := by
  by_cases h : bad <;> simp [refuse, h]

theorem okOr_eq_error_iff {ε α : Type} {o : Option α} {error e : ε} :
    okOr o error = .error e ↔ o = none ∧ error = e := by
  cases o <;> simp [okOr]

/-- Checked `u8` increment: overflow is a panic. -/
def checkedSucc (n : UInt8) : Option UInt8 := if n = 255 then none else some (n + 1)

/-- Checked `usize` subtraction: underflow is a panic. -/
def checkedSub (a b : Nat) : Option Nat := if b ≤ a then some (a - b) else none

theorem checkedSub_of_le {a b : Nat} (h : b ≤ a) : checkedSub a b = some (a - b) := if_pos h

theorem checkedSucc_toNat {n : UInt8} (h : n.toNat < 255) :
    ∃ m, checkedSucc n = some m ∧ m.toNat = n.toNat + 1 := by
  have hn : n ≠ 255 := by rintro rfl; simp at h
  refine ⟨n + 1, if_neg hn, ?_⟩
  rw [UInt8.toNat_add]
  simp only [UInt8.toNat_one]
  omega

def hexDigit (n : Nat) : Char :=
  ['0', '1', '2', '3', '4', '5', '6', '7', '8', '9', 'a', 'b', 'c', 'd', 'e', 'f'].getD n '0'

/-- `write!(out, "{byte:02x}")` for every byte. -/
def hexEncode (bytes : Bytes) : String :=
  String.ofList (bytes.flatMap (fun b => [hexDigit (b.toNat / 16), hexDigit (b.toNat % 16)]))

def hexValue (b : UInt8) : Option UInt8 :=
  if 48 ≤ b ∧ b ≤ 57 then some (b - 48)
  else if 97 ≤ b ∧ b ≤ 102 then some (b - 87)
  else if 65 ≤ b ∧ b ≤ 70 then some (b - 55)
  else none

/-- `u8::from_str_radix(_, 16)` on a two-byte slice. A leading plus sign is a
sign, as the standard library accepts it; a minus sign is refused for `u8`. -/
def fromStrRadix16 (hi lo : UInt8) : Option UInt8 :=
  if hi = 43 then hexValue lo
  else do
    let h ← hexValue hi
    let l ← hexValue lo
    pure (16 * h + l)

/-- The byte pairs of a text. A slice that is not on character boundaries is
refused by `str::get`; it also holds a byte that is not ASCII, so it is refused
here by `hexValue`. -/
def hexPairs : Bytes → Option Bytes
  | [] => some []
  | [_] => none
  | hi :: lo :: rest => do
    let b ← fromStrRadix16 hi lo
    let bs ← hexPairs rest
    pure (b :: bs)

def hexDecode (text : String) : Option Bytes := hexPairs (asBytes text)

theorem asBytes_ofList (cs : List Char) : asBytes (String.ofList cs) = Text.utf8 cs := by
  simp [asBytes, List.utf8Encode, Text.utf8]

theorem asBytes_eq (text : String) : asBytes text = Text.utf8 text.toList := by
  rw [← asBytes_ofList, String.ofList_toList]

/-- ASCII text has one byte for each character. -/
theorem asBytes_ascii {cs : List Char} (h : ∀ c ∈ cs, c.toNat < 128) :
    asBytes (String.ofList cs) = cs.map Char.toUInt8 := by
  rw [asBytes_ofList]
  induction cs with
  | nil => rfl
  | cons c cs ih =>
    rw [Text.utf8_cons, Text.utf8EncodeChar_of_lt (h c (by simp)),
      ih (fun d hd => h d (List.mem_cons_of_mem c hd))]
    rfl

/-- The two digits of a byte read back as the byte. -/
theorem fromStrRadix16_digits (b : UInt8) :
    fromStrRadix16 (hexDigit (b.toNat / 16)).toUInt8 (hexDigit (b.toNat % 16)).toUInt8 = some b := by
  revert b
  exact Text.forall_byte (by decide)

theorem hexDigit_ascii (n : Nat) : (hexDigit n).toNat < 128 := by
  by_cases h : n < 16
  · interval_cases n <;> decide
  · rw [hexDigit, List.getD_eq_getElem?_getD, List.getElem?_eq_none (by simp; omega)]
    decide

/-- Hexadecimal text decodes to the bytes it was printed from. -/
theorem hexDecode_hexEncode (bytes : Bytes) : hexDecode (hexEncode bytes) = some bytes := by
  have hascii : ∀ c ∈ bytes.flatMap (fun b => [hexDigit (b.toNat / 16), hexDigit (b.toNat % 16)]),
      c.toNat < 128 := by
    intro c hc
    obtain ⟨b, -, hb⟩ := List.mem_flatMap.mp hc
    rcases List.mem_pair.mp hb with rfl | rfl
    · exact hexDigit_ascii _
    · exact hexDigit_ascii _
  rw [hexDecode, hexEncode, asBytes_ascii hascii]
  induction bytes with
  | nil => rfl
  | cons b bytes ih =>
    have htail := ih (fun c hc => hascii c (by simp only [List.flatMap_cons, List.mem_append]; exact .inr hc))
    simp only [List.flatMap_cons, List.map_cons, List.cons_append, List.nil_append, hexPairs,
      fromStrRadix16_digits, htail]
    rfl

end Host
