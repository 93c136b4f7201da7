import Ckman.BigEndian
import Mathlib.Data.Nat.Log

/-!
# DER elements

Elements with a tag of one byte and a definite length in as few bytes as it
takes: how they are written and how they are read.
-/
namespace Der

/-- A number in as few bytes as it has, one for zero. -/
def minimal (n : Nat) : List UInt8 := BigEndian.encode (Nat.log 256 n + 1) n

def lengthBytes (n : Nat) : List UInt8 :=
  if n < 128 then [UInt8.ofNat n] else UInt8.ofNat (128 + (minimal n).length) :: minimal n

def tlv (tag : UInt8) (contents : List UInt8) : List UInt8 :=
  tag :: (lengthBytes contents.length ++ contents)

def split (tag : UInt8) (length : Nat) (bytes : List UInt8) :
    Option (UInt8 × List UInt8 × List UInt8) :=
  if length ≤ bytes.length then some (tag, bytes.take length, bytes.drop length) else none

/-- The first element: its tag, its contents and what follows it. -/
def read : List UInt8 → Option (UInt8 × List UInt8 × List UInt8)
  | tag :: first :: rest =>
    if first.toNat < 128 then split tag first.toNat rest
    else
      let width := first.toNat - 128
      let length := BigEndian.decode (rest.take width)
      if width ≤ rest.length ∧ 128 ≤ length ∧ minimal length = rest.take width then
        split tag length (rest.drop width)
      else none
  | _ => none

variable {tag : UInt8} {contents rest bytes : List UInt8}

theorem length_minimal (n : Nat) : (minimal n).length = Nat.log 256 n + 1 := BigEndian.length_encode _ _

theorem decode_minimal (n : Nat) : BigEndian.decode (minimal n) = n :=
  BigEndian.decode_encode (Nat.lt_pow_succ_log_self (by decide) n)

/-- The lengths that can be written: their own length takes less than 128 bytes. -/
theorem length_minimal_lt {n : Nat} (h : n < 256 ^ 127) : (minimal n).length < 128 := by
  rw [length_minimal]
  have := Nat.log_lt_of_lt_pow' (by decide) h
  omega

theorem split_eq_some_iff {t : UInt8} {n : Nat} :
    split t n bytes = some (tag, contents, rest) ↔
      t = tag ∧ contents.length = n ∧ bytes = contents ++ rest := by
  rw [split]
  constructor
  · intro h
    split_ifs at h with hle
    cases h
    exact ⟨rfl, List.length_take_of_le hle, (List.take_append_drop n bytes).symm⟩
  · rintro ⟨rfl, rfl, rfl⟩
    rw [if_pos (by simp), List.take_left, List.drop_left]

/-- What is written is read back, with whatever follows it. -/
theorem read_tlv_append (h : contents.length < 256 ^ 127) :
    read (tlv tag contents ++ rest) = some (tag, contents, rest) := by
  have hsplit : split tag contents.length (contents ++ rest) = some (tag, contents, rest) :=
    split_eq_some_iff.mpr ⟨rfl, rfl, rfl⟩
  rw [tlv, lengthBytes, List.cons_append, List.append_assoc]
  by_cases hshort : contents.length < 128
  · have hfirst : (UInt8.ofNat contents.length).toNat = contents.length :=
      UInt8.toNat_ofNat_of_lt' (by rw [UInt8.size]; omega)
    rw [if_pos hshort, List.singleton_append, read, hfirst, if_pos hshort, hsplit]
  · have hwidth := length_minimal_lt h
    have hfirst : (UInt8.ofNat (128 + (minimal contents.length).length)).toNat =
        128 + (minimal contents.length).length :=
      UInt8.toNat_ofNat_of_lt' (by rw [UInt8.size]; omega)
    rw [if_neg hshort, List.cons_append, read, hfirst, if_neg (by omega)]
    simp only [Nat.add_sub_cancel_left, List.take_left, List.drop_left, decode_minimal, hsplit]
    refine if_pos ⟨?_, by omega, trivial⟩
    rw [List.length_append]
    omega

theorem read_eq_some_iff :
    read bytes = some (tag, contents, rest) ↔
      bytes = tlv tag contents ++ rest ∧ contents.length < 256 ^ 127 := by
  refine ⟨fun h => ?_, fun ⟨hbytes, hlen⟩ => by rw [hbytes, read_tlv_append hlen]⟩
  match bytes, h with
  | [], h => cases h
  | [_], h => cases h
  | t :: first :: more, h =>
    rw [read] at h
    have hfirst := first.toNat_lt
    split_ifs at h with hshort
    · obtain ⟨rfl, hlen, rfl⟩ := split_eq_some_iff.mp h
      refine ⟨?_, hlen ▸ hshort.trans (by decide)⟩
      rw [tlv, lengthBytes, hlen, if_pos hshort, UInt8.ofNat_toNat]
      rfl
    · simp only at h
      split_ifs at h with hlong
      obtain ⟨hwidth, hge, hminimal⟩ := hlong
      obtain ⟨rfl, hlen, hmore⟩ := split_eq_some_iff.mp h
      have hsize : (minimal contents.length).length = first.toNat - 128 := by
        rw [hlen, hminimal, List.length_take_of_le hwidth]
      constructor
      · have htag : UInt8.ofNat (128 + (first.toNat - 128)) = first := by
          rw [show 128 + (first.toNat - 128) = first.toNat by omega, UInt8.ofNat_toNat]
        rw [tlv, lengthBytes, if_neg (by omega), hsize, htag, hlen, hminimal]
        simp only [List.cons_append, List.append_assoc, ← hmore, List.take_append_drop]
      · refine Nat.lt_pow_of_log_lt (by decide) ?_
        rw [length_minimal] at hsize
        omega

/-- An element is longer than its contents, by no more than they are long. -/
theorem length_tlv (tag : UInt8) (contents : List UInt8) :
    contents.length + 2 ≤ (tlv tag contents).length ∧
      (tlv tag contents).length ≤ 2 * contents.length + 2 := by
  rw [tlv, lengthBytes]
  by_cases hshort : contents.length < 128
  · rw [if_pos hshort, List.length_cons, List.length_append, List.length_singleton]
    omega
  · have hlog : Nat.log 256 contents.length < contents.length := Nat.log_lt_self 256 (by omega)
    rw [if_neg hshort, List.length_cons, List.length_append, List.length_cons, length_minimal]
    omega

def element (tag : UInt8) (bytes : List UInt8) : Option (List UInt8) :=
  match read bytes with
  | some (found, contents, []) => if found = tag then some contents else none
  | _ => none

theorem element_eq_some_iff :
    element tag bytes = some contents ↔ bytes = tlv tag contents ∧ contents.length < 256 ^ 127 := by
  constructor
  · intro h
    rw [element] at h
    split at h
    · rename_i found contents' hread
      split_ifs at h with hfound
      cases h
      rw [← hfound]
      simpa using read_eq_some_iff.mp hread
    · cases h
  · rintro ⟨rfl, hlen⟩
    have hread := @read_tlv_append tag contents [] hlen
    rw [List.append_nil] at hread
    rw [element, hread]
    exact if_pos rfl

/-- The tags of the first `n` elements. -/
def tags : Nat → List UInt8 → Option (List UInt8)
  | 0, _ => some []
  | n + 1, bytes => do
    let (tag, _, rest) ← read bytes
    let more ← tags n rest
    pure (tag :: more)

/-- The tags of the first `n` elements in a SEQUENCE that nothing follows. -/
def sequenceTags (n : Nat) (bytes : List UInt8) : Option (List UInt8) := do
  let (tag, contents, rest) ← read bytes
  if tag = 0x30 ∧ rest = [] then tags n contents else none

end Der
