import Mathlib.Data.List.Defs
import Mathlib.Tactic.Ring

/-!
# Digit strings

Numbers as fixed-width strings of digits, most significant first, in any base,
and lists cut into chunks of one size.
-/
namespace Radix

variable {base : Nat}

/-- The low `n` digits of `x`. -/
def encode (base : Nat) : Nat → Nat → List Nat
  | 0, _ => []
  | n + 1, x => x / base ^ n % base :: encode base n x

def decode (base : Nat) : List Nat → Nat
  | [] => 0
  | d :: ds => d * base ^ ds.length + decode base ds

@[simp] theorem length_encode (n x : Nat) : (encode base n x).length = n := by
  induction n with
  | zero => rfl
  | succ n ih => rw [encode, List.length_cons, ih]

/-- The digits by their positions. -/
theorem encode_eq_map_range (n x : Nat) :
    encode base n x = (List.range n).reverse.map (fun index => x / base ^ index % base) := by
  induction n with
  | zero => rfl
  | succ n ih => rw [encode, ih, List.range_succ, List.reverse_concat, List.map_cons]

theorem lt_of_mem_encode (hbase : 0 < base) {n x d : Nat} (h : d ∈ encode base n x) : d < base := by
  induction n with
  | zero => cases h
  | succ n ih =>
    rcases List.mem_cons.mp h with rfl | h
    · exact Nat.mod_lt _ hbase
    · exact ih h

theorem decode_lt {ds : List Nat} (h : ∀ d ∈ ds, d < base) : decode base ds < base ^ ds.length := by
  induction ds with
  | nil => simp [decode]
  | cons d ds ih =>
    have hd : d + 1 ≤ base := h d List.mem_cons_self
    have hds := ih fun e he => h e (List.mem_cons_of_mem d he)
    calc decode base (d :: ds) < d * base ^ ds.length + base ^ ds.length := by
          rw [decode]
          omega
      _ = (d + 1) * base ^ ds.length := by ring
      _ ≤ base * base ^ ds.length := Nat.mul_le_mul_right _ hd
      _ = base ^ (d :: ds).length := by rw [List.length_cons, pow_succ, Nat.mul_comm]

theorem decode_append (ds es : List Nat) :
    decode base (ds ++ es) = decode base ds * base ^ es.length + decode base es := by
  induction ds with
  | nil => simp [decode]
  | cons d ds ih =>
    rw [List.cons_append, decode, decode, ih, List.length_append, pow_add]
    ring

theorem decode_concat (ds : List Nat) (d : Nat) :
    decode base (ds ++ [d]) = decode base ds * base + d := by
  rw [decode_append]
  simp [decode]

theorem decode_encode_mod (n x : Nat) : decode base (encode base n x) = x % base ^ n := by
  induction n with
  | zero => simp [encode, decode, Nat.mod_one]
  | succ n ih =>
    rw [encode, decode, ih, length_encode, pow_succ, Nat.mod_mul]
    ring

/-- The digits of the high part and of the low part stand one after the other. -/
theorem encode_add (m n x : Nat) :
    encode base (m + n) x = encode base m (x / base ^ n) ++ encode base n x := by
  induction m with
  | zero => rw [Nat.zero_add, encode, List.nil_append]
  | succ m ih =>
    rw [show m + 1 + n = m + n + 1 by omega, encode, ih, encode, List.cons_append,
      Nat.div_div_eq_div_mul, Nat.add_comm m n, pow_add]

/-- Only the low part of the number is written. -/
theorem encode_mod (n x : Nat) : encode base n (x % base ^ n) = encode base n x := by
  induction n generalizing x with
  | zero => rfl
  | succ n ih =>
    have hdigit : x % base ^ (n + 1) / base ^ n % base = x / base ^ n % base := by
      rw [pow_succ, Nat.mod_mul_right_div_self, Nat.mod_mod]
    have hrest : x % base ^ (n + 1) % base ^ n = x % base ^ n :=
      Nat.mod_mod_of_dvd x (pow_dvd_pow base (Nat.le_succ n))
    rw [encode, encode, hdigit, ← ih (x % base ^ (n + 1)), hrest, ih x]

theorem encode_mul_add {m n x y : Nat} (hy : y < base ^ n) :
    encode base (m + n) (x * base ^ n + y) = encode base m x ++ encode base n y := by
  have hpos : 0 < base ^ n := by omega
  have hdiv : (x * base ^ n + y) / base ^ n = x := by
    rw [Nat.mul_comm, Nat.mul_add_div hpos, Nat.div_eq_of_lt hy, Nat.add_zero]
  have hmod : (x * base ^ n + y) % base ^ n = y := by
    rw [Nat.mul_comm, Nat.mul_add_mod, Nat.mod_eq_of_lt hy]
  rw [encode_add, hdiv, ← encode_mod n (x * base ^ n + y), hmod]

theorem encode_decode {ds : List Nat} (h : ∀ d ∈ ds, d < base) :
    encode base ds.length (decode base ds) = ds := by
  induction ds with
  | nil => rfl
  | cons d ds ih =>
    have hd : d < base := h d List.mem_cons_self
    have hds : ∀ e ∈ ds, e < base := fun e he => h e (List.mem_cons_of_mem d he)
    have hone : encode base 1 d = [d] := by
      rw [encode, encode, pow_zero, Nat.div_one, Nat.mod_eq_of_lt hd]
    rw [decode, List.length_cons, Nat.add_comm, encode_mul_add (decode_lt hds), ih hds, hone,
      List.singleton_append]

/-- Digit strings of one length are told apart by their numbers. -/
theorem decode_injective {ds es : List Nat} (hds : ∀ d ∈ ds, d < base) (hes : ∀ e ∈ es, e < base)
    (hlen : ds.length = es.length) (h : decode base ds = decode base es) : ds = es := by
  rw [← encode_decode hds, ← encode_decode hes, hlen, h]

section Chunks

variable {α : Type} {n : Nat}

theorem toChunks_go (hn : 0 < n) (xs : List α) (acc : Array α) (done : Array (List α))
    (hacc : acc.size ≤ n) :
    List.toChunks.go n xs acc done = done.toList ++
      (acc.toList ++ xs.take (n - acc.size)) :: (xs.drop (n - acc.size)).toChunks n := by
  induction xs generalizing acc done with
  | nil => simp [List.toChunks.go, List.toChunks]
  | cons x xs ih =>
    rw [List.toChunks.go]
    by_cases hfull : acc.size = n
    · obtain ⟨n, rfl⟩ : ∃ m, n = m + 1 := ⟨n - 1, by omega⟩
      have hcons : (x :: xs).toChunks (n + 1) = List.toChunks.go (n + 1) xs #[x] #[] := rfl
      rw [if_pos (beq_iff_eq.mpr hfull), ih _ _ (by simp), hfull]
      simp only [Nat.sub_self, List.take_zero, List.drop_zero, List.append_nil]
      rw [hcons, ih _ _ (by simp)]
      simp
    · obtain ⟨k, hk⟩ : ∃ k, n - acc.size = k + 1 := ⟨n - acc.size - 1, by omega⟩
      have hsize : n - (acc.push x).size = k := by
        rw [Array.size_push]
        omega
      rw [if_neg (by simpa using hfull), ih _ _ (by rw [Array.size_push]; omega), hsize, hk]
      simp

/-- The first chunk is cut off the front. -/
theorem toChunks_eq (hn : 0 < n) {xs : List α} (hxs : xs ≠ []) :
    xs.toChunks n = xs.take n :: (xs.drop n).toChunks n := by
  obtain ⟨n, rfl⟩ : ∃ m, n = m + 1 := ⟨n - 1, by omega⟩
  obtain ⟨x, xs, rfl⟩ := List.exists_cons_of_ne_nil hxs
  have hcons : (x :: xs).toChunks (n + 1) = List.toChunks.go (n + 1) xs #[x] #[] := rfl
  rw [hcons, toChunks_go hn _ _ _ (by simp)]
  simp

theorem flatten_toChunks (hn : 0 < n) (xs : List α) : (xs.toChunks n).flatten = xs := by
  induction hlen : xs.length using Nat.strong_induction_on generalizing xs with
  | _ len ih =>
    subst hlen
    by_cases hxs : xs = []
    · subst hxs
      rfl
    · have hpos := List.length_pos_iff.mpr hxs
      have hrest : (xs.drop n).length < xs.length := by
        rw [List.length_drop]
        omega
      rw [toChunks_eq hn hxs, List.flatten_cons, ih _ hrest _ rfl, List.take_append_drop]

/-- The chunks of a list that they divide are all whole. -/
theorem length_of_mem_toChunks (hn : 0 < n) {xs chunk : List α} (hdvd : n ∣ xs.length)
    (h : chunk ∈ xs.toChunks n) : chunk.length = n := by
  induction hlen : xs.length using Nat.strong_induction_on generalizing xs with
  | _ len ih =>
    subst hlen
    by_cases hxs : xs = []
    · subst hxs
      cases h
    · have hle : n ≤ xs.length := Nat.le_of_dvd (List.length_pos_iff.mpr hxs) hdvd
      have hrest : (xs.drop n).length = xs.length - n := List.length_drop
      rw [toChunks_eq hn hxs] at h
      rcases List.mem_cons.mp h with rfl | h
      · exact List.length_take_of_le hle
      · exact ih _ (by omega) (hrest ▸ Nat.dvd_sub hdvd (dvd_refl n)) h rfl

end Chunks

end Radix
