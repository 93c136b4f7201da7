import Ckman.PrivateKeyFile
import Mathlib.Data.List.GetD

/-!
# The key derivation of PKCS#12

The construction of RFC 7292, appendix B.2, over a hash that is a parameter,
and that `kdf` computes the first bytes of it.
-/
namespace Pkcs12

open Host

set_option maxRecDepth 4000

namespace Derivation

section Construction

variable (hash : Bytes → Bytes) (u v : Nat)

/-- Copies of the material one after the other, the last of which may be cut off. -/
def copies (n : Nat) (material : Bytes) : Bytes := (List.replicate n material).flatten.take n

def toBlocks (material : Bytes) : Bytes := copies (v * ((material.length + v - 1) / v)) material

/-- `I_j + B + 1` modulo `2 ^ (8 v)`. -/
def addBlock (b block : Bytes) : Bytes :=
  BigEndian.encode v ((BigEndian.decode block + BigEndian.decode b + 1) % 2 ^ (8 * v))

/-- The blocks of `I` after a round whose output is `a`. -/
def nextBlocks (a i : Bytes) : Bytes := (i.toChunks v).flatMap (addBlock v (copies v a))

/-- `A_1` to `A_c`, each of which is hashed `r` times. -/
def outputs (r : Nat) (d : Bytes) : Nat → Bytes → List Bytes
  | 0, _ => []
  | c + 1, i => hash^[r] (d ++ i) :: outputs r d c (nextBlocks v (hash^[r] (d ++ i)) i)

/-- The first `n` bytes of the output for the purpose `id`. -/
def key (id : UInt8) (salt password : Bytes) (r n : Nat) : Bytes :=
  (outputs hash v r (List.replicate v id) ((n + u - 1) / u)
    (toBlocks v salt ++ toBlocks v password)).flatten.take n

end Construction

end Derivation

namespace MacDigest

@[simp] theorem length_addReversed (bs cs : Bytes) (carry : Nat) :
    (addReversed bs cs carry).length = bs.length := by
  induction bs generalizing cs carry with
  | nil => cases cs <;> rfl
  | cons b bs ih =>
    cases cs with
    | nil => rfl
    | cons c cs => rw [addReversed, List.length_cons, List.length_cons, ih]

/-- The carry out of the last byte is lost, and no other. -/
theorem decode_addReversed {bs cs : Bytes} (hlen : bs.length = cs.length) (carry : Nat) :
    LittleEndian.decode (addReversed bs cs carry) =
      (LittleEndian.decode bs + LittleEndian.decode cs + carry) % 256 ^ bs.length := by
  induction bs generalizing cs carry with
  | nil =>
    cases cs with
    | nil => simp [addReversed, LittleEndian.decode, Nat.mod_one]
    | cons c cs => cases hlen
  | cons b bs ih =>
    cases cs with
    | nil => cases hlen
    | cons c cs =>
      have hbyte : (UInt8.ofNat (b.toNat + c.toNat + carry)).toNat =
          (b.toNat + c.toNat + carry) % 256 := by simp
      have hsum : b.toNat + 256 * LittleEndian.decode bs + (c.toNat + 256 * LittleEndian.decode cs) +
          carry = b.toNat + c.toNat + carry +
            256 * (LittleEndian.decode bs + LittleEndian.decode cs) := by ring
      have hlow : (b.toNat + c.toNat + carry +
          256 * (LittleEndian.decode bs + LittleEndian.decode cs)) % 256 =
            (b.toNat + c.toNat + carry) % 256 := Nat.add_mul_mod_self_left _ _ _
      have hhigh : (b.toNat + c.toNat + carry +
          256 * (LittleEndian.decode bs + LittleEndian.decode cs)) / 256 =
            LittleEndian.decode bs + LittleEndian.decode cs + (b.toNat + c.toNat + carry) / 256 := by
        omega
      rw [addReversed, LittleEndian.decode, LittleEndian.decode, LittleEndian.decode, hbyte,
        ih (by simpa using hlen), hsum, List.length_cons, pow_succ,
        Nat.mul_comm (256 ^ bs.length) 256, Nat.mod_mul, hlow, hhigh]

/-- The loop over the bytes of a block adds its number, `B` and one. -/
theorem addBlock_eq {v : Nat} {b block : Bytes} (hb : b.length = v) (hblock : block.length = v) :
    addBlock b block = Derivation.addBlock v b block := by
  subst hblock
  have hpow : 2 ^ (8 * block.length) = 256 ^ block.length := pow_mul 2 8 block.length
  have hdecode : ∀ bs : Bytes, LittleEndian.decode bs.reverse = BigEndian.decode bs := fun bs => by
    rw [← LittleEndian.decode_reverse, List.reverse_reverse]
  rw [Derivation.addBlock, hpow]
  refine BigEndian.decode_injective ?_ ?_
  · rw [addBlock, List.length_reverse, length_addReversed, List.length_reverse,
      BigEndian.length_encode]
  · rw [BigEndian.decode_encode (Nat.mod_lt _ (Nat.pow_pos (by decide))), addBlock,
      LittleEndian.decode_reverse, decode_addReversed (by simp [hb]), hdecode, hdecode,
      List.length_reverse]

theorem getElem?_copies {material : Bytes} (k i : Nat) (h : i < k * material.length) :
    (List.replicate k material).flatten[i]? = material[i % material.length]? := by
  induction k generalizing i with
  | zero => omega
  | succ k ih =>
    rw [Nat.succ_mul] at h
    rw [List.replicate_succ, List.flatten_cons]
    by_cases hi : i < material.length
    · rw [List.getElem?_append_left hi, Nat.mod_eq_of_lt hi]
    · rw [List.getElem?_append_right (by omega), ih _ (by omega), ← Nat.mod_eq_sub_mod (by omega)]

/-- The iterator over and over again gives copies of the material. -/
theorem cycleTake_eq (n : Nat) (material : Bytes) :
    cycleTake n material = Derivation.copies n material := by
  rw [Derivation.copies]
  by_cases hempty : material = []
  · subst hempty
    rw [cycleTake, if_pos rfl, List.flatten_replicate_nil, List.take_nil]
  · have hpos := List.length_pos_iff.mpr hempty
    rw [cycleTake, if_neg hempty]
    apply List.ext_getElem?
    intro i
    rw [List.getElem?_map, List.getElem?_take]
    by_cases hi : i < n
    · have hmod : i % material.length < material.length := Nat.mod_lt _ hpos
      have hcopies : i < n * material.length := lt_of_lt_of_le hi (Nat.le_mul_of_pos_right n hpos)
      rw [if_pos hi, getElem?_copies n i hcopies, List.getElem?_range hi, Option.map_some,
        List.getD_eq_getElem _ _ hmod, List.getElem?_eq_getElem hmod]
    · rw [if_neg hi, List.getElem?_eq_none (by rw [List.length_range]; omega), Option.map_none]

theorem length_copies {n : Nat} {material : Bytes} (h : material ≠ []) :
    (Derivation.copies n material).length = n := by
  rw [← cycleTake_eq, cycleTake, if_neg h, List.length_map, List.length_range]

theorem fill_eq (v : Nat) (material : Bytes) : fill v material = Derivation.toBlocks v material :=
  cycleTake_eq _ _

/-- Filled material is made of whole blocks. -/
theorem dvd_length_toBlocks (v : Nat) (material : Bytes) :
    v ∣ (Derivation.toBlocks v material).length := by
  rw [Derivation.toBlocks]
  by_cases hempty : material = []
  · subst hempty
    rw [Derivation.copies, List.flatten_replicate_nil, List.take_nil]
    exact dvd_zero v
  · rw [length_copies hempty]
    exact dvd_mul_right v _

section Loop

variable {Secret Point : Type} {crates : Crates Secret Point} {self : MacDigest}

theorem blockLen_pos (self : MacDigest) : 0 < self.blockLen := by
  cases self <;> decide

theorem outLen_pos (self : MacDigest) : 0 < self.outLen := by
  cases self <;> decide

theorem stretch_eq {iterations : Nat} (h : 1 ≤ iterations) (input : Bytes) :
    stretch crates self input iterations = (crates.digest self)^[iterations] input := by
  obtain ⟨n, rfl⟩ := Nat.exists_eq_add_of_le' h
  rw [stretch, Nat.add_sub_cancel, Function.iterate_succ_apply]

/-- The output of a round has the length of the digest. -/
theorem length_iterate (hdigest : ∀ bytes, (crates.digest self bytes).length = self.outLen)
    {iterations : Nat} (h : 1 ≤ iterations) (input : Bytes) :
    ((crates.digest self)^[iterations] input).length = self.outLen := by
  obtain ⟨n, rfl⟩ := Nat.exists_eq_add_of_le' h
  rw [Function.iterate_succ_apply', hdigest]

/-- Every block is replaced, and the blocks stay whole. -/
theorem flatMap_addBlock {a i : Bytes} (ha : a ≠ []) (hi : self.blockLen ∣ i.length) :
    (i.toChunks self.blockLen).flatMap (addBlock (cycleTake self.blockLen a)) =
        Derivation.nextBlocks self.blockLen a i ∧
      self.blockLen ∣ (Derivation.nextBlocks self.blockLen a i).length := by
  have hchunk : ∀ block ∈ i.toChunks self.blockLen, block.length = self.blockLen :=
    fun block hblock => Radix.length_of_mem_toChunks (blockLen_pos self) hi hblock
  constructor
  · refine List.flatMap_congr fun block hblock => ?_
    rw [cycleTake_eq, addBlock_eq (length_copies ha) (hchunk block hblock)]
  · rw [Derivation.nextBlocks, List.length_flatMap]
    simp only [Derivation.addBlock, BigEndian.length_encode]
    rw [List.map_const', List.sum_replicate_nat]
    exact dvd_mul_left _ _

theorem div_add_one {n u : Nat} (hu : 0 < u) (hn : 0 < n) :
    (n + u - 1) / u = (n - u + u - 1) / u + 1 := by
  by_cases hle : u ≤ n
  · rw [show n + u - 1 = n - u + u - 1 + u by omega, Nat.add_div_right _ hu]
  · rw [show n - u + u - 1 = u - 1 by omega, Nat.div_eq_of_lt (by omega : u - 1 < u)]
    exact Nat.div_eq_of_lt_le (by omega) (by omega)

/-- Every turn adds one output; the turns go on until there is enough. -/
theorem kdfLoop_eq (hdigest : ∀ bytes, (crates.digest self bytes).length = self.outLen)
    {iterations : Nat} (h : 1 ≤ iterations) (d : Bytes) (n fuel : Nat) (i out : Bytes)
    (hfuel : n ≤ out.length + fuel) (hi : self.blockLen ∣ i.length) :
    kdfLoop crates self d iterations n fuel i out = out ++
      (Derivation.outputs (crates.digest self) self.blockLen iterations d
        ((n - out.length + self.outLen - 1) / self.outLen) i).flatten := by
  have hpos := outLen_pos self
  have hdone : ∀ m, n ≤ m → (n - m + self.outLen - 1) / self.outLen = 0 :=
    fun m hle => Nat.div_eq_of_lt (by omega)
  induction fuel generalizing i out with
  | zero =>
    rw [hdone _ (by omega), kdfLoop, Derivation.outputs, List.flatten_nil, List.append_nil]
  | succ fuel ih =>
    rw [kdfLoop]
    split_ifs with hmore
    · have hlen := length_iterate hdigest h (d ++ i)
      have hne : (crates.digest self)^[iterations] (d ++ i) ≠ [] := by
        intro hnil
        rw [hnil] at hlen
        exact hpos.ne hlen
      obtain ⟨hnext, hdvd⟩ := flatMap_addBlock hne hi
      have hout : (out ++ (crates.digest self)^[iterations] (d ++ i)).length =
          out.length + self.outLen := by
        rw [List.length_append, hlen]
      have hrest : n - out.length - self.outLen =
          n - (out ++ (crates.digest self)^[iterations] (d ++ i)).length := by
        rw [hout]
        omega
      have hcount := div_add_one hpos (show 0 < n - out.length by omega)
      rw [hrest] at hcount
      rw [stretch_eq h]
      dsimp only
      rw [hnext, ih _ _ (by omega) hdvd, hcount, Derivation.outputs, List.flatten_cons,
        List.append_assoc]
    · rw [hdone _ (by omega), Derivation.outputs, List.flatten_nil, List.append_nil]

theorem length_outputs (hdigest : ∀ bytes, (crates.digest self bytes).length = self.outLen)
    {iterations : Nat} (h : 1 ≤ iterations) (d : Bytes) (c : Nat) (i : Bytes) :
    (Derivation.outputs (crates.digest self) self.blockLen iterations d c i).flatten.length =
      c * self.outLen := by
  induction c generalizing i with
  | zero => rw [Derivation.outputs, List.flatten_nil, List.length_nil, Nat.zero_mul]
  | succ c ih =>
    rw [Derivation.outputs, List.flatten_cons, List.length_append, length_iterate hdigest h, ih,
      Nat.succ_mul, Nat.add_comm]

/-- `kdf` returns as many bytes of the construction as it is asked for. -/
theorem kdf_eq_key (hdigest : ∀ bytes, (crates.digest self bytes).length = self.outLen)
    {iterations : Nat} (h : 1 ≤ iterations) (id : UInt8) (password salt : Bytes) (n : Nat) :
    self.kdf crates id password salt iterations n =
        Derivation.key (crates.digest self) self.outLen self.blockLen id salt password iterations n ∧
      (self.kdf crates id password salt iterations n).length = n := by
  have hpos := outLen_pos self
  have hdvd : self.blockLen ∣ (Derivation.toBlocks self.blockLen salt ++
      Derivation.toBlocks self.blockLen password).length := by
    rw [List.length_append]
    exact Nat.dvd_add (dvd_length_toBlocks _ _) (dvd_length_toBlocks _ _)
  have hkdf : self.kdf crates id password salt iterations n =
      Derivation.key (crates.digest self) self.outLen self.blockLen id salt password iterations n := by
    rw [kdf, fill_eq, fill_eq, kdfLoop_eq hdigest h _ _ _ _ _ (by omega) hdvd, List.nil_append,
      List.length_nil, Nat.sub_zero, Derivation.key]
  refine ⟨hkdf, ?_⟩
  have henough : n ≤ (n + self.outLen - 1) / self.outLen * self.outLen := by
    have hmod := Nat.mod_lt (n + self.outLen - 1) hpos
    have hsplit := Nat.div_add_mod' (n + self.outLen - 1) self.outLen
    omega
  rw [hkdf, Derivation.key, List.length_take, length_outputs hdigest h]
  exact Nat.min_eq_left henough

end Loop

end MacDigest

namespace Fixture

open Attestation.Fixture (ofHex)

/-- The password `smeg` with its terminator. -/
def smeg : Bytes := ofHex 10 0x0073006d006500670000

def smegSalt : Bytes := ofHex 8 0x0a58cf64530d823f

/-- The blocks of the salt and the password after the first round. -/
def smegNext : Bytes :=
  ofHex 46 0x9503b58dce7a32854d042a6bcb5eaa8dc16b5e7eddb8686885c57faa95b8dd4682a9f7b30a2011599503b58dce7a ++
  ofHex 46 0x32854d042a6bcb5eaa8dc16b5e7eddb868698b1de6967bd1b0ad42ab5b7a78be28b3b7798f1a8b1de6967bd1b0ad ++
  ofHex 36 0x42ab5b7a78be28b3b7798f1a8b1de6967bd1b0ad42ab5b7a78be28b3b7798f1a8b1de697

def smegFirst : Bytes := ofHex 20 0x8aaae6297b6cb04642ab5b077851284eb7128f1a

def smegSecond : Bytes := ofHex 20 0x2a7fbca340830d0ce0d7879d3efedb33c8ae755c

def smegSha1 (bytes : Bytes) : Bytes :=
  if bytes = List.replicate 64 1 ++ (MacDigest.fill 64 smegSalt ++ MacDigest.fill 64 smeg) then smegFirst
  else if bytes = List.replicate 64 1 ++ smegNext then smegSecond
  else List.replicate 20 0

def smegCrates : Crates Unit Unit := { Keys.Fixture.testCrates with digest := fun _ => smegSha1 }

theorem length_smegSha1 (bytes : Bytes) : (smegSha1 bytes).length = 20 := by
  have hfirst : smegFirst.length = 20 := by decide
  have hsecond : smegSecond.length = 20 := by decide
  rw [smegSha1]
  split_ifs
  · exact hfirst
  · exact hsecond
  · exact List.length_replicate

end Fixture

/-- A derivation of 24 bytes, which takes a second round. -/
theorem kdf_eq_key_smeg :
    MacDigest.sha1.kdf Fixture.smegCrates 1 Fixture.smeg Fixture.smegSalt 1 24 =
        Derivation.key (Fixture.smegCrates.digest .sha1) 20 64 1 Fixture.smegSalt Fixture.smeg 1 24 ∧
      MacDigest.sha1.kdf Fixture.smegCrates 1 Fixture.smeg Fixture.smegSalt 1 24 =
        Attestation.Fixture.ofHex 24 0x8aaae6297b6cb04642ab5b077851284eb7128f1a2a7fbca3 := by
  have hkey := @MacDigest.kdf_eq_key _ _ Fixture.smegCrates .sha1 Fixture.length_smegSha1 1
    (Nat.le_refl 1) 1 Fixture.smeg Fixture.smegSalt 24
  exact ⟨hkey.1, by decide⟩

end Pkcs12
