import Ckman.Host

/-!
# Reading a secret

The bytes of a secret are read block by block into a growable buffer. A buffer
that is grown in place may be moved by the allocator, which leaves the old copy
in memory; the memory here remembers every append and every copy left behind.
-/
namespace SecretInput

open Host

/-- The machine's word size and its allocator. A refused request ends the
process. -/
structure Machine where
  bits : Nat
  wide : 16 ≤ bits
  /-- The capacity of the next allocation for a request, by the number of
  allocations before it. -/
  grant : Nat → Nat → Option Nat
  enough : ∀ count request capacity, grant count request = some capacity → request ≤ capacity
  bounded : ∀ count request capacity, grant count request = some capacity → capacity < 2 ^ (bits - 1)

namespace Machine

def usizeMax (m : Machine) : Nat := 2 ^ m.bits - 1

def isizeMax (m : Machine) : Nat := 2 ^ (m.bits - 1) - 1

/-- A block always fits on top of the largest buffer. -/
theorem isizeMax_add_block (m : Machine) : m.isizeMax + 8192 ≤ m.usizeMax := by
  have hhalf : 2 ^ m.bits = 2 * 2 ^ (m.bits - 1) := by
    rw [← pow_succ', Nat.sub_add_cancel (le_trans (by decide) m.wide)]
  have hblock : 2 ^ 15 ≤ 2 ^ (m.bits - 1) := Nat.pow_le_pow_right (by decide) (by have := m.wide; omega)
  simp only [isizeMax, usizeMax, hhalf]
  omega

end Machine

/-- One `extend_from_slice`: what the buffer held, what is added, and what the
buffer could hold. -/
structure Append where
  length : Nat
  added : Nat
  capacity : Nat
  deriving DecidableEq, Repr

def Append.InPlace (a : Append) : Prop := a.length + a.added ≤ a.capacity

/-- What the run has done to memory. -/
structure Memory where
  allocations : Nat
  appends : List Append
  /-- The contents of allocations that were freed without being cleared. -/
  left : List Bytes
  deriving DecidableEq, Repr

/-- No append outgrew its buffer and no copy was left behind. -/
structure Memory.Clean (memory : Memory) : Prop where
  appends : ∀ a ∈ memory.appends, a.InPlace
  left : memory.left = []

/-- A `Vec<u8>`. -/
structure Buffer (m : Machine) where
  bytes : Bytes
  capacity : Nat
  fits : bytes.length ≤ capacity
  bounded : capacity ≤ m.isizeMax

/-- Code that allocates; the error is the request that was refused. -/
abbrev Allocating (α : Type) := ExceptT Nat (StateM Memory) α

variable {m : Machine}

def allocate (m : Machine) (request : Nat) :
    Allocating { capacity : Nat // request ≤ capacity ∧ capacity ≤ m.isizeMax } := do
  let memory ← get
  match h : m.grant memory.allocations request with
  | none => throw request
  | some capacity =>
    set { memory with allocations := memory.allocations + 1 }
    pure ⟨capacity, m.enough _ _ _ h, Nat.le_sub_one_of_lt (m.bounded _ _ _ h)⟩

namespace Buffer

/-- `Vec::new()` -/
def new : Buffer m := ⟨[], 0, Nat.le_refl 0, Nat.zero_le _⟩

/-- `Vec::with_capacity(request)` -/
def withCapacity (m : Machine) (request : Nat) : Allocating (Buffer m) := do
  let capacity ← allocate m request
  pure ⟨[], capacity.val, Nat.zero_le _, capacity.property.2⟩

/-- `Vec::extend_from_slice`. A buffer that is too small grows by reallocation,
and the allocator may leave the old contents behind. -/
def extendFromSlice (buffer : Buffer m) (slice : Bytes) : Allocating (Buffer m) := do
  modify fun memory =>
    { memory with appends := memory.appends ++ [⟨buffer.bytes.length, slice.length, buffer.capacity⟩] }
  if h : buffer.bytes.length + slice.length ≤ buffer.capacity then
    pure ⟨buffer.bytes ++ slice, buffer.capacity, by rw [List.length_append]; exact h, buffer.bounded⟩
  else
    let capacity ← allocate m (max 8 (max (2 * buffer.capacity) (buffer.bytes.length + slice.length)))
    modify fun memory => { memory with left := memory.left ++ [buffer.bytes] }
    pure ⟨buffer.bytes ++ slice, capacity.val, by
      have := capacity.property.1
      rw [List.length_append]
      omega, capacity.property.2⟩

end Buffer

/-- One answer of the reader to a block of 8192 bytes; no bytes are the end of
the file. -/
inductive ReadAnswer where
  | ok (bytes : { bytes : Bytes // bytes.length ≤ 8192 })
  | interrupted
  | failed (error : IoError)

/-- `checked_add` in `usize`. -/
def checkedAdd (m : Machine) (a b : Nat) : Option Nat := if a + b ≤ m.usizeMax then some (a + b) else none

/-- Copy into a larger protected buffer; the old one is wiped when it is
dropped. -/
def replace (data : Buffer m) (needed : Nat) : Allocating (Buffer m) := do
  if needed > data.capacity then
    let replacement ← Buffer.withCapacity m (max needed (min (2 * data.capacity) m.usizeMax))
    replacement.extendFromSlice data.bytes
  else
    pure data

/-- The loop, over the answers that arrive. `none` still waits for the next
one. -/
def readLoop : List ReadAnswer → Buffer m → Allocating (Option (Except IoError (Buffer m)))
  | [], _ => pure none
  | .interrupted :: reads, data => readLoop reads data
  | .failed error :: _, _ => pure (some (.error error))
  | .ok block :: reads, data =>
    if block.val.length = 0 then pure (some (.ok data))
    else
      match checkedAdd m data.bytes.length block.val.length with
      | none => pure (some (.error ⟨.other, "secret input is too large"⟩))
      | some needed => do
        let data ← replace data needed
        let data ← data.extendFromSlice block.val
        readLoop reads data

def readSecretFrom (m : Machine) (reads : List ReadAnswer) : Allocating (Option (Except IoError Bytes)) := do
  let result ← readLoop reads (Buffer.new (m := m))
  pure (result.map fun r => r.map Buffer.bytes)

def ReadAnswer.goesOn : ReadAnswer → Bool
  | .ok block => block.val ≠ []
  | .interrupted => true
  | .failed _ => false

def ReadAnswer.bytes : ReadAnswer → Bytes
  | .ok block => block.val
  | _ => []

/-- All bytes before the end of the file or the first error that is not an
interruption. -/
def delivered (reads : List ReadAnswer) : Bytes := (reads.takeWhile ReadAnswer.goesOn).flatMap ReadAnswer.bytes

/-- The end of the file gives all bytes before it, and an error is passed on. -/
def expected (reads : List ReadAnswer) : Option (Except IoError Bytes) :=
  (reads.dropWhile ReadAnswer.goesOn).head?.map fun
    | .failed error => .error error
    | _ => .ok (delivered reads)

@[simp] theorem expected_interrupted (reads : List ReadAnswer) :
    expected (.interrupted :: reads) = expected reads := by
  simp only [expected, delivered, List.dropWhile_cons_of_pos (show ReadAnswer.interrupted.goesOn = true from rfl),
    List.takeWhile_cons_of_pos (show ReadAnswer.interrupted.goesOn = true from rfl), List.flatMap_cons,
    ReadAnswer.bytes, List.nil_append]

@[simp] theorem delivered_interrupted (reads : List ReadAnswer) :
    delivered (.interrupted :: reads) = delivered reads := by
  simp only [delivered, List.takeWhile_cons_of_pos (show ReadAnswer.interrupted.goesOn = true from rfl),
    List.flatMap_cons, ReadAnswer.bytes, List.nil_append]

section Block

variable {block : { bytes : Bytes // bytes.length ≤ 8192 }}

theorem expected_end (h : block.val = []) (reads : List ReadAnswer) :
    expected (.ok block :: reads) = some (.ok []) := by
  have hstop : ¬ (ReadAnswer.ok block).goesOn = true := by simp [ReadAnswer.goesOn, h]
  simp only [expected, delivered, List.dropWhile_cons_of_neg hstop, List.takeWhile_cons_of_neg hstop]
  rfl

theorem delivered_block (h : block.val ≠ []) (reads : List ReadAnswer) :
    delivered (.ok block :: reads) = block.val ++ delivered reads := by
  have hmore : (ReadAnswer.ok block).goesOn = true := by simp [ReadAnswer.goesOn, h]
  simp only [delivered, List.takeWhile_cons_of_pos hmore, List.flatMap_cons, ReadAnswer.bytes]

theorem expected_block (h : block.val ≠ []) (reads : List ReadAnswer) :
    expected (.ok block :: reads) = (expected reads).map fun r => r.map (block.val ++ ·) := by
  have hmore : (ReadAnswer.ok block).goesOn = true := by simp [ReadAnswer.goesOn, h]
  simp only [expected, List.dropWhile_cons_of_pos hmore, delivered_block h]
  cases (reads.dropWhile ReadAnswer.goesOn).head? with
  | none => rfl
  | some last => cases last <;> rfl

end Block

/-- The result of a run, or the request that was refused, and the memory after
it. -/
def run {α : Type} (p : Allocating α) (memory : Memory) : Except Nat α × Memory := StateT.run (ExceptT.run p) memory

/-- A run leaves memory clean, and returns a value as described or is stopped
by a refused request of at most `limit` bytes. -/
def Returns {α : Type} (m : Machine) (limit : Nat) (p : Allocating α) (memory : Memory) (P : α → Prop) : Prop :=
  (run p memory).2.Clean ∧
    ((∃ a, (run p memory).1 = .ok a ∧ P a) ∨
      ∃ request count, (run p memory).1 = .error request ∧ request ≤ limit ∧ m.grant count request = none)

section Runs

variable {α β : Type} {memory : Memory} {limit : Nat} {P : α → Prop}

theorem run_bind (p : Allocating α) (f : α → Allocating β) (memory : Memory) :
    run (p >>= f) memory = match run p memory with
      | (.ok a, after) => run (f a) after
      | (.error request, after) => (.error request, after) := by
  simp only [run, ExceptT.run_bind, StateT.run_bind]
  generalize StateT.run (ExceptT.run p) memory = o
  obtain ⟨r, after⟩ := o
  cases r <;> rfl

theorem Returns.pure {a : α} (hclean : memory.Clean) (h : P a) : Returns m limit (pure a) memory P :=
  ⟨hclean, .inl ⟨a, rfl, h⟩⟩

/-- A sequence returns when its first part does and the rest does after it. -/
theorem Returns.bind {p : Allocating α} {f : α → Allocating β} {Q : β → Prop}
    (hp : Returns m limit p memory P)
    (hf : ∀ a after, Memory.Clean after → P a → Returns m limit (f a) after Q) :
    Returns m limit (p >>= f) memory Q := by
  obtain ⟨hclean, hreturn⟩ := hp
  rw [Returns, run_bind]
  generalize run p memory = o at hclean hreturn
  obtain ⟨r, after⟩ := o
  cases r with
  | ok a =>
    have hpost : P a := by simpa using hreturn
    exact hf a after hclean hpost
  | error request => exact ⟨hclean, .inr (by simpa using hreturn)⟩

theorem Returns.mono {p : Allocating α} {Q : α → Prop} (h : Returns m limit p memory P) (himp : ∀ a, P a → Q a) :
    Returns m limit p memory Q := by
  obtain ⟨hclean, ⟨a, ha, hP⟩ | hrefused⟩ := h
  · exact ⟨hclean, .inl ⟨a, ha, himp a hP⟩⟩
  · exact ⟨hclean, .inr hrefused⟩

end Runs

section Steps

variable {memory : Memory} {limit : Nat}

theorem allocate_returns {request : Nat} (hclean : memory.Clean) (hlimit : request ≤ limit) :
    Returns m limit (allocate m request) memory fun _ => True := by
  have hget : run (get : Allocating Memory) memory = (.ok memory, memory) := rfl
  rw [Returns, allocate, run_bind, hget]
  dsimp only
  split
  · next h => exact ⟨hclean, .inr ⟨request, memory.allocations, rfl, hlimit, h⟩⟩
  · next capacity h => exact ⟨⟨hclean.appends, hclean.left⟩, .inl ⟨_, rfl, trivial⟩⟩

/-- What fits is appended in place. -/
theorem extendFromSlice_returns {buffer : Buffer m} {slice : Bytes} (hclean : memory.Clean)
    (hfits : buffer.bytes.length + slice.length ≤ buffer.capacity) :
    Returns m limit (buffer.extendFromSlice slice) memory fun longer =>
      longer.bytes = buffer.bytes ++ slice ∧ longer.capacity = buffer.capacity := by
  have hrun : run (buffer.extendFromSlice slice) memory =
      (.ok ⟨buffer.bytes ++ slice, buffer.capacity, by rw [List.length_append]; exact hfits, buffer.bounded⟩,
        { memory with appends := memory.appends ++ [⟨buffer.bytes.length, slice.length, buffer.capacity⟩] }) := by
    rw [Buffer.extendFromSlice, run_bind, dif_pos hfits]
    rfl
  rw [Returns, hrun]
  refine ⟨⟨?_, hclean.left⟩, .inl ⟨_, rfl, rfl, rfl⟩⟩
  intro a ha
  rcases List.mem_append.mp ha with ha | ha
  · exact hclean.appends a ha
  · rw [List.mem_singleton.mp ha]
    exact hfits

/-- The replacement holds the same bytes and has room for what is needed; it is
never asked to be larger than twice that. -/
theorem replace_returns {data : Buffer m} {needed : Nat} (hclean : memory.Clean) (hneeded : data.bytes.length ≤ needed)
    (hlimit : 2 * needed ≤ limit) :
    Returns m limit (replace data needed) memory fun larger =>
      larger.bytes = data.bytes ∧ needed ≤ larger.capacity := by
  rw [replace]
  split
  · next hsmall =>
    have hrequest : max needed (min (2 * data.capacity) m.usizeMax) ≤ limit := by omega
    have hwith : Returns m limit (Buffer.withCapacity m (max needed (min (2 * data.capacity) m.usizeMax))) memory
        fun empty => empty.bytes = [] ∧ needed ≤ empty.capacity := by
      refine Returns.bind (allocate_returns hclean hrequest) fun capacity after hafter _ => ?_
      exact Returns.pure hafter ⟨rfl, le_trans (Nat.le_max_left _ _) capacity.property.1⟩
    refine Returns.bind hwith fun replacement after hafter hempty => ?_
    have hfits : replacement.bytes.length + data.bytes.length ≤ replacement.capacity := by
      rw [hempty.1, List.length_nil, Nat.zero_add]
      exact le_trans hneeded hempty.2
    refine (extendFromSlice_returns hafter hfits).mono fun larger hlarger => ?_
    rw [hlarger.1, hlarger.2, hempty.1, List.nil_append]
    exact ⟨rfl, hempty.2⟩
  · next hlarge => exact Returns.pure hclean ⟨rfl, Nat.le_of_not_gt hlarge⟩

/-- The length of a buffer and one block never overflow. -/
theorem checkedAdd_block (data : Buffer m) (block : { bytes : Bytes // bytes.length ≤ 8192 }) :
    checkedAdd m data.bytes.length block.val.length = some (data.bytes.length + block.val.length) := by
  have hdata := le_trans data.fits data.bounded
  have hblock := block.property
  have hroom := m.isizeMax_add_block
  exact if_pos (by omega)

/-- One block: room is made, and the block is appended where it fits. -/
theorem block_returns {data : Buffer m} {block : { bytes : Bytes // bytes.length ≤ 8192 }} (hclean : memory.Clean)
    (hlimit : 2 * (data.bytes.length + block.val.length) ≤ limit) :
    Returns m limit (do
      let data ← replace data (data.bytes.length + block.val.length)
      data.extendFromSlice block.val) memory fun longer => longer.bytes = data.bytes ++ block.val := by
  refine Returns.bind (replace_returns hclean (Nat.le_add_right _ _) hlimit) fun larger after hafter hlarger => ?_
  have hfits : larger.bytes.length + block.val.length ≤ larger.capacity := by
    rw [hlarger.1]
    exact hlarger.2
  refine (extendFromSlice_returns hafter hfits).mono fun longer hlonger => ?_
  rw [hlonger.1, hlarger.1]

/-- The loop returns what its buffer holds and what is still delivered. -/
theorem readLoop_returns (reads : List ReadAnswer) (data : Buffer m) (hclean : memory.Clean)
    (hlimit : 2 * (data.bytes.length + (delivered reads).length) ≤ limit) :
    Returns m limit (readLoop reads data) memory fun result =>
      (result.map fun r => r.map Buffer.bytes) = (expected reads).map fun r => r.map (data.bytes ++ ·) := by
  induction reads generalizing data memory with
  | nil => exact Returns.pure hclean rfl
  | cons read reads ih =>
    cases read with
    | interrupted =>
      rw [delivered_interrupted] at hlimit
      rw [expected_interrupted]
      exact ih data hclean hlimit
    | failed error => exact Returns.pure hclean rfl
    | ok block =>
      by_cases hend : block.val = []
      · rw [readLoop, if_pos (by rw [hend]; rfl), expected_end hend]
        exact Returns.pure hclean (by simp [Except.map])
      · have hlength : block.val.length ≠ 0 := fun h => hend (List.eq_nil_of_length_eq_zero h)
        rw [delivered_block hend, List.length_append] at hlimit
        rw [readLoop, if_neg hlength, checkedAdd_block, expected_block hend]
        have hroom : 2 * (data.bytes.length + block.val.length) ≤ limit := by omega
        have hblock := block_returns hclean hroom
        have hrest : ∀ (longer : Buffer m) after, Memory.Clean after → longer.bytes = data.bytes ++ block.val →
            Returns m limit (readLoop reads longer) after fun result =>
              (result.map fun r => r.map Buffer.bytes) =
                ((expected reads).map fun r => r.map (block.val ++ ·)).map fun r => r.map (data.bytes ++ ·) := by
          intro longer after hafter hlonger
          refine (ih longer hafter ?_).mono fun result hresult => ?_
          · rw [hlonger, List.length_append]
            omega
          · rw [hresult, hlonger, Option.map_map]
            congr 1
            funext r
            cases r <;> simp [Except.map, List.append_assoc]
        have hboth := Returns.bind hblock hrest
        rw [bind_assoc] at hboth
        exact hboth

end Steps

/-- Whatever the reader answers and whatever the allocator grants, no append
outgrows its buffer and no copy of the secret is left behind. The result is all
bytes before the end of the file, or the first error that is not an
interruption, unless memory for at most twice the bytes read is refused. -/
theorem readSecretFrom_returns (m : Machine) (reads : List ReadAnswer) :
    Returns m (2 * (delivered reads).length) (readSecretFrom m reads) ⟨0, [], []⟩ fun result =>
      result = expected reads := by
  have hclean : Memory.Clean ⟨0, [], []⟩ := ⟨fun a ha => absurd ha List.not_mem_nil, rfl⟩
  have hlimit : 2 * ((Buffer.new : Buffer m).bytes.length + (delivered reads).length) ≤ 2 * (delivered reads).length := by
    simp only [Buffer.new, List.length_nil, Nat.zero_add]
    exact Nat.le_refl _
  have hloop := readLoop_returns reads Buffer.new hclean hlimit
  refine Returns.bind hloop fun result after hafter hresult => Returns.pure hafter ?_
  rw [hresult]
  cases expected reads with
  | none => rfl
  | some r => cases r <;> rfl

/-- A machine of 64 bits that grants what is asked for, up to the largest
allocation. -/
instance : Inhabited Machine where
  default :=
    { bits := 64
      wide := by decide
      grant := fun _ request => if request < 2 ^ 63 then some request else none
      enough := by
        intro count request capacity h
        rw [Option.ite_none_right_eq_some] at h
        exact Nat.le_of_eq (Option.some.inj h.2)
      bounded := by
        intro count request capacity h
        rw [Option.ite_none_right_eq_some] at h
        obtain ⟨hsmall, heq⟩ := h
        cases heq
        exact hsmall }

example : (run (readSecretFrom default [.ok ⟨[1, 2], by decide⟩, .interrupted, .ok ⟨[3], by decide⟩, .ok ⟨[], by decide⟩])
    ⟨0, [], []⟩).1 = .ok (some (.ok [1, 2, 3])) := by decide +kernel

end SecretInput
