import Ckman.BigEndian
import Ckman.PivCard

/-!
# The pivman records

ADMIN DATA and PRINTED are BER-TLV records. What the encoder writes the parser
reads back, so equal encodings are equal records; both facts rest on the codec
of libcanokey only through its documented behaviour.
-/
namespace Piv

open Host

/-- A management key is 24 bytes of 3DES or AES-192. -/
abbrev KeyBytes := { bytes : Bytes // bytes.length = 24 }

def pivmanObjectId : ObjectId := ⟨[0x5f, 0xff, 0x00]⟩

def pivmanProtectedObjectId : ObjectId := ⟨[0x5f, 0xc1, 0x09]⟩

/-- PBKDF2-HMAC-SHA1 of the PIN and a salt, 10000 iterations. -/
def deriveManagementKey (crates : Crates) (pin salt : Bytes) : KeyBytes :=
  crates.pbkdf2HmacSha1 pin salt 10000 24

/-- The error of every malformed record. -/
def invalidRecord : Error := (Error.new .invalidResponse).at .parsing

/-- The contents of a value that is exactly one field with this tag and
acceptable contents. -/
def onlyField (tlv : Tlv) (tag : Nat) (accept : Bytes → Bool) (value : Bytes) :
    Except Error Bytes :=
  match tlv.next value with
  | .error e => .error e
  | .ok none => .error invalidRecord
  | .ok (some (found, contents, rest)) =>
    if found ≠ tag ∨ accept contents = false then .error invalidRecord
    else
      match tlv.next rest with
      | .error e => .error e
      | .ok (some _) => .error invalidRecord
      | .ok none => .ok contents

def pushField (tlv : Tlv) (written : Bytes) (tag : UInt8) : Option Bytes → Option Bytes
  | none => some written
  | some value => tlv.push written tag value

structure PivmanData where
  /-- Bit 0: PUK blocked, bit 1: management key stored on device. -/
  flags : Option UInt8
  salt : Option Bytes
  pinTimestamp : Option UInt32
  deriving DecidableEq, Repr

namespace PivmanData

/-- `PivmanData::default`: nothing is configured. -/
def empty : PivmanData := ⟨none, none, none⟩

/-- One turn of the `while let` loop: a field is accepted once. -/
def addField (data : PivmanData) (tag : Nat) (value : Bytes) : Except Error PivmanData :=
  if tag = 0x81 ∧ data.flags = none ∧ value.length = 1 then
    .ok { data with flags := value.head? }
  else if tag = 0x82 ∧ data.salt = none then .ok { data with salt := some value }
  else if tag = 0x83 ∧ data.pinTimestamp = none ∧ value.length = 4 then
    .ok { data with pinTimestamp := some (UInt32.ofNat (BigEndian.decode value)) }
  else .error invalidRecord

/-- The `while let` loop. Every field takes a byte, so fuel above the length of
the input is never used up. -/
def readFields (tlv : Tlv) : Nat → Bytes → PivmanData → Except Error PivmanData
  | 0, _, _ => .error invalidRecord
  | fuel + 1, bytes, data =>
    match tlv.next bytes with
    | .error e => .error e
    | .ok none => .ok data
    | .ok (some (tag, value, rest)) => do
      let data ← data.addField tag value
      readFields tlv fuel rest data

def fromValue (tlv : Tlv) (value : Bytes) : Except Error PivmanData :=
  if value = [] then .ok empty
  else do
    let contents ← onlyField tlv 0x80 (fun _ => true) value
    if contents = [] then .ok empty
    else readFields tlv (contents.length + 1) contents empty

/-- Encode the object value; empty when nothing is configured. A missing result
is the panic of an unwrapped push. -/
def toValue (tlv : Tlv) (data : PivmanData) : Option Bytes := do
  let inner ← pushField tlv [] 0x81 (data.flags.map (fun flags => [flags]))
  let inner ← pushField tlv inner 0x82 data.salt
  let inner ← pushField tlv inner 0x83
    (data.pinTimestamp.map (fun timestamp => BigEndian.encode 4 timestamp.toNat))
  if inner = [] then pure [] else tlv.push [] 0x80 inner

def pukBlocked (data : PivmanData) : Bool := data.flags.getD 0 &&& 1 ≠ 0

def hasStoredKey (data : PivmanData) : Bool := data.flags.getD 0 &&& 2 ≠ 0

def hasDerivedKey (data : PivmanData) : Bool := data.salt.isSome

def setFlag (data : PivmanData) (mask : UInt8) (value : Bool) : PivmanData :=
  if value then { data with flags := some (data.flags.getD 0 ||| mask) }
  else { data with flags := data.flags.map (fun flags => flags &&& ~~~mask) }

def setStoredKey (data : PivmanData) (value : Bool) : PivmanData := data.setFlag 2 value

def setPukBlocked (data : PivmanData) (value : Bool) : PivmanData := data.setFlag 1 value

def otherFlags (data : PivmanData) : UInt8 := data.flags.getD 0 &&& ~~~3

end PivmanData

structure PivmanProtectedData where
  key : Option KeyBytes
  deriving DecidableEq, Repr

namespace PivmanProtectedData

def fromValue (tlv : Tlv) (value : Bytes) : Except Error PivmanProtectedData :=
  if value = [] then .ok ⟨none⟩
  else do
    let contents ← onlyField tlv 0x88 (fun _ => true) value
    if contents = [] then .ok ⟨none⟩
    else do
      let key ← onlyField tlv 0x89 (fun key => key.length = 24) contents
      if h : key.length = 24 then .ok ⟨some ⟨key, h⟩⟩ else .error invalidRecord

def toValue (tlv : Tlv) (data : PivmanProtectedData) : Option Bytes := do
  let inner ← pushField tlv [] 0x89 (data.key.map (fun key => key.val))
  tlv.push [] 0x88 inner

end PivmanProtectedData

variable {tlv : Tlv}

/-- What was pushed reads back as one field in front of anything. -/
def IsField (tlv : Tlv) (tag : UInt8) (value field : Bytes) : Prop :=
  ∀ rest, tlv.next (field ++ rest) = .ok (some (tag.toNat, value, rest))

theorem pushField_spec (h : tlv.Documented) {written out : Bytes} {tag : UInt8}
    {value : Option Bytes} (hp : pushField tlv written tag value = some out) :
    ∃ field, out = written ++ field ∧
      ((value = none ∧ field = []) ∨ ∃ v, value = some v ∧ IsField tlv tag v field) := by
  cases value with
  | none =>
    obtain rfl : written = out := by simpa [pushField] using hp
    exact ⟨[], by simp, .inl ⟨rfl, rfl⟩⟩
  | some v =>
    obtain ⟨field, rfl, hf⟩ := h.next_push written tag v out hp
    exact ⟨field, rfl, .inr ⟨v, rfl, hf⟩⟩

theorem IsField.ne_nil (h : tlv.Documented) {tag : UInt8} {value field : Bytes}
    (hf : IsField tlv tag value field) : field ≠ [] := by
  rintro rfl
  have h₁ := hf []
  rw [List.nil_append, h.next_nil] at h₁
  cases h₁

theorem IsField.length_pos (h : tlv.Documented) {tag : UInt8} {value field : Bytes}
    (hf : IsField tlv tag value field) : 0 < field.length :=
  List.length_pos_iff.mpr (hf.ne_nil h)

/-- A single field is the only field. -/
theorem onlyField_isField (h : tlv.Documented) {tag : UInt8} {accept : Bytes → Bool}
    {value field : Bytes} (hf : IsField tlv tag value field) (ha : accept value = true) :
    onlyField tlv tag.toNat accept field = .ok value := by
  have hn := hf []
  rw [List.append_nil] at hn
  rw [onlyField, hn]
  simp [ha, h.next_nil]

namespace PivmanData

theorem readFields_nil (h : tlv.Documented) {fuel : Nat} (hfuel : 0 < fuel) (data : PivmanData) :
    readFields tlv fuel [] data = .ok data := by
  obtain ⟨n, rfl⟩ : ∃ n, fuel = n + 1 := ⟨fuel - 1, by omega⟩
  rw [readFields, h.next_nil]

/-- Fuel above the length of the input makes no difference. -/
theorem readFields_fuel (h : tlv.Documented) {m n : Nat} {bytes : Bytes} (data : PivmanData)
    (hm : bytes.length < m) (hn : bytes.length < n) :
    readFields tlv m bytes data = readFields tlv n bytes data := by
  induction m generalizing n bytes data with
  | zero => omega
  | succ m ih =>
    obtain ⟨k, rfl⟩ : ∃ k, n = k + 1 := ⟨n - 1, by omega⟩
    rw [readFields, readFields]
    cases hx : tlv.next bytes with
    | error e => rfl
    | ok found =>
      rcases found with _ | ⟨tag, value, rest⟩
      · rfl
      · have hs := h.next_shrinks _ _ _ _ hx
        cases hd : data.addField tag value with
        | error e => simp only [hd, Except.error_bind]
        | ok next =>
          simp only [hd, Except.ok_bind]
          exact ih next (by omega) (by omega)

/-- One optional field in front of the rest is read first. -/
theorem readFields_field (h : tlv.Documented) (tag : UInt8) (value : Option Bytes)
    {field rest : Bytes} {data next : PivmanData} {fuel : Nat}
    (hf : (value = none ∧ field = [] ∧ next = data) ∨
      ∃ v, value = some v ∧ IsField tlv tag v field ∧ data.addField tag.toNat v = .ok next)
    (hfuel : (field ++ rest).length < fuel) :
    readFields tlv fuel (field ++ rest) data = readFields tlv fuel rest next := by
  rcases hf with ⟨-, rfl, rfl⟩ | ⟨v, -, hv, ha⟩
  · rfl
  · obtain ⟨n, rfl⟩ : ∃ n, fuel = n + 1 := ⟨fuel - 1, by omega⟩
    have hpos := hv.length_pos h
    rw [List.length_append] at hfuel
    rw [readFields, hv rest]
    simp only [ha, Except.ok_bind]
    exact readFields_fuel h next (by omega) (by omega)

/-- The three optional fields are read in order. -/
theorem readFields_fields (h : tlv.Documented) {f₁ f₂ f₃ : Bytes} {data : PivmanData} {fuel : Nat}
    (h₁ : (data.flags = none ∧ f₁ = []) ∨ ∃ b, data.flags = some b ∧ IsField tlv 0x81 [b] f₁)
    (h₂ : (data.salt = none ∧ f₂ = []) ∨ ∃ v, data.salt = some v ∧ IsField tlv 0x82 v f₂)
    (h₃ : (data.pinTimestamp = none ∧ f₃ = []) ∨
      ∃ t, data.pinTimestamp = some t ∧ IsField tlv 0x83 (BigEndian.encode 4 t.toNat) f₃)
    (hfuel : (f₁ ++ (f₂ ++ (f₃ ++ []))).length < fuel) :
    readFields tlv fuel (f₁ ++ (f₂ ++ (f₃ ++ []))) empty = .ok data := by
  obtain ⟨flags, salt, timestamp⟩ := data
  simp only [List.length_append, List.length_nil] at hfuel
  have s₁ : readFields tlv fuel (f₁ ++ (f₂ ++ (f₃ ++ []))) empty =
      readFields tlv fuel (f₂ ++ (f₃ ++ [])) ⟨flags, none, none⟩ := by
    refine readFields_field h 0x81 (flags.map (fun b => [b])) ?_ (by simp; omega)
    rcases h₁ with ⟨hn, hf⟩ | ⟨b, hb, hf⟩
    · obtain rfl : flags = none := hn
      exact .inl ⟨rfl, hf, rfl⟩
    · obtain rfl : flags = some b := hb
      exact .inr ⟨[b], rfl, hf, rfl⟩
  have s₂ : readFields tlv fuel (f₂ ++ (f₃ ++ [])) ⟨flags, none, none⟩ =
      readFields tlv fuel (f₃ ++ []) ⟨flags, salt, none⟩ := by
    refine readFields_field h 0x82 salt ?_ (by simp; omega)
    rcases h₂ with ⟨hn, hf⟩ | ⟨v, hv, hf⟩
    · obtain rfl : salt = none := hn
      exact .inl ⟨rfl, hf, rfl⟩
    · obtain rfl : salt = some v := hv
      exact .inr ⟨v, rfl, hf, rfl⟩
  have s₃ : readFields tlv fuel (f₃ ++ []) ⟨flags, salt, none⟩ =
      readFields tlv fuel [] ⟨flags, salt, timestamp⟩ := by
    refine readFields_field h 0x83 (timestamp.map (fun t => BigEndian.encode 4 t.toNat)) ?_
      (by simp; omega)
    rcases h₃ with ⟨hn, hf⟩ | ⟨t, ht, hf⟩
    · obtain rfl : timestamp = none := hn
      exact .inl ⟨rfl, hf, rfl⟩
    · obtain rfl : timestamp = some t := ht
      refine .inr ⟨_, rfl, hf, ?_⟩
      have hd := BigEndian.decode_encode (n := 4) (x := t.toNat) (by have := t.toNat_lt; omega)
      simp [addField, hd]
  rw [s₁, s₂, s₃, readFields_nil h (by omega)]

/-- What the encoder writes is read back. -/
theorem fromValue_toValue (h : tlv.Documented) {data : PivmanData} {value : Bytes}
    (hv : data.toValue tlv = some value) : fromValue tlv value = .ok data := by
  simp only [toValue, Option.bind_eq_bind, Option.bind_eq_some_iff, Option.pure_def] at hv
  obtain ⟨one, h₁, two, h₂, three, h₃, hout⟩ := hv
  obtain ⟨f₁, e₁, hf₁⟩ := pushField_spec h h₁
  obtain ⟨f₂, e₂, hf₂⟩ := pushField_spec h h₂
  obtain ⟨f₃, e₃, hf₃⟩ := pushField_spec h h₃
  have hinner : three = f₁ ++ (f₂ ++ (f₃ ++ [])) := by
    rw [e₃, e₂, e₁]
    simp
  have hread : ∀ fuel, (f₁ ++ (f₂ ++ (f₃ ++ []))).length < fuel →
      readFields tlv fuel (f₁ ++ (f₂ ++ (f₃ ++ []))) empty = .ok data := by
    intro fuel hfuel
    refine readFields_fields h ?_ hf₂ ?_ hfuel
    · simpa [Option.map_eq_some_iff] using hf₁
    · simpa [Option.map_eq_some_iff] using hf₃
  rw [hinner] at hout
  by_cases hnil : f₁ ++ (f₂ ++ (f₃ ++ [])) = []
  · have hempty : data = empty := by
      have hx := hread 1 (by rw [hnil]; exact Nat.one_pos)
      rw [hnil, readFields_nil h (by omega)] at hx
      cases hx
      rfl
    rw [if_pos hnil] at hout
    cases hout
    rw [fromValue, if_pos rfl, hempty]
  · rw [if_neg hnil] at hout
    obtain ⟨field, hv, hf⟩ := h.next_push _ _ _ _ hout
    have hfield : IsField tlv 0x80 (f₁ ++ (f₂ ++ (f₃ ++ []))) field := hf
    rw [hv, List.nil_append, fromValue, if_neg (hfield.ne_nil h),
      show (0x80 : Nat) = (0x80 : UInt8).toNat from rfl, onlyField_isField h hfield rfl,
      Except.ok_bind, if_neg hnil, hread _ (Nat.lt_succ_self _)]

/-- Records with equal encodings are equal. -/
theorem toValue_injective (h : tlv.Documented) {a b : PivmanData} {value : Bytes}
    (ha : a.toValue tlv = some value) (hb : b.toValue tlv = some value) : a = b := by
  have h₁ := fromValue_toValue h ha
  rw [fromValue_toValue h hb] at h₁
  cases h₁
  rfl

end PivmanData

theorem PivmanProtectedData.fromValue_toValue (h : tlv.Documented) {data : PivmanProtectedData}
    {value : Bytes} (hv : data.toValue tlv = some value) : fromValue tlv value = .ok data := by
  simp only [toValue, Option.bind_eq_bind, Option.bind_eq_some_iff] at hv
  obtain ⟨inner, hi, ho⟩ := hv
  obtain ⟨field, hinner, hf⟩ := pushField_spec h hi
  obtain ⟨outer, hvalue, hout⟩ := h.next_push _ _ _ _ ho
  rw [List.nil_append] at hinner hvalue
  subst hinner hvalue
  have houter : IsField tlv 0x88 inner value := hout
  rw [fromValue, if_neg (houter.ne_nil h), show (0x88 : Nat) = (0x88 : UInt8).toNat from rfl,
    onlyField_isField h houter rfl, Except.ok_bind]
  obtain ⟨key⟩ := data
  rcases hf with ⟨hn, rfl⟩ | ⟨v, hv, hfield⟩
  · obtain rfl : key = none := by simpa using hn
    rw [if_pos rfl]
  · obtain ⟨k, hk, rfl⟩ := Option.map_eq_some_iff.mp hv
    obtain rfl : key = some k := hk
    rw [if_neg (hfield.ne_nil h), show (0x89 : Nat) = (0x89 : UInt8).toNat from rfl,
      onlyField_isField h hfield (by simpa using k.property), Except.ok_bind, dif_pos k.property]

namespace PivmanData

/-- The two managed flags and the other bits after setting one of them. -/
theorem flag_bits (b : UInt8) :
    ((b ||| 1) &&& 1 ≠ 0) ∧ ((b ||| 1) &&& 2 = b &&& 2) ∧ ((b ||| 2) &&& 2 ≠ 0) ∧
      ((b ||| 2) &&& 1 = b &&& 1) ∧ ((b &&& ~~~1) &&& 1 = 0) ∧ ((b &&& ~~~1) &&& 2 = b &&& 2) ∧
      ((b &&& ~~~2) &&& 2 = 0) ∧ ((b &&& ~~~2) &&& 1 = b &&& 1) ∧
      ((b ||| 1) &&& ~~~3 = b &&& ~~~3) ∧ ((b ||| 2) &&& ~~~3 = b &&& ~~~3) ∧
      ((b &&& ~~~1) &&& ~~~3 = b &&& ~~~3) ∧ ((b &&& ~~~2) &&& ~~~3 = b &&& ~~~3) := by
  have h : ∀ v : BitVec 8, ((v ||| 1#8) &&& 1#8 ≠ 0#8) ∧ ((v ||| 1#8) &&& 2#8 = v &&& 2#8) ∧
      ((v ||| 2#8) &&& 2#8 ≠ 0#8) ∧ ((v ||| 2#8) &&& 1#8 = v &&& 1#8) ∧
      ((v &&& ~~~1#8) &&& 1#8 = 0#8) ∧ ((v &&& ~~~1#8) &&& 2#8 = v &&& 2#8) ∧
      ((v &&& ~~~2#8) &&& 2#8 = 0#8) ∧ ((v &&& ~~~2#8) &&& 1#8 = v &&& 1#8) ∧
      ((v ||| 1#8) &&& ~~~3#8 = v &&& ~~~3#8) ∧ ((v ||| 2#8) &&& ~~~3#8 = v &&& ~~~3#8) ∧
      ((v &&& ~~~1#8) &&& ~~~3#8 = v &&& ~~~3#8) ∧ ((v &&& ~~~2#8) &&& ~~~3#8 = v &&& ~~~3#8) := by
    decide
  simpa [← UInt8.toBitVec_inj] using h b.toBitVec

theorem setFlag_flags (data : PivmanData) (mask : UInt8) (value : Bool) :
    (data.setFlag mask value).flags.getD 0 =
      if value then data.flags.getD 0 ||| mask else data.flags.getD 0 &&& ~~~mask := by
  cases value with
  | true => rfl
  | false =>
    cases hf : data.flags with
    | none => simp [setFlag, hf]
    | some b => simp [setFlag, hf]

theorem setFlag_salt (data : PivmanData) (mask : UInt8) (value : Bool) :
    (data.setFlag mask value).salt = data.salt := by
  cases value <;> rfl

theorem setFlag_pinTimestamp (data : PivmanData) (mask : UInt8) (value : Bool) :
    (data.setFlag mask value).pinTimestamp = data.pinTimestamp := by
  cases value <;> rfl

/-- Setting the stored-key flag sets it and keeps the other bits. -/
theorem setStoredKey_bits (data : PivmanData) (value : Bool) :
    (data.setStoredKey value).hasStoredKey = value ∧
      (data.setStoredKey value).pukBlocked = data.pukBlocked ∧
      (data.setStoredKey value).otherFlags = data.otherFlags := by
  have hbits := flag_bits (data.flags.getD 0)
  simp only [hasStoredKey, pukBlocked, otherFlags, setStoredKey, setFlag_flags]
  cases value <;> simp_all

/-- Setting the PUK-blocked flag sets it and keeps the other bits. -/
theorem setPukBlocked_bits (data : PivmanData) (value : Bool) :
    (data.setPukBlocked value).pukBlocked = value ∧
      (data.setPukBlocked value).hasStoredKey = data.hasStoredKey ∧
      (data.setPukBlocked value).otherFlags = data.otherFlags := by
  have hbits := flag_bits (data.flags.getD 0)
  simp only [hasStoredKey, pukBlocked, otherFlags, setPukBlocked, setFlag_flags]
  cases value <;> simp_all

end PivmanData

end Piv
