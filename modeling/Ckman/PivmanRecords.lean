import Ckman.ReferenceCard
import Mathlib.Data.Nat.Log
import Mathlib.Data.List.Perm.Subperm

/-!
# The pivman records, field by field

A record is a container of tagged fields. `RecordFields` says which fields a byte
string holds and does not mention the parsers; both parsers accept exactly the
byte strings whose fields are those of a record, in any order.
-/
namespace Piv

open Host

/-- The octets of a field with a one-byte tag and its length in shortest form. -/
def fieldLength (n : Nat) : Nat := 1 + (if n < 128 then 1 else 2 + Nat.log 256 n) + n

theorem fieldLength_mono {m n : Nat} (h : m ≤ n) : fieldLength m ≤ fieldLength n := by
  have hlog : Nat.log 256 m ≤ Nat.log 256 n := Nat.log_mono_right h
  unfold fieldLength
  split <;> split <;> omega

/-- The documented lengths of the codec: its default limits are the same in
both directions, and the shortest form of a length is what the writer uses. -/
structure Tlv.Limited (tlv : Tlv) (limit : Nat) : Prop where
  push_within : ∀ written tag value, written.length + fieldLength value.length ≤ limit →
    ∃ out, tlv.push written tag value = some out
  push_length : ∀ written tag value out, tlv.push written tag value = some out →
    out.length = written.length + fieldLength value.length
  next_within : ∀ bytes tag value rest, tlv.next bytes = .ok (some (tag, value, rest)) →
    fieldLength value.length ≤ limit
  next_length : ∀ bytes tag value rest, tlv.next bytes = .ok (some (tag, value, rest)) →
    fieldLength value.length + rest.length ≤ bytes.length
  /-- The reader only ends at the end of its input. -/
  next_end : ∀ bytes, tlv.next bytes = .ok none → bytes = []
  /-- The limit leaves room for a management key. -/
  key_within : 28 ≤ limit

abbrev TlvField := Nat × Bytes

/-- `bytes` starts with these fields, and `last` follows. -/
inductive Splits (tlv : Tlv) : Bytes → List TlvField → Bytes → Prop where
  | done (bytes : Bytes) : Splits tlv bytes [] bytes
  | field {bytes rest last value : Bytes} {tag : Nat} {fields : List TlvField}
      (head : tlv.next bytes = .ok (some (tag, value, rest))) (tail : Splits tlv rest fields last) :
      Splits tlv bytes ((tag, value) :: fields) last

/-- `bytes` is exactly these fields. -/
def HoldsFields (tlv : Tlv) (bytes : Bytes) (fields : List TlvField) : Prop :=
  ∃ last, Splits tlv bytes fields last ∧ tlv.next last = .ok none

/-- `value` is one element with this tag and these contents. -/
def OneElement (tlv : Tlv) (tag : Nat) (value contents : Bytes) : Prop :=
  ∃ rest, tlv.next value = .ok (some (tag, contents, rest)) ∧ tlv.next rest = .ok none

/-- The fields of a record: of nothing at all, or of one container. -/
def RecordFields (tlv : Tlv) (tag : Nat) (value : Bytes) (fields : List TlvField) : Prop :=
  (value = [] ∧ fields = []) ∨ ∃ contents, OneElement tlv tag value contents ∧ HoldsFields tlv contents fields

/-- The first element of `value` starts with these fields. -/
def StartsWithFields (tlv : Tlv) (value : Bytes) (fields : List TlvField) : Prop :=
  ∃ tag contents rest last, tlv.next value = .ok (some (tag, contents, rest)) ∧
    Splits tlv contents fields last

section Splits

variable {tlv : Tlv} {limit tag : Nat} {bytes last value : Bytes} {fields all : List TlvField}

theorem HoldsFields.of_error {e : Error} (hnext : tlv.next bytes = .error e) :
    ¬ HoldsFields tlv bytes fields := by
  rintro ⟨last, hs, hend⟩
  cases hs with
  | done =>
    rw [hnext] at hend
    cases hend
  | field head tail =>
    rw [hnext] at head
    cases head

theorem HoldsFields.end_iff (hnext : tlv.next bytes = .ok none) :
    HoldsFields tlv bytes fields ↔ fields = [] := by
  constructor
  · rintro ⟨last, hs, -⟩
    cases hs with
    | done => rfl
    | field head tail =>
      rw [hnext] at head
      cases head
  · rintro rfl
    exact ⟨bytes, .done bytes, hnext⟩

/-- The first field and the rest of them. -/
theorem HoldsFields.field_iff {rest : Bytes} (hnext : tlv.next bytes = .ok (some (tag, value, rest))) :
    HoldsFields tlv bytes fields ↔ ∃ later, fields = (tag, value) :: later ∧ HoldsFields tlv rest later := by
  constructor
  · rintro ⟨last, hs, hend⟩
    cases hs with
    | done =>
      rw [hnext] at hend
      cases hend
    | field head tail =>
      rw [hnext] at head
      cases head
      exact ⟨_, rfl, last, tail, hend⟩
  · rintro ⟨later, rfl, last, hs, hend⟩
    exact ⟨last, .field hnext hs, hend⟩

theorem HoldsFields.nil (h : tlv.Documented) : HoldsFields tlv [] [] := (end_iff h.next_nil).mpr rfl

/-- Fields that bytes start with are the first of the fields they are. -/
theorem Splits.prefix_of_holds (hr : Splits tlv bytes fields last) (ha : HoldsFields tlv bytes all) :
    fields <+: all := by
  induction hr generalizing all with
  | done bytes => exact List.nil_prefix
  | field head tail ih =>
    obtain ⟨later, rfl, hlater⟩ := (HoldsFields.field_iff head).mp ha
    rw [List.prefix_cons_inj]
    exact ih hlater

theorem RecordFields.prefix_of_startsWith (h : tlv.Documented) (hs : StartsWithFields tlv value fields)
    (hd : RecordFields tlv tag value all) : fields <+: all := by
  obtain ⟨tag', contents, rest, last, hn, hr⟩ := hs
  rcases hd with ⟨rfl, -⟩ | ⟨contents', ⟨rest', hn', -⟩, hh⟩
  · rw [h.next_nil] at hn
    cases hn
  · rw [hn] at hn'
    cases hn'
    exact hr.prefix_of_holds hh

theorem RecordFields.unique (h : tlv.Documented) (hf : RecordFields tlv tag value fields)
    (ha : RecordFields tlv tag value all) : fields = all := by
  rcases hf with ⟨rfl, rfl⟩ | ⟨contents, ⟨rest, hn, -⟩, hh⟩
  · rcases ha with ⟨-, rfl⟩ | ⟨contents, ⟨rest, hn, -⟩, -⟩
    · rfl
    · rw [h.next_nil] at hn
      cases hn
  · rcases ha with ⟨rfl, -⟩ | ⟨contents', ⟨rest', hn', -⟩, hh'⟩
    · rw [h.next_nil] at hn
      cases hn
    · rw [hn] at hn'
      cases hn'
      obtain ⟨last, hr, -⟩ := id hh
      obtain ⟨last', hr', -⟩ := id hh'
      exact (hr.prefix_of_holds hh').eq_of_length_le (hr'.prefix_of_holds hh).length_le

/-- One element is one field. -/
theorem OneElement.holds_iff {contents : Bytes} :
    HoldsFields tlv value [(tag, contents)] ↔ OneElement tlv tag value contents := by
  constructor
  · rintro ⟨last, hs, hend⟩
    cases hs with
    | field head tail =>
      cases tail with
      | done => exact ⟨last, head, hend⟩
  · rintro ⟨rest, hnext, hend⟩
    exact ⟨rest, .field hnext (.done rest), hend⟩

/-- Only nothing at all has no fields. -/
theorem HoldsFields.nil_iff (h : tlv.Documented) (hl : tlv.Limited limit) :
    HoldsFields tlv bytes [] ↔ bytes = [] := by
  constructor
  · rintro ⟨last, hs, hend⟩
    cases hs with
    | done => exact hl.next_end bytes hend
  · rintro rfl
    exact .nil h

/-- A value that is exactly one element. -/
theorem onlyField_iff {accept : Bytes → Bool} {contents : Bytes} :
    onlyField tlv tag accept value = .ok contents ↔
      OneElement tlv tag value contents ∧ accept contents = true := by
  rw [onlyField]
  cases hnext : tlv.next value with
  | error e => simp [OneElement, hnext]
  | ok found =>
    rcases found with _ | ⟨found, held, rest⟩
    · simp [OneElement, hnext]
    · dsimp only
      split
      · rename_i hbad
        simp only [reduceCtorEq, false_iff, not_and]
        rintro ⟨rest', hn, -⟩ haccept
        rw [hnext] at hn
        cases hn
        rcases hbad with hbad | hbad
        · exact hbad rfl
        · rw [haccept] at hbad
          cases hbad
      · rename_i hgood
        rw [not_or, not_not, Bool.not_eq_false] at hgood
        obtain ⟨rfl, haccept⟩ := hgood
        cases hrest : tlv.next rest with
        | error e => simp [OneElement, hnext, hrest]
        | ok second =>
          cases second with
          | some second => simp [OneElement, hnext, hrest]
          | none =>
            dsimp only
            rw [Except.ok.injEq]
            constructor
            · rintro rfl
              exact ⟨⟨rest, hnext, hrest⟩, haccept⟩
            · rintro ⟨⟨rest', hn, -⟩, -⟩
              rw [hnext] at hn
              cases hn
              rfl

def fieldsLength (fields : List TlvField) : Nat := (fields.map fun field => fieldLength field.2.length).sum

@[simp] theorem fieldsLength_nil : fieldsLength [] = 0 := rfl

@[simp] theorem fieldsLength_cons (field : TlvField) :
    fieldsLength (field :: fields) = fieldLength field.2.length + fieldsLength fields := rfl

theorem fieldsLength_perm (h : fields.Perm all) : fieldsLength fields = fieldsLength all :=
  List.Perm.sum_nat (h.map _)

theorem Splits.length_le (hl : tlv.Limited limit) (hr : Splits tlv bytes fields last) :
    fieldsLength fields + last.length ≤ bytes.length := by
  induction hr with
  | done bytes => simp
  | field head tail ih =>
    have hfirst := hl.next_length _ _ _ _ head
    rw [fieldsLength_cons]
    dsimp only
    omega

/-- What the reader accepts is not longer when the writer encodes it. -/
theorem RecordFields.within (hl : tlv.Limited limit) (hd : RecordFields tlv tag value fields) :
    fields = [] ∨ fieldLength (fieldsLength fields) ≤ limit := by
  rcases hd with ⟨-, rfl⟩ | ⟨contents, ⟨rest, hn, -⟩, last, hr, -⟩
  · exact .inl rfl
  · have hlength := hr.length_le hl
    have hcontents : fieldsLength fields ≤ contents.length := by omega
    exact .inr ((fieldLength_mono hcontents).trans (hl.next_within _ _ _ _ hn))

theorem le_fieldLength (n : Nat) : n ≤ fieldLength n := by
  unfold fieldLength
  omega

def optionLength (value : Option Bytes) : Nat := (value.map fun value => fieldLength value.length).getD 0

theorem pushField_within (hl : tlv.Limited limit) (written : Bytes) (tag : UInt8)
    (value : Option Bytes) (h : written.length + optionLength value ≤ limit) :
    ∃ out, pushField tlv written tag value = some out ∧
      out.length = written.length + optionLength value := by
  cases value with
  | none => exact ⟨written, rfl, rfl⟩
  | some value =>
    obtain ⟨out, hout⟩ := hl.push_within written tag value h
    exact ⟨out, hout, hl.push_length _ _ _ _ hout⟩

def containerLength (fields : List TlvField) : Nat := fieldLength (fieldsLength fields)

def Malformed (form : TlvField → Prop) (listed : List TlvField) : Prop :=
  ¬ (listed.map Prod.fst).Nodup ∨ ∃ field ∈ listed, ¬ form field

/-- What a parser and an encoder of records do together. -/
structure RecordLaws (tlv : Tlv) {α : Type} (tag : Nat) (form : TlvField → Prop)
    (fromValue : Bytes → Except Error α) (toValue : α → Option Bytes) (Within : α → Prop) : Prop where
  roundTrip : ∀ data, Within data → ∃ value, toValue data = some value ∧ fromValue value = .ok data
  encodeAgain : ∀ value data, fromValue value = .ok data →
    ∃ again, toValue data = some again ∧ fromValue again = .ok data
  anyOrder : ∀ value value' listed listed', RecordFields tlv tag value listed →
    RecordFields tlv tag value' listed' → listed.Perm listed' →
    ∀ data, fromValue value = .ok data → fromValue value' = .ok data
  malformed : ∀ value listed, StartsWithFields tlv value listed → Malformed form listed →
    ∃ e, fromValue value = .error e
  secondElement : ∀ value first contents rest second,
    tlv.next value = .ok (some (first, contents, rest)) → tlv.next rest = .ok (some second) →
    ∃ e, fromValue value = .error e

/-- The laws of a parser that accepts exactly the fields of records, and of an
encoder that it reads back. -/
theorem RecordLaws.of_fields {α : Type} {form : TlvField → Prop} {fromValue : Bytes → Except Error α}
    {toValue : α → Option Bytes} {Within : α → Prop} (fieldsOf : α → List TlvField)
    (h : tlv.Documented) (hl : tlv.Limited limit)
    (accepts : ∀ value data, fromValue value = .ok data ↔
      ∃ listed, RecordFields tlv tag value listed ∧ (fieldsOf data).Perm listed)
    (tags : ∀ data, ((fieldsOf data).map Prod.fst).Nodup)
    (forms : ∀ data, ∀ field ∈ fieldsOf data, form field)
    (writes : ∀ data, (fieldsOf data = [] ∨ containerLength (fieldsOf data) ≤ limit) →
      ∃ value, toValue data = some value)
    (reads : ∀ data value, toValue data = some value → fromValue value = .ok data)
    (fits : ∀ data, Within data → fieldsOf data = [] ∨ containerLength (fieldsOf data) ≤ limit) :
    RecordLaws tlv tag form fromValue toValue Within where
  roundTrip := by
    intro data hw
    obtain ⟨value, hvalue⟩ := writes data (fits data hw)
    exact ⟨value, hvalue, reads data value hvalue⟩
  encodeAgain := by
    intro value data hdata
    obtain ⟨listed, hlisted, hperm⟩ := (accepts value data).mp hdata
    have hfits : fieldsOf data = [] ∨ containerLength (fieldsOf data) ≤ limit := by
      rw [containerLength, fieldsLength_perm hperm]
      rcases hlisted.within hl with rfl | hwithin
      · exact .inl hperm.eq_nil
      · exact .inr hwithin
    obtain ⟨again, hagain⟩ := writes data hfits
    exact ⟨again, hagain, reads data again hagain⟩
  anyOrder := by
    intro value value' listed listed' hlisted hlisted' hperm data hdata
    obtain ⟨all, hall, hfields⟩ := (accepts value data).mp hdata
    obtain rfl := hall.unique h hlisted
    exact (accepts value' data).mpr ⟨listed', hlisted', hfields.trans hperm⟩
  malformed := by
    intro value listed hstarts hbad
    cases hdata : fromValue value with
    | error e => exact ⟨e, rfl⟩
    | ok data =>
      obtain ⟨all, hall, hfields⟩ := (accepts value data).mp hdata
      have hfront := hall.prefix_of_startsWith h hstarts
      rcases hbad with htwice | ⟨field, hfield, hform⟩
      · have hnodup := (hfields.map Prod.fst).nodup_iff.mp (tags data)
        exact absurd (hnodup.sublist (hfront.sublist.map Prod.fst)) htwice
      · exact absurd (forms data field (hfields.mem_iff.mpr (hfront.subset hfield))) hform
  secondElement := by
    intro value first contents rest second hfirst hsecond
    cases hdata : fromValue value with
    | error e => exact ⟨e, rfl⟩
    | ok data =>
      obtain ⟨all, ⟨rfl, -⟩ | ⟨contents', ⟨rest', hn, hend⟩, -⟩, -⟩ := (accepts value data).mp hdata
      · rw [h.next_nil] at hfirst
        cases hfirst
      · rw [hfirst] at hn
        cases hn
        rw [hsecond] at hend
        cases hend

end Splits

namespace PivmanData

variable {tlv : Tlv} {data next : PivmanData} {listed : List TlvField}

/-- The fields of a record, in the order that the encoder writes them. -/
def fields (data : PivmanData) : List TlvField :=
  (data.flags.map fun flags => (0x81, [flags])).toList ++
    (data.salt.map fun salt => (0x82, salt)).toList ++
    (data.pinTimestamp.map fun timestamp => (0x83, BigEndian.encode 4 timestamp.toNat)).toList

theorem mem_fields {field : TlvField} : field ∈ data.fields ↔
    (∃ flags, data.flags = some flags ∧ field = (0x81, [flags])) ∨
    (∃ salt, data.salt = some salt ∧ field = (0x82, salt)) ∨
    ∃ timestamp, data.pinTimestamp = some timestamp ∧
      field = (0x83, BigEndian.encode 4 timestamp.toNat) := by
  simp only [fields, List.mem_append, Option.mem_toList, Option.map_eq_some_iff,
    or_assoc, eq_comm (a := field)]

theorem fields_tags : (data.fields.map Prod.fst).Nodup := by
  obtain ⟨flags, salt, timestamp⟩ := data
  cases flags <;> cases salt <;> cases timestamp <;> simp [fields]

theorem encode_timestamp_injective {a b : UInt32}
    (h : BigEndian.encode 4 a.toNat = BigEndian.encode 4 b.toNat) : a = b := by
  have hd := congrArg BigEndian.decode h
  rw [BigEndian.decode_encode (by have := a.toNat_lt; omega),
    BigEndian.decode_encode (by have := b.toNat_lt; omega)] at hd
  exact UInt32.toNat_inj.mp hd

/-- A record is what its fields are. -/
theorem eq_of_fields (h : ∀ field, field ∈ data.fields ↔ field ∈ next.fields) : data = next := by
  obtain ⟨flags, salt, timestamp⟩ := data
  obtain ⟨flags', salt', timestamp'⟩ := next
  have hflags : flags = flags' := by
    ext b
    have hb := h (0x81, [b])
    simpa [mem_fields] using hb
  have hsalt : salt = salt' := by
    ext1 v
    have hv := h (0x82, v)
    simpa [mem_fields] using hv
  have htimestamp : timestamp = timestamp' := by
    ext1 t
    have ht := h (0x83, BigEndian.encode 4 t.toNat)
    simp only [mem_fields, Prod.mk.injEq, Nat.reduceEqDiff, false_and, and_false, exists_false,
      false_or, true_and] at ht
    constructor
    · rintro rfl
      obtain ⟨t', rfl, heq⟩ := ht.mp ⟨t, rfl, rfl⟩
      rw [encode_timestamp_injective heq]
    · rintro rfl
      obtain ⟨t', rfl, heq⟩ := ht.mpr ⟨t, rfl, rfl⟩
      rw [encode_timestamp_injective heq]
  rw [hflags, hsalt, htimestamp]

/-- An accepted field is added to the fields of the record. -/
theorem addField_fields {tag : Nat} {value : Bytes} (h : data.addField tag value = .ok next) :
    next.fields.Perm ((tag, value) :: data.fields) := by
  obtain ⟨flags, salt, timestamp⟩ := data
  unfold addField at h
  split at h
  · rename_i hflags
    obtain ⟨rfl, hnone, hlength⟩ := hflags
    obtain ⟨b, rfl⟩ := List.length_eq_one_iff.mp hlength
    obtain rfl : flags = none := hnone
    cases h
    exact List.Perm.refl _
  · split at h
    · rename_i hsalt
      obtain ⟨rfl, hnone⟩ := hsalt
      obtain rfl : salt = none := hnone
      cases h
      simp only [fields, List.append_assoc]
      exact List.perm_middle
    · split at h
      · rename_i htimestamp
        obtain ⟨rfl, hnone, hlength⟩ := htimestamp
        obtain rfl : timestamp = none := hnone
        cases h
        have hvalue : BigEndian.encode 4 (UInt32.ofNat (BigEndian.decode value)).toNat = value := by
          have hlt := BigEndian.decode_lt value
          have hback := BigEndian.encode_decode value
          rw [hlength] at hlt hback
          rw [UInt32.toNat_ofNat_of_lt' hlt, hback]
        simp only [fields, Option.map_some, hvalue, Option.map_none, Option.toList_none,
          List.append_nil]
        exact List.perm_append_comm
      · cases h

/-- A field of the right form is accepted by a record that does not have it. -/
theorem addField_ok {field : TlvField} {whole : PivmanData} (hf : field ∈ whole.fields)
    (hnew : field.1 ∉ data.fields.map Prod.fst) :
    ∃ next, data.addField field.1 field.2 = .ok next := by
  obtain ⟨flags, salt, timestamp⟩ := data
  rcases mem_fields.mp hf with ⟨b, -, rfl⟩ | ⟨v, -, rfl⟩ | ⟨t, -, rfl⟩
  · have hnone : flags = none := by
      cases flags with
      | none => rfl
      | some b => simp [fields] at hnew
    subst hnone
    exact ⟨_, rfl⟩
  · have hnone : salt = none := by
      cases salt with
      | none => rfl
      | some v => simp [fields] at hnew
    subst hnone
    exact ⟨_, rfl⟩
  · have hnone : timestamp = none := by
      cases timestamp with
      | none => rfl
      | some t => simp [fields] at hnew
    subst hnone
    exact ⟨⟨flags, salt, some (UInt32.ofNat (BigEndian.decode (BigEndian.encode 4 t.toNat)))⟩,
      by simp [addField]⟩

/-- One turn of the loop for every field. -/
def addFields (data : PivmanData) : List TlvField → Except Error PivmanData
  | [] => .ok data
  | field :: rest => do
    let next ← data.addField field.1 field.2
    addFields next rest

/-- The loop accepts exactly the fields of a record, in any order. -/
theorem addFields_iff {whole : PivmanData} :
    data.addFields listed = .ok whole ↔ whole.fields.Perm (listed ++ data.fields) := by
  induction listed generalizing data with
  | nil =>
    rw [addFields, List.nil_append, Except.ok.injEq]
    constructor
    · rintro rfl
      exact List.Perm.refl _
    · intro h
      exact eq_of_fields fun field => h.mem_iff.symm
  | cons field rest ih =>
    rw [addFields, Except.bind_eq_ok_iff]
    simp only [ih]
    constructor
    · rintro ⟨next, hadd, hrest⟩
      calc
        whole.fields.Perm (rest ++ next.fields) := hrest
        List.Perm _ (rest ++ (field :: data.fields)) := (addField_fields hadd).append_left rest
        List.Perm _ (field :: rest ++ data.fields) := List.perm_middle
    · intro h
      have htags := ((h.map Prod.fst).nodup_iff).mp fields_tags
      have hnew : field.1 ∉ data.fields.map Prod.fst := by
        intro hmem
        rw [List.cons_append, List.map_cons, List.nodup_cons, List.map_append] at htags
        exact htags.1 (List.mem_append_right _ hmem)
      obtain ⟨next, hadd⟩ := addField_ok (h.mem_iff.mpr List.mem_cons_self) hnew
      refine ⟨next, hadd, ?_⟩
      calc
        whole.fields.Perm (field :: rest ++ data.fields) := h
        List.Perm _ (rest ++ (field :: data.fields)) := List.perm_middle.symm
        List.Perm _ (rest ++ next.fields) := (addField_fields hadd).symm.append_left rest

/-- The reading loop runs over the fields that its input is. -/
theorem readFields_iff (h : tlv.Documented) {bytes : Bytes} {fuel : Nat} {whole : PivmanData}
    (hfuel : bytes.length < fuel) :
    readFields tlv fuel bytes data = .ok whole ↔
      ∃ listed, HoldsFields tlv bytes listed ∧ data.addFields listed = .ok whole := by
  induction fuel generalizing bytes data with
  | zero => omega
  | succ fuel ih =>
    rw [readFields]
    cases hnext : tlv.next bytes with
    | error e =>
      simp only [reduceCtorEq, false_iff, not_exists, not_and]
      exact fun listed hholds => absurd hholds (HoldsFields.of_error hnext)
    | ok found =>
      rcases found with _ | ⟨tag, value, rest⟩
      · simp only [HoldsFields.end_iff hnext, exists_eq_left, addFields]
      · have hshrink := h.next_shrinks _ _ _ _ hnext
        dsimp only
        simp only [HoldsFields.field_iff hnext, Except.bind_eq_ok_iff]
        constructor
        · rintro ⟨next, hadd, hread⟩
          obtain ⟨later, hholds, hrest⟩ := (ih (by omega)).mp hread
          refine ⟨(tag, value) :: later, ⟨later, rfl, hholds⟩, ?_⟩
          rw [addFields, hadd]
          exact hrest
        · rintro ⟨listed, ⟨later, rfl, hholds⟩, hadd⟩
          obtain ⟨next, hfirst, hrest⟩ := Except.bind_eq_ok_iff.mp hadd
          exact ⟨next, hfirst, (ih (by omega)).mpr ⟨later, hholds, hrest⟩⟩

/-- ADMIN DATA is accepted exactly if its fields are those of a record. -/
theorem fromValue_iff (h : tlv.Documented) {value : Bytes} :
    fromValue tlv value = .ok data ↔
      ∃ listed, RecordFields tlv 0x80 value listed ∧ data.fields.Perm listed := by
  have hloop : ∀ listed, empty.addFields listed = .ok data ↔ data.fields.Perm listed := by
    intro listed
    rw [addFields_iff, show empty.fields = [] from rfl, List.append_nil]
  rw [fromValue]
  split
  · rename_i hnil
    subst hnil
    constructor
    · intro hdata
      cases hdata
      exact ⟨[], .inl ⟨rfl, rfl⟩, List.Perm.refl _⟩
    · rintro ⟨listed, hlisted, hperm⟩
      obtain rfl := hlisted.unique h (.inl ⟨rfl, rfl⟩)
      exact (hloop []).mpr hperm
  · rename_i hvalue
    rw [Except.bind_eq_ok_iff]
    simp only [onlyField_iff, and_true]
    constructor
    · rintro ⟨contents, helement, hdata⟩
      split at hdata
      · rename_i hnil
        subst hnil
        cases hdata
        exact ⟨[], .inr ⟨[], helement, .nil h⟩, List.Perm.refl _⟩
      · obtain ⟨listed, hholds, hadd⟩ := (readFields_iff h (Nat.lt_succ_self _)).mp hdata
        exact ⟨listed, .inr ⟨contents, helement, hholds⟩, (hloop listed).mp hadd⟩
    · rintro ⟨listed, ⟨rfl, -⟩ | ⟨contents, helement, hholds⟩, hperm⟩
      · exact absurd rfl hvalue
      · refine ⟨contents, helement, ?_⟩
        split
        · rename_i hnil
          subst hnil
          obtain rfl := (HoldsFields.end_iff h.next_nil).mp hholds
          exact (hloop []).mpr hperm
        · exact (readFields_iff h (Nat.lt_succ_self _)).mpr ⟨listed, hholds, (hloop listed).mpr hperm⟩

/-- A flags byte, a salt, or four bytes of a timestamp. -/
def FieldForm (field : TlvField) : Prop :=
  (field.1 = 0x81 ∧ field.2.length = 1) ∨ field.1 = 0x82 ∨ (field.1 = 0x83 ∧ field.2.length = 4)

def SaltWithin (limit : Nat) (data : PivmanData) : Prop :=
  ∀ salt, data.salt = some salt → containerLength data.fields ≤ limit

theorem fields_form (data : PivmanData) : ∀ field ∈ data.fields, FieldForm field := by
  intro field hfield
  rcases mem_fields.mp hfield with ⟨b, -, rfl⟩ | ⟨v, -, rfl⟩ | ⟨t, -, rfl⟩
  · exact .inl ⟨rfl, rfl⟩
  · exact .inr (.inl rfl)
  · exact .inr (.inr ⟨rfl, BigEndian.length_encode 4 _⟩)

theorem fieldsLength_fields (data : PivmanData) :
    fieldsLength data.fields = optionLength (data.flags.map fun flags => [flags]) +
      optionLength data.salt +
      optionLength (data.pinTimestamp.map fun timestamp => BigEndian.encode 4 timestamp.toNat) := by
  obtain ⟨flags, salt, timestamp⟩ := data
  cases flags <;> cases salt <;> cases timestamp <;>
    simp [fields, fieldsLength, optionLength, Nat.add_assoc]

/-- A record whose container fits is written. -/
theorem toValue_within {limit : Nat} (hl : tlv.Limited limit) (data : PivmanData)
    (hfits : data.fields = [] ∨ containerLength data.fields ≤ limit) :
    ∃ value, data.toValue tlv = some value := by
  have hlength := fieldsLength_fields data
  have htotal : fieldsLength data.fields ≤ limit := by
    rcases hfits with hnil | hfits
    · rw [hnil, fieldsLength_nil]
      exact Nat.zero_le limit
    · exact (le_fieldLength _).trans hfits
  obtain ⟨one, h₁, l₁⟩ := pushField_within hl [] 0x81 (data.flags.map fun flags => [flags])
    (by rw [List.length_nil]; omega)
  rw [List.length_nil, Nat.zero_add] at l₁
  obtain ⟨two, h₂, l₂⟩ := pushField_within hl one 0x82 data.salt (by omega)
  obtain ⟨three, h₃, l₃⟩ := pushField_within hl two 0x83
    (data.pinTimestamp.map fun timestamp => BigEndian.encode 4 timestamp.toNat) (by omega)
  have hthree : three.length = fieldsLength data.fields := by omega
  have hvalue : data.toValue tlv = if three = [] then pure [] else tlv.push [] 0x80 three := by
    simp only [toValue, h₁, h₂, h₃, Option.bind_eq_bind, Option.bind_some]
  rw [hvalue]
  split
  · exact ⟨[], rfl⟩
  · rename_i hne
    refine hl.push_within [] 0x80 three ?_
    rw [List.length_nil, Nat.zero_add, hthree]
    rcases hfits with hnil | hfits
    · rw [hnil, fieldsLength_nil] at hthree
      exact absurd (List.length_eq_zero_iff.mp hthree) hne
    · exact hfits

/-- Without a salt every record fits. -/
theorem fits_of_saltWithin {limit : Nat} (hl : tlv.Limited limit) (data : PivmanData)
    (h : SaltWithin limit data) : data.fields = [] ∨ containerLength data.fields ≤ limit := by
  cases hsalt : data.salt with
  | some salt => exact .inr (h salt hsalt)
  | none =>
    have hnine : fieldsLength data.fields ≤ 9 := by
      rw [fieldsLength_fields, hsalt]
      cases data.flags <;> cases data.pinTimestamp <;> simp [optionLength, fieldLength]
    have hroom := hl.key_within
    exact .inr ((fieldLength_mono hnine).trans (by rw [fieldLength]; simp; omega))

end PivmanData

namespace PivmanProtectedData

variable {tlv : Tlv} {data : PivmanProtectedData}

def fields (data : PivmanProtectedData) : List TlvField :=
  (data.key.map fun key => (0x89, key.val)).toList

def FieldForm (field : TlvField) : Prop := field.1 = 0x89 ∧ field.2.length = 24

theorem fields_form (data : PivmanProtectedData) : ∀ field ∈ data.fields, FieldForm field := by
  intro field hfield
  simp only [fields, Option.mem_toList, Option.map_eq_some_iff] at hfield
  obtain ⟨key, -, rfl⟩ := hfield
  exact ⟨rfl, key.property⟩

theorem fields_tags (data : PivmanProtectedData) : (data.fields.map Prod.fst).Nodup := by
  obtain ⟨key⟩ := data
  cases key <;> simp [fields]

/-- A container is empty or holds a key. -/
theorem contents_iff {limit : Nat} (h : tlv.Documented) (hl : tlv.Limited limit) {contents : Bytes} :
    (if contents = [] then .ok ⟨none⟩
      else do
        let key ← onlyField tlv 0x89 (fun key => key.length = 24) contents
        if h : key.length = 24 then .ok ⟨some ⟨key, h⟩⟩ else .error invalidRecord :
        Except Error PivmanProtectedData) = .ok data ↔ HoldsFields tlv contents data.fields := by
  obtain ⟨key⟩ := data
  split
  · rename_i hnil
    subst hnil
    rw [Except.ok.injEq]
    constructor
    · intro hkey
      cases hkey
      exact .nil h
    · intro hholds
      have hnone := (HoldsFields.end_iff h.next_nil).mp hholds
      cases key with
      | none => rfl
      | some key => cases hnone
  · rename_i hne
    rw [Except.bind_eq_ok_iff]
    simp only [onlyField_iff, decide_eq_true_eq]
    constructor
    · rintro ⟨bytes, ⟨helement, hlength⟩, hkey⟩
      rw [dif_pos hlength] at hkey
      cases hkey
      exact OneElement.holds_iff.mpr helement
    · intro hholds
      cases key with
      | none => exact absurd ((HoldsFields.nil_iff h hl).mp hholds) hne
      | some key =>
        refine ⟨key.val, ⟨OneElement.holds_iff.mp hholds, key.property⟩, ?_⟩
        rw [dif_pos key.property]

/-- PRINTED is accepted exactly if its fields are those of a record. -/
theorem fromValue_iff {limit : Nat} (h : tlv.Documented) (hl : tlv.Limited limit) {value : Bytes} :
    fromValue tlv value = .ok data ↔
      ∃ listed, RecordFields tlv 0x88 value listed ∧ data.fields.Perm listed := by
  have hlisted : ∀ listed, data.fields.Perm listed ↔ listed = data.fields := by
    intro listed
    obtain ⟨_ | key⟩ := data
    · exact List.nil_perm
    · exact List.singleton_perm.trans eq_comm
  simp only [hlisted, exists_eq_right]
  rw [fromValue]
  split
  · rename_i hnil
    subst hnil
    rw [Except.ok.injEq]
    constructor
    · intro hdata
      cases hdata
      exact .inl ⟨rfl, rfl⟩
    · intro hfields
      have hnone := hfields.unique h (.inl ⟨rfl, rfl⟩)
      obtain ⟨_ | key⟩ := data
      · rfl
      · cases hnone
  · rename_i hvalue
    rw [Except.bind_eq_ok_iff]
    simp only [onlyField_iff, and_true, contents_iff h hl]
    constructor
    · rintro ⟨contents, helement, hholds⟩
      exact .inr ⟨contents, helement, hholds⟩
    · rintro (⟨rfl, -⟩ | hcontents)
      · exact absurd rfl hvalue
      · exact hcontents

/-- Every record fits. -/
theorem fits {limit : Nat} (hl : tlv.Limited limit) (data : PivmanProtectedData) :
    data.fields = [] ∨ containerLength data.fields ≤ limit := by
  obtain ⟨_ | key⟩ := data
  · exact .inl rfl
  · have hroom := hl.key_within
    have hlength := key.property
    refine .inr ?_
    simp [containerLength, fieldsLength, fields, fieldLength, hlength]
    omega

theorem toValue_within {limit : Nat} (hl : tlv.Limited limit) (data : PivmanProtectedData) :
    ∃ value, data.toValue tlv = some value := by
  have hroom := hl.key_within
  have hlength : optionLength (data.key.map fun key => key.val) ≤ 26 := by
    cases data.key with
    | none => exact Nat.zero_le 26
    | some key => simp [optionLength, fieldLength, key.property]
  obtain ⟨inner, hinner, linner⟩ := pushField_within hl [] 0x89 (data.key.map fun key => key.val)
    (by rw [List.length_nil]; omega)
  rw [List.length_nil, Nat.zero_add] at linner
  have hcontainer : fieldLength inner.length ≤ 28 := by
    refine (fieldLength_mono (linner ▸ hlength)).trans ?_
    rw [fieldLength]
    simp
  obtain ⟨value, hvalue⟩ := hl.push_within [] 0x88 inner (by rw [List.length_nil]; omega)
  exact ⟨value, by simp only [toValue, hinner, Option.bind_eq_bind, Option.bind_some, hvalue]⟩

end PivmanProtectedData

/-- The parsers and the encoders of ADMIN DATA and PRINTED. -/
theorem pivmanRecords {tlv : Tlv} {limit : Nat} (h : tlv.Documented) (hl : tlv.Limited limit) :
    RecordLaws tlv 0x80 PivmanData.FieldForm (PivmanData.fromValue tlv) (PivmanData.toValue tlv)
      (PivmanData.SaltWithin limit) ∧
    RecordLaws tlv 0x88 PivmanProtectedData.FieldForm (PivmanProtectedData.fromValue tlv)
      (PivmanProtectedData.toValue tlv) (fun _ => True) := by
  constructor
  · exact .of_fields PivmanData.fields h hl (fun _ _ => PivmanData.fromValue_iff h)
      (fun _ => PivmanData.fields_tags) PivmanData.fields_form (PivmanData.toValue_within hl)
      (fun _ _ => PivmanData.fromValue_toValue h) (PivmanData.fits_of_saltWithin hl)
  · exact .of_fields PivmanProtectedData.fields h hl
      (fun _ _ => PivmanProtectedData.fromValue_iff h hl) PivmanProtectedData.fields_tags
      PivmanProtectedData.fields_form (fun data _ => PivmanProtectedData.toValue_within hl data)
      (fun _ _ => PivmanProtectedData.fromValue_toValue h)
      (fun data _ => PivmanProtectedData.fits hl data)

theorem length_tlv_eq_fieldLength (tag : UInt8) (value : Bytes) :
    (Der.tlv tag value).length = fieldLength value.length := by
  rw [Der.tlv, Der.lengthBytes, fieldLength, List.length_cons, List.length_append]
  split
  · rw [List.length_singleton]
    omega
  · rw [List.length_cons, Der.length_minimal]
    omega

theorem referenceTlv_limited : Tlv.Limited Reference.tlv Reference.tlvLimit where
  push_within written tag value h :=
    ⟨_, Reference.push_eq_some_iff.mpr ⟨by rwa [length_tlv_eq_fieldLength], rfl⟩⟩
  push_length written tag value out h := by
    obtain ⟨-, rfl⟩ := Reference.push_eq_some_iff.mp h
    rw [List.length_append, length_tlv_eq_fieldLength]
  next_within bytes tag value rest h := by
    obtain ⟨t, -, -, hlimit⟩ := Reference.next_eq_some_iff.mp h
    rwa [length_tlv_eq_fieldLength] at hlimit
  next_length bytes tag value rest h := by
    obtain ⟨t, -, rfl, -⟩ := Reference.next_eq_some_iff.mp h
    rw [List.length_append, length_tlv_eq_fieldLength]
  next_end bytes h := by
    by_contra hbytes
    simp only [Reference.tlv, Reference.nextField, if_neg hbytes] at h
    split at h
    · split at h <;> cases h
    · cases h
  key_within := by decide

/-- A record with all three fields. -/
theorem pivmanRecords_full :
    ∃ value, PivmanData.toValue Reference.tlv ⟨some 2, some [1, 2, 3, 4], some 1700000000⟩ = some value ∧
      PivmanData.fromValue Reference.tlv value = .ok ⟨some 2, some [1, 2, 3, 4], some 1700000000⟩ := by
  have hwithin : PivmanData.SaltWithin Reference.tlvLimit ⟨some 2, some [1, 2, 3, 4], some 1700000000⟩ :=
    fun _ _ => by decide
  exact (pivmanRecords Reference.tlv_documented referenceTlv_limited).1.roundTrip _ hwithin

end Piv
