import SmartServer.CodedInputStream
import SmartServer.CodedOutputStream

/-!
# `WireFormat`

What a message that `protoc` generated uses of `wire_format_lite_inl.h`, `wire_format.cc` and
`unknown_field_set.cc`: tags, the fields a message does not know, how they are written, and
`SkipField`, which reads them. A field may be a group of fields, and `levels` is how many groups may
still be opened (`recursion_limit_` less `recursion_depth_`). What `SkipField` has added to a
message when it fails is left out: nothing looks at it.

**Tags** (`getTagWireType_eq_some_iff`). A tag is its number and its type.

**Sizes** (`computeUnknownFieldsSize_eq`). The size that is computed first is the number of bytes
that are written.
-/

namespace SmartServer

open CodedOutputStream

/-! ## Tags -/

/-- `WireFormatLite::WireType`. -/
inductive WireType
  | varint
  | fixed64
  | lengthDelimited
  | startGroup
  | endGroup
  | fixed32
deriving DecidableEq

def WireType.toUInt32 : WireType → UInt32
  | .varint => 0
  | .fixed64 => 1
  | .lengthDelimited => 2
  | .startGroup => 3
  | .endGroup => 4
  | .fixed32 => 5

def makeTag (fieldNumber : UInt32) (type : WireType) : UInt32 := fieldNumber <<< 3 ||| type.toUInt32

def getTagFieldNumber (tag : UInt32) : UInt32 := tag >>> 3

/-- `none` for `6` and `7`, which have no name. -/
def getTagWireType (tag : UInt32) : Option WireType :=
  match (tag &&& 7).toNat with
  | 0 => some .varint
  | 1 => some .fixed64
  | 2 => some .lengthDelimited
  | 3 => some .startGroup
  | 4 => some .endGroup
  | 5 => some .fixed32
  | _ => none

/-! ## Unknown fields -/

inductive UnknownField
  | varint (number : UInt32) (value : UInt64)
  | fixed32 (number : UInt32) (value : UInt32)
  | fixed64 (number : UInt32) (value : UInt64)
  | lengthDelimited (number : UInt32) (value : List UInt8)
  | group (number : UInt32) (fields : List UnknownField)

/-- `WireFormatLite::WriteTagToArray`. -/
def writeTag (number : UInt32) (type : WireType) : List UInt8 :=
  writeTagToArray (makeTag number type)

mutual

/-- One pass of `SerializeUnknownFieldsToArray`. -/
def UnknownField.serialize : UnknownField → List UInt8
  | .varint number value => writeTag number .varint ++ writeVarint64ToArray value
  | .fixed32 number value => writeTag number .fixed32 ++ writeLittleEndian32ToArray value
  | .fixed64 number value => writeTag number .fixed64 ++ writeLittleEndian64ToArray value
  | .lengthDelimited number value =>
    writeTag number .lengthDelimited ++ writeStringWithSizeToArray value
  | .group number fields =>
    writeTag number .startGroup ++ serializeUnknownFieldsToArray fields ++ writeTag number .endGroup

def serializeUnknownFieldsToArray : List UnknownField → List UInt8
  | [] => []
  | field :: fields => field.serialize ++ serializeUnknownFieldsToArray fields

end

/-- The `VarintSize32` of a tag. -/
def tagSize (number : UInt32) (type : WireType) : ℕ := varintSize32 (makeTag number type)

mutual

/-- One pass of `ComputeUnknownFieldsSize`. -/
def UnknownField.size : UnknownField → ℕ
  | .varint number value => tagSize number .varint + varintSize64 value
  | .fixed32 number _ => tagSize number .fixed32 + 4
  | .fixed64 number _ => tagSize number .fixed64 + 8
  | .lengthDelimited number value =>
    tagSize number .lengthDelimited + varintSize32 (UInt32.ofNat value.length) + value.length
  | .group number fields =>
    tagSize number .startGroup + computeUnknownFieldsSize fields + tagSize number .endGroup

def computeUnknownFieldsSize : List UnknownField → ℕ
  | [] => 0
  | field :: fields => field.size + computeUnknownFieldsSize fields

end

/-! ## Skipping -/

/-- `WireFormatLite::ReadString`, and the same two steps in `SkipField`. -/
def wireReadString (input : CodedInputStream) :
    Exec (Option (List UInt8) × CodedInputStream) := do
  let (length, input) ← input.readVarint32
  match length with
  | none => pure (none, input)
  | some length => input.readString length.toInt32.toInt

/-- The loop of `SkipMessage`, where `skip` is `SkipField`. -/
def skipMessage
    (skip : UInt32 → CodedInputStream → Exec (Option UnknownField × CodedInputStream)) :
    ℕ → List UnknownField → CodedInputStream →
      Exec (Option (List UnknownField) × CodedInputStream)
  | 0, _, _ => .error .diverges
  | passes + 1, unknown_fields, input => do
    let (tag, input) ← input.readTag
    if tag = 0 then pure (some unknown_fields, input)
    else if getTagWireType tag = some .endGroup then pure (some unknown_fields, input)
    else
      let (field, input) ← skip tag input
      match field with
      | none => pure (none, input)
      | some field => skipMessage skip passes (unknown_fields ++ [field]) input

/-- The field that is added to the unknown fields. Every pass of `SkipMessage` takes a byte, so that
the bytes there are bound its passes. -/
def skipField (levels : ℕ) (tag : UInt32) (input : CodedInputStream) :
    Exec (Option UnknownField × CodedInputStream) :=
  let number := getTagFieldNumber tag
  match getTagWireType tag with
  | some .varint => do
    let (value, input) ← input.readVarint64
    pure (value.map (.varint number), input)
  | some .fixed64 => do
    let (value, input) ← input.readLittleEndian64
    pure (value.map (.fixed64 number), input)
  | some .lengthDelimited => do
    let (value, input) ← wireReadString input
    pure (value.map (.lengthDelimited number), input)
  | some .startGroup =>
    match levels with
    | 0 => .ok (none, input)
    | levels + 1 => do
      let (group, input) ← skipMessage (skipField levels) (input.bufferSize + 1) [] input
      match group with
      | none => pure (none, input)
      | some group =>
        if input.lastTagWas (makeTag number .endGroup) then pure (some (.group number group), input)
        else pure (none, input)
  | some .fixed32 => do
    let (value, input) ← input.readLittleEndian32
    pure (value.map (.fixed32 number), input)
  | some .endGroup | none => .ok (none, input)

/-! ## Numbers and types -/

theorem and_seven (tag : UInt32) : (tag &&& 7).toNat = tag.toNat % 8 := by
  rw [UInt32.toNat_and, show (7 : UInt32).toNat = 2 ^ 3 - 1 from rfl,
    Nat.and_two_pow_sub_one_eq_mod]

theorem getTagFieldNumber_toNat (tag : UInt32) :
    (getTagFieldNumber tag).toNat = tag.toNat / 8 := by
  rw [getTagFieldNumber, UInt32.toNat_shiftRight, show (3 : UInt32).toNat % 32 = 3 from rfl,
    Nat.shiftRight_eq_div_pow]

theorem getTagFieldNumber_lt (tag : UInt32) : (getTagFieldNumber tag).toNat < 2 ^ 29 := by
  have hlt := tag.toNat_lt
  rw [getTagFieldNumber_toNat]
  omega

theorem WireType.toNat_lt (type : WireType) : type.toUInt32.toNat < 8 := by
  cases type <;> decide

theorem getTagWireType_eq (tag : UInt32) (type : WireType) :
    getTagWireType tag = some type ↔ tag.toNat % 8 = type.toUInt32.toNat := by
  rw [getTagWireType, and_seven]
  have hlt : tag.toNat % 8 < 8 := Nat.mod_lt _ (by decide)
  generalize tag.toNat % 8 = k at hlt
  revert k
  cases type <;> decide

theorem makeTag_toNat {number : UInt32} (hnumber : number.toNat < 2 ^ 29) (type : WireType) :
    (makeTag number type).toNat = 8 * number.toNat + type.toUInt32.toNat := by
  have htype := type.toNat_lt
  rw [makeTag, UInt32.toNat_or, UInt32.toNat_shiftLeft, show (3 : UInt32).toNat % 32 = 3 from rfl,
    Nat.shiftLeft_eq, Nat.mod_eq_of_lt (by omega), Nat.mul_comm,
    ← Nat.two_pow_add_eq_or_of_lt htype]

/-- **A tag is its number and its type.** -/
theorem getTagWireType_eq_some_iff (tag : UInt32) (type : WireType) :
    getTagWireType tag = some type ↔ tag = makeTag (getTagFieldNumber tag) type := by
  have hnumber := getTagFieldNumber_lt tag
  rw [getTagWireType_eq, ← UInt32.toNat_inj, makeTag_toNat hnumber, getTagFieldNumber_toNat]
  omega

theorem getTagFieldNumber_makeTag {number : UInt32} (hnumber : number.toNat < 2 ^ 29)
    (type : WireType) : getTagFieldNumber (makeTag number type) = number := by
  have htype := type.toNat_lt
  apply UInt32.toNat_inj.mp
  rw [getTagFieldNumber_toNat, makeTag_toNat hnumber]
  omega

theorem getTagWireType_makeTag {number : UInt32} (hnumber : number.toNat < 2 ^ 29)
    (type : WireType) : getTagWireType (makeTag number type) = some type := by
  rw [getTagWireType_eq_some_iff, getTagFieldNumber_makeTag hnumber]

/-- Only the number `0` and the first type make the tag `0`. -/
theorem makeTag_eq_zero {number : UInt32} (hnumber : number.toNat < 2 ^ 29) {type : WireType} :
    makeTag number type = 0 ↔ number = 0 ∧ type = .varint := by
  have htype : type = .varint ↔ type.toUInt32.toNat = 0 := by cases type <;> decide
  rw [← UInt32.toNat_inj, makeTag_toNat hnumber, htype, ← UInt32.toNat_inj, UInt32.toNat_zero]
  omega

/-! ## Sizes -/

theorem tagSize_eq (number : UInt32) (type : WireType) :
    tagSize number type = (writeTag number type).length := by
  rw [tagSize, varintSize32_eq, writeTag, writeTagToArray_eq, writeVarint32ToArray_eq]

theorem stringSize_eq (value : List UInt8) :
    varintSize32 (UInt32.ofNat value.length) + value.length =
      (writeStringWithSizeToArray value).length := by
  rw [writeStringWithSizeToArray, List.length_append, varintSize32_eq]

mutual

theorem UnknownField.size_eq : ∀ field : UnknownField, field.size = field.serialize.length
  | .varint number value => by
    rw [UnknownField.size, UnknownField.serialize, List.length_append, tagSize_eq, varintSize64_eq]
  | .fixed32 number value => by
    rw [UnknownField.size, UnknownField.serialize, List.length_append, tagSize_eq]
    rfl
  | .fixed64 number value => by
    rw [UnknownField.size, UnknownField.serialize, List.length_append, tagSize_eq]
    rfl
  | .lengthDelimited number value => by
    rw [UnknownField.size, UnknownField.serialize, List.length_append, tagSize_eq, add_assoc,
      stringSize_eq]
  | .group number fields => by
    rw [UnknownField.size, UnknownField.serialize, List.length_append, List.length_append,
      tagSize_eq, tagSize_eq, computeUnknownFieldsSize_eq fields]

/-- **The size that is computed** is the number of bytes that are written. -/
theorem computeUnknownFieldsSize_eq : ∀ fields : List UnknownField,
    computeUnknownFieldsSize fields = (serializeUnknownFieldsToArray fields).length
  | [] => rfl
  | field :: fields => by
    rw [computeUnknownFieldsSize, serializeUnknownFieldsToArray, List.length_append,
      field.size_eq, computeUnknownFieldsSize_eq fields]

end

end SmartServer
