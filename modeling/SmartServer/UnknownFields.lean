import SmartServer.WireFormat
import SmartServer.Lib.Items

/-!
# What the bytes of a message mean

A message is a sequence of fields. A field is a tag and, by the type of the tag, a number, some
bytes, or a sequence of fields up to the tag that ends the group (`content`, `field`, `fields`).

**Reading** (`skipField_spec`). `SkipField` reads what `content` finds, never beyond the array, and
its loops end.

**What can be read** (`valid_of_content`, `Valid`). Groups are nested no deeper than allowed, no
string is longer than an `int` can say, and no field has the tag `0`.

**Reading back** (`valid_iff_readField`). A field that can be read is read as it was written, and
nothing behind it is touched. What is read does not depend on what comes behind it
(`field_stable`). Written again, it is no longer than it was (`readField_normal`).
-/

namespace SmartServer

open CodedOutputStream

open Items (Reader)

/-- A tag that is not `0`, and what `read` finds behind it. -/
def tagged {α : Type} (read : UInt32 → Reader UInt8 α) : Reader UInt8 α := fun bytes =>
  (Varint.decode kMaxVarintBytes bytes).bind fun x =>
    if UInt32.ofNat x.1 = 0 then none else read (UInt32.ofNat x.1) x.2

/-- A length below `2 ^ 31`, and as many bytes. -/
def delimited : Reader UInt8 (List UInt8) := fun bytes =>
  (Varint.decode kMaxVarintBytes bytes).bind fun x =>
    if (UInt32.ofNat x.1).toNat < 2 ^ 31 then rawAt (UInt32.ofNat x.1).toNat x.2 else none

/-- In a group: a field, or the tag of its end. -/
def groupItem (read : UInt32 → Reader UInt8 UnknownField) : Reader UInt8 (UnknownField ⊕ UInt32) :=
  tagged fun tag bytes =>
    if getTagWireType tag = some .endGroup then some (.inr tag, bytes)
    else (read tag bytes).map fun x => (.inl x.1, x.2)

/-- The field that begins with `tag`. -/
def content (levels : ℕ) (tag : UInt32) : Reader UInt8 UnknownField := fun bytes =>
  let number := getTagFieldNumber tag
  match getTagWireType tag with
  | some .varint => (Varint.decode kMaxVarintBytes bytes).map fun x =>
    (.varint number (UInt64.ofNat x.1), x.2)
  | some .fixed64 => (rawAt 8 bytes).map fun x => (.fixed64 number (ofBytes64 x.1), x.2)
  | some .lengthDelimited => (delimited bytes).map fun x => (.lengthDelimited number x.1, x.2)
  | some .startGroup =>
    match levels with
    | 0 => none
    | levels + 1 => (Items.many (groupItem (content levels)) bytes).bind fun x =>
      if x.1.2 = makeTag number .endGroup then some (.group number x.1.1, x.2) else none
  | some .fixed32 => (rawAt 4 bytes).map fun x =>
    (.fixed32 number (IntLayout.little.ofBytes x.1), x.2)
  | some .endGroup | none => none

def field (levels : ℕ) : Reader UInt8 UnknownField := tagged (content levels)

/-- `CodedInputStream::default_recursion_limit_`. -/
def defaultRecursionLimit : ℕ := 100

/-- All fields of a message. -/
def fields (bytes : List UInt8) : Option (List UnknownField) :=
  Items.all (field defaultRecursionLimit) bytes


theorem tagged_encode {α : Type} {read : UInt32 → Reader UInt8 α} {tag : UInt32} (htag : tag ≠ 0)
    (bytes : List UInt8) : tagged read (writeTagToArray tag ++ bytes) = read tag bytes := by
  have hlt := tag.toNat_lt
  rw [tagged, writeTagToArray_eq, kMaxVarintBytes, Varint.decode_encode (by omega),
    Option.bind_some, UInt32.ofNat_toNat, if_neg htag]

/-! ## Proper readers -/

theorem decode_length_lt {bytes rest : List UInt8} {n : ℕ}
    (h : Varint.decode kMaxVarintBytes bytes = some (n, rest)) : rest.length < bytes.length := by
  obtain ⟨front, rfl, hne, -, -⟩ := Varint.decode_inv h
  have hpos := List.length_pos_iff.mpr hne
  rw [List.length_append]
  omega

theorem rawAt_eq_some {size : ℕ} {bytes front rest : List UInt8}
    (h : rawAt size bytes = some (front, rest)) : bytes = front ++ rest ∧ front.length = size := by
  rw [rawAt] at h
  split at h
  · rename_i hsize
    obtain ⟨rfl, rfl⟩ := Prod.mk.inj (Option.some.inj h)
    exact ⟨(List.take_append_drop size bytes).symm, List.length_take_of_le hsize⟩
  · cases h

theorem rawAt_append (front rest : List UInt8) :
    rawAt front.length (front ++ rest) = some (front, rest) := by
  rw [rawAt, if_pos (by simp), List.take_left, List.drop_left]

theorem delimited_eq_some {bytes value rest : List UInt8}
    (h : delimited bytes = some (value, rest)) :
    value.length < 2 ^ 31 ∧ rest.length ≤ bytes.length := by
  obtain ⟨x, hx, hread⟩ := Option.bind_eq_some_iff.mp h
  have hlt := decode_length_lt hx
  split at hread
  · rename_i hsize
    obtain ⟨hbytes, hlen⟩ := rawAt_eq_some hread
    rw [hlen]
    refine ⟨hsize, ?_⟩
    rw [hbytes, List.length_append] at hlt
    omega
  · cases hread

/-- What `tagged` reads is what `read` finds behind a tag. -/
theorem tagged_eq_some {α : Type} {read : UInt32 → Reader UInt8 α} {bytes rest : List UInt8} {a : α}
    (h : tagged read bytes = some (a, rest)) :
    ∃ tag bytes', tag ≠ 0 ∧ bytes'.length < bytes.length ∧ read tag bytes' = some (a, rest) := by
  obtain ⟨x, hx, hread⟩ := Option.bind_eq_some_iff.mp h
  split at hread
  · cases hread
  · rename_i htag
    exact ⟨_, x.2, htag, decode_length_lt hx, hread⟩

/-- Reading leaves no more than there was. -/
def Shortens {α : Type} (read : UInt32 → Reader UInt8 α) : Prop :=
  ∀ {tag bytes a rest}, read tag bytes = some (a, rest) → rest.length ≤ bytes.length

theorem groupItem_proper {read : UInt32 → Reader UInt8 UnknownField} (h : Shortens read) :
    Items.Proper (groupItem read) where
  item_lt := by
    intro bytes a rest hitem
    obtain ⟨tag, bytes', -, hlt, hread⟩ := tagged_eq_some hitem
    split at hread
    · cases hread
    · obtain ⟨x, hx, heq⟩ := Option.map_eq_some_iff.mp hread
      obtain ⟨-, rfl⟩ := Prod.mk.inj heq
      exact (h hx).trans_lt hlt
  mark_le := by
    intro bytes mark rest hitem
    obtain ⟨tag, bytes', -, hlt, hread⟩ := tagged_eq_some hitem
    split at hread
    · obtain ⟨-, rfl⟩ := Prod.mk.inj (Option.some.inj hread)
      exact hlt.le
    · obtain ⟨x, -, heq⟩ := Option.map_eq_some_iff.mp hread
      cases (Prod.mk.inj heq).1

/-! ## Fields by their type -/

variable {levels : ℕ} {tag : UInt32} {bytes rest : List UInt8} {f : UnknownField}

/-- Only groups depend on the levels. -/
theorem content_of_ne (h : getTagWireType tag ≠ some .startGroup) :
    content levels tag = content 0 tag := by
  cases levels with
  | zero => rfl
  | succ levels =>
    funext bytes
    simp only [content]
    cases htype : getTagWireType tag with
    | none => rfl
    | some type =>
      cases type with
      | startGroup => exact absurd htype h
      | _ => rfl

theorem content_zero_group (h : getTagWireType tag = some .startGroup) :
    content 0 tag bytes = none := by
  simp only [content, h]

theorem content_succ_group (h : getTagWireType tag = some .startGroup) :
    content (levels + 1) tag bytes =
      (Items.many (groupItem (content levels)) bytes).bind fun x =>
        if x.1.2 = makeTag (getTagFieldNumber tag) .endGroup then
          some (.group (getTagFieldNumber tag) x.1.1, x.2)
        else none := by
  simp only [content, h]

/-- The fields that can be read with so many levels. -/
inductive Valid : ℕ → UnknownField → Prop
  | varint {levels : ℕ} {number : UInt32} {value : UInt64} : number.toNat < 2 ^ 29 →
      number ≠ 0 → Valid levels (.varint number value)
  | fixed32 {levels : ℕ} {number value : UInt32} : number.toNat < 2 ^ 29 →
      Valid levels (.fixed32 number value)
  | fixed64 {levels : ℕ} {number : UInt32} {value : UInt64} : number.toNat < 2 ^ 29 →
      Valid levels (.fixed64 number value)
  | lengthDelimited {levels : ℕ} {number : UInt32} {value : List UInt8} : number.toNat < 2 ^ 29 →
      value.length < 2 ^ 31 → Valid levels (.lengthDelimited number value)
  | group {levels : ℕ} {number : UInt32} {fields : List UnknownField} : number.toNat < 2 ^ 29 →
      (∀ f ∈ fields, Valid levels f) → Valid (levels + 1) (.group number fields)

/-- What is read of a field that is no group. -/
theorem scalar_spec (h : content 0 tag bytes = some (f, rest)) :
    rest.length ≤ bytes.length ∧ (tag ≠ 0 → ∀ levels, Valid levels f) := by
  have hnumber := getTagFieldNumber_lt tag
  simp only [content] at h
  cases htype : getTagWireType tag with
  | none =>
    rw [htype] at h
    cases h
  | some type =>
    rw [htype] at h
    cases type with
    | varint =>
      obtain ⟨x, hx, heq⟩ := Option.map_eq_some_iff.mp h
      obtain ⟨rfl, rfl⟩ := Prod.mk.inj heq
      refine ⟨(decode_length_lt hx).le, ?_⟩
      intro htag levels
      refine .varint hnumber ?_
      intro hzero
      rw [getTagWireType_eq_some_iff, hzero] at htype
      exact htag (htype.trans ((makeTag_eq_zero (by decide)).mpr ⟨rfl, rfl⟩))
    | fixed64 =>
      obtain ⟨x, hx, heq⟩ := Option.map_eq_some_iff.mp h
      obtain ⟨rfl, rfl⟩ := Prod.mk.inj heq
      obtain ⟨rfl, -⟩ := rawAt_eq_some hx
      exact ⟨by simp, fun _ _ => .fixed64 hnumber⟩
    | lengthDelimited =>
      obtain ⟨x, hx, heq⟩ := Option.map_eq_some_iff.mp h
      obtain ⟨rfl, rfl⟩ := Prod.mk.inj heq
      obtain ⟨hlt, hle⟩ := delimited_eq_some hx
      exact ⟨hle, fun _ _ => .lengthDelimited hnumber hlt⟩
    | startGroup => cases h
    | endGroup => cases h
    | fixed32 =>
      obtain ⟨x, hx, heq⟩ := Option.map_eq_some_iff.mp h
      obtain ⟨rfl, rfl⟩ := Prod.mk.inj heq
      obtain ⟨rfl, -⟩ := rawAt_eq_some hx
      exact ⟨by simp, fun _ _ => .fixed32 hnumber⟩

/-- What is read of a group. -/
theorem group_eq_some (htype : getTagWireType tag = some .startGroup)
    (h : content levels tag bytes = some (f, rest)) :
    ∃ l fields, levels = l + 1 ∧ f = .group (getTagFieldNumber tag) fields ∧
      Items.many (groupItem (content l)) bytes =
        some ((fields, makeTag (getTagFieldNumber tag) .endGroup), rest) := by
  cases levels with
  | zero =>
    rw [content_zero_group htype] at h
    cases h
  | succ levels =>
    rw [content_succ_group htype] at h
    obtain ⟨⟨⟨as, mark⟩, rest'⟩, hmany, hread⟩ := Option.bind_eq_some_iff.mp h
    split at hread
    · rename_i hmark
      obtain ⟨rfl, rfl⟩ := Prod.mk.inj (Option.some.inj hread)
      obtain rfl : mark = _ := hmark
      exact ⟨levels, as, rfl, rfl, hmany⟩
    · cases hread

theorem content_shortens (levels : ℕ) : Shortens (content levels) := by
  induction levels with
  | zero =>
    intro tag bytes f rest h
    exact (scalar_spec h).1
  | succ levels ih =>
    intro tag bytes f rest h
    by_cases htype : getTagWireType tag = some .startGroup
    · obtain ⟨l, fields, hl, -, hmany⟩ := group_eq_some htype h
      obtain rfl := Nat.succ.inj hl
      exact Items.many_le (groupItem_proper ih) hmany
    · rw [content_of_ne htype] at h
      exact (scalar_spec h).1

theorem content_proper (levels : ℕ) : Items.Proper (groupItem (content levels)) :=
  groupItem_proper (content_shortens levels)

theorem groupItem_eq_some_inl {read : UInt32 → Reader UInt8 UnknownField}
    (h : groupItem read bytes = some (.inl f, rest)) : tagged read bytes = some (f, rest) := by
  obtain ⟨x, hx, hread⟩ := Option.bind_eq_some_iff.mp h
  rw [tagged, hx, Option.bind_some]
  split at hread
  · cases hread
  · rename_i htag
    rw [if_neg htag]
    beta_reduce at hread
    split at hread
    · cases hread
    · obtain ⟨y, hy, heq⟩ := Option.map_eq_some_iff.mp hread
      obtain ⟨hinl, rfl⟩ := Prod.mk.inj heq
      obtain rfl := Sum.inl.inj hinl
      exact hy

/-- **What is read is valid.** -/
theorem valid_of_content (htag : tag ≠ 0) (h : content levels tag bytes = some (f, rest)) :
    Valid levels f := by
  induction levels generalizing tag bytes f rest with
  | zero => exact (scalar_spec h).2 htag 0
  | succ levels ih =>
    by_cases htype : getTagWireType tag = some .startGroup
    · obtain ⟨l, fields, hl, rfl, hmany⟩ := group_eq_some htype h
      obtain rfl := Nat.succ.inj hl
      refine .group (getTagFieldNumber_lt tag) ?_
      have hitems := (Items.many_iff (content_proper levels)).mp hmany
      apply hitems.forall_mem (P := Valid levels)
      intro xs a ys hitem
      obtain ⟨tag', bytes', htag', -, hread⟩ := tagged_eq_some (groupItem_eq_some_inl hitem)
      exact ih htag' hread
    · rw [content_of_ne htype] at h
      exact (scalar_spec h).2 htag _

/-! ## What comes behind -/

theorem rawAt_stable (size : ℕ) : Items.Stable (rawAt size) := by
  intro bytes front rest h more
  obtain ⟨rfl, rfl⟩ := rawAt_eq_some h
  rw [List.append_assoc]
  exact rawAt_append front (rest ++ more)

theorem delimited_stable : Items.Stable delimited := by
  intro bytes value rest h more
  obtain ⟨x, hx, hread⟩ := Option.bind_eq_some_iff.mp h
  rw [delimited, Varint.decode_append hx more, Option.bind_some]
  split at hread
  · rename_i hsize
    rw [if_pos hsize]
    exact rawAt_stable _ hread more
  · cases hread

theorem tagged_stable {α : Type} {read : UInt32 → Reader UInt8 α}
    (h : ∀ tag, Items.Stable (read tag)) : Items.Stable (tagged read) := by
  intro bytes a rest hread more
  obtain ⟨x, hx, hread⟩ := Option.bind_eq_some_iff.mp hread
  rw [tagged, Varint.decode_append hx more, Option.bind_some]
  split at hread
  · cases hread
  · rename_i htag
    rw [if_neg htag]
    exact h _ hread more

theorem map_stable {α β : Type} {read : Reader UInt8 α} (h : Items.Stable read) (g : α → β) :
    Items.Stable fun bytes => (read bytes).map fun x => (g x.1, x.2) := by
  intro bytes b rest hread more
  obtain ⟨x, hx, heq⟩ := Option.map_eq_some_iff.mp hread
  obtain ⟨rfl, rfl⟩ := Prod.mk.inj heq
  beta_reduce
  rw [h hx more]
  rfl

theorem groupItem_stable {read : UInt32 → Reader UInt8 UnknownField}
    (h : ∀ tag, Items.Stable (read tag)) : Items.Stable (groupItem read) := by
  apply tagged_stable
  intro tag bytes x rest hread more
  beta_reduce at hread ⊢
  split at hread
  · rename_i htype
    obtain ⟨rfl, rfl⟩ := Prod.mk.inj (Option.some.inj hread)
    rw [if_pos htype]
  · rename_i htype
    rw [if_neg htype]
    exact map_stable (h tag) Sum.inl hread more

theorem scalar_stable (tag : UInt32) : Items.Stable (content 0 tag) := by
  intro bytes f rest h more
  simp only [content] at h ⊢
  cases htype : getTagWireType tag with
  | none =>
    rw [htype] at h
    cases h
  | some type =>
    rw [htype] at h
    cases type with
    | varint =>
      obtain ⟨x, hx, heq⟩ := Option.map_eq_some_iff.mp h
      obtain ⟨rfl, rfl⟩ := Prod.mk.inj heq
      simp only [Varint.decode_append hx more, Option.map_some]
    | fixed64 =>
      exact map_stable (rawAt_stable 8)
        (fun x => UnknownField.fixed64 (getTagFieldNumber tag) (ofBytes64 x)) h more
    | lengthDelimited => exact map_stable delimited_stable _ h more
    | startGroup => cases h
    | endGroup => cases h
    | fixed32 =>
      exact map_stable (rawAt_stable 4)
        (fun x => UnknownField.fixed32 (getTagFieldNumber tag) (IntLayout.little.ofBytes x)) h more

theorem content_stable (levels : ℕ) (tag : UInt32) : Items.Stable (content levels tag) := by
  induction levels generalizing tag with
  | zero => exact scalar_stable tag
  | succ levels ih =>
    intro bytes f rest h more
    by_cases htype : getTagWireType tag = some .startGroup
    · obtain ⟨l, fields, hl, rfl, hmany⟩ := group_eq_some htype h
      obtain rfl := Nat.succ.inj hl
      have hmore := Items.many_append (content_proper levels) (groupItem_stable ih) hmany more
      rw [content_succ_group htype, hmore, Option.bind_some, if_pos rfl]
    · rw [content_of_ne htype] at h ⊢
      exact scalar_stable tag h more

/-- **What is read of a field** does not depend on what comes behind it. -/
theorem field_stable (levels : ℕ) : Items.Stable (field levels) :=
  tagged_stable (content_stable levels)

theorem field_nonEmpty (levels : ℕ) : Items.NonEmpty (field levels) := by
  intro bytes f rest h
  obtain ⟨tag, bytes', -, hlt, hread⟩ := tagged_eq_some h
  exact (content_shortens levels hread).trans_lt hlt

/-! ## Reading back -/

theorem ofBytes64_toBytes (value : UInt64) :
    ofBytes64 (writeLittleEndian64ToArray value) = value := by
  have hfour : (IntLayout.little.toBytes value.toUInt32).length = 4 :=
    IntLayout.little.length_toBytes _
  have hlow : value.toUInt32.toUInt64.toNat < 2 ^ 32 := by
    rw [UInt32.toNat_toUInt64]
    exact value.toUInt32.toNat_lt
  have h32 : (32 : UInt64) = UInt64.ofNat 32 := rfl
  rw [ofBytes64, writeLittleEndian64ToArray, List.take_left' hfour, List.drop_left' hfour,
    IntLayout.ofBytes_toBytes, IntLayout.ofBytes_toBytes, h32, or_shiftLeft_eq (by decide) hlow]
  apply UInt64.toNat_inj.mp
  have hv := value.toNat_lt
  rw [UInt64.toNat_ofNat', UInt32.toNat_toUInt64, UInt64.toNat_toUInt32, UInt32.toNat_toUInt64,
    UInt64.toNat_toUInt32, UInt64.toNat_shiftRight, Nat.shiftRight_eq_div_pow,
    show (UInt64.ofNat 32).toNat % 64 = 32 from rfl]
  omega

theorem rawAt_of_length {size : ℕ} {front : List UInt8} (h : front.length = size)
    (rest : List UInt8) : rawAt size (front ++ rest) = some (front, rest) := by
  subst h
  exact rawAt_append front rest

theorem delimited_encode {value : List UInt8} (h : value.length < 2 ^ 31) (rest : List UInt8) :
    delimited (writeStringWithSizeToArray value ++ rest) = some (value, rest) := by
  have hlen : (UInt32.ofNat value.length).toNat = value.length :=
    UInt32.toNat_ofNat_of_lt' (show _ < 2 ^ 32 by omega)
  rw [writeStringWithSizeToArray_eq (by omega), List.append_assoc, delimited, kMaxVarintBytes,
    Varint.decode_encode (by omega), Option.bind_some, hlen, if_pos h]
  exact rawAt_append value rest

theorem serialize_eq_flatMap (fields : List UnknownField) :
    serializeUnknownFieldsToArray fields = fields.flatMap UnknownField.serialize := by
  induction fields with
  | nil => rfl
  | cons f fields ih => rw [serializeUnknownFieldsToArray, ih, List.flatMap_cons]

theorem groupItem_of_field {f : UnknownField} (h : field levels bytes = some (f, rest)) :
    groupItem (content levels) bytes = some (.inl f, rest) := by
  obtain ⟨x, hx, hread⟩ := Option.bind_eq_some_iff.mp h
  rw [groupItem, tagged, hx, Option.bind_some]
  split at hread
  · cases hread
  · rename_i htag
    have htype : getTagWireType (UInt32.ofNat x.1) ≠ some .endGroup := by
      intro htype
      rw [content_of_ne (by rw [htype]; nofun)] at hread
      simp only [content, htype] at hread
      cases hread
    rw [if_neg htag, if_neg htype, hread]
    rfl

theorem field_scalar {number : UInt32} (hnumber : number.toNat < 2 ^ 29) (type : WireType)
    (htag : number ≠ 0 ∨ type ≠ .varint) (htype : type ≠ .startGroup) (bytes : List UInt8) :
    field levels (writeTag number type ++ bytes) = content 0 (makeTag number type) bytes := by
  have hne : makeTag number type ≠ 0 := by
    rw [ne_eq, makeTag_eq_zero hnumber]
    exact fun h => htag.elim (fun hn => hn h.1) fun ht => ht h.2
  rw [writeTag, field, tagged_encode hne, content_of_ne]
  rw [getTagWireType_makeTag hnumber]
  exact fun h => htype (Option.some.inj h)

/-- **A field is read as it was written**, and nothing behind it is touched. -/
theorem field_serialize (h : Valid levels f) (rest : List UInt8) :
    field levels (f.serialize ++ rest) = some (f, rest) := by
  induction h generalizing rest with
  | @varint levels number value hnumber hne =>
    have hlt := value.toNat_lt
    rw [UnknownField.serialize, List.append_assoc,
      field_scalar hnumber .varint (.inl hne) (by decide)]
    simp only [content, getTagWireType_makeTag hnumber, getTagFieldNumber_makeTag hnumber]
    rw [writeVarint64ToArray_eq, kMaxVarintBytes, Varint.decode_encode (by omega), Option.map_some,
      UInt64.ofNat_toNat]
  | @fixed32 levels number value hnumber =>
    rw [UnknownField.serialize, List.append_assoc,
      field_scalar hnumber .fixed32 (.inr (by decide)) (by decide)]
    simp only [content, getTagWireType_makeTag hnumber, getTagFieldNumber_makeTag hnumber]
    rw [writeLittleEndian32ToArray, rawAt_of_length (IntLayout.little.length_toBytes value),
      Option.map_some, IntLayout.ofBytes_toBytes]
  | @fixed64 levels number value hnumber =>
    rw [UnknownField.serialize, List.append_assoc,
      field_scalar hnumber .fixed64 (.inr (by decide)) (by decide)]
    simp only [content, getTagWireType_makeTag hnumber, getTagFieldNumber_makeTag hnumber]
    rw [rawAt_of_length (show (writeLittleEndian64ToArray value).length = 8 from rfl),
      Option.map_some, ofBytes64_toBytes]
  | @lengthDelimited levels number value hnumber hlen =>
    rw [UnknownField.serialize, List.append_assoc,
      field_scalar hnumber .lengthDelimited (.inr (by decide)) (by decide)]
    simp only [content, getTagWireType_makeTag hnumber, getTagFieldNumber_makeTag hnumber]
    rw [delimited_encode hlen, Option.map_some]
  | @group levels number fields hnumber _ ih =>
    have hstart : makeTag number .startGroup ≠ 0 := by simp [makeTag_eq_zero hnumber]
    have hend : makeTag number .endGroup ≠ 0 := by simp [makeTag_eq_zero hnumber]
    have hmark : groupItem (content levels) (writeTag number .endGroup ++ rest) =
        some (.inr (makeTag number .endGroup), rest) := by
      rw [groupItem, writeTag, tagged_encode hend, if_pos (getTagWireType_makeTag hnumber _)]
    have hmany := Items.many_encode (content_proper levels)
      (fun f hf ys => groupItem_of_field (ih f hf ys)) hmark
    rw [UnknownField.serialize, List.append_assoc, List.append_assoc, writeTag, field,
      tagged_encode hstart, content_succ_group (getTagWireType_makeTag hnumber _),
      serialize_eq_flatMap, hmany, Option.bind_some, getTagFieldNumber_makeTag hnumber, if_pos rfl]

/-- **The fields of a message** are read as they were written. -/
theorem fields_serialize {fs : List UnknownField} (h : ∀ f ∈ fs, Valid defaultRecursionLimit f) :
    fields (serializeUnknownFieldsToArray fs) = some fs := by
  rw [fields, serialize_eq_flatMap]
  exact Items.all_encode (field_nonEmpty _) fun f hf => field_serialize (h f hf)

theorem valid_of_field {bytes rest : List UInt8} (h : field levels bytes = some (f, rest)) :
    Valid levels f := by
  obtain ⟨tag, bytes', htag, -, hread⟩ := tagged_eq_some h
  exact valid_of_content htag hread

theorem valid_of_fields {bytes : List UInt8} {fs : List UnknownField} (h : fields bytes = some fs) :
    ∀ f ∈ fs, Valid defaultRecursionLimit f := by
  have hwhole := (Items.all_iff (field_nonEmpty _)).mp h
  apply hwhole.forall_mem (P := Valid defaultRecursionLimit)
  intro xs f rest hread
  exact valid_of_field hread

/-! ## Writing what was read -/

/-- Behind a tag no less is read than is written. -/
def Grows {α : Type} (read : UInt32 → Reader UInt8 α) (weight : α → ℕ) : Prop :=
  ∀ {tag bytes a rest}, read tag bytes = some (a, rest) →
    weight a + rest.length ≤ (writeTagToArray tag).length + bytes.length

theorem tagged_length {α : Type} {read : UInt32 → Reader UInt8 α} (weight : α → ℕ)
    (h : Grows read weight) {a : α} (hread : tagged read bytes = some (a, rest)) :
    weight a + rest.length ≤ bytes.length := by
  obtain ⟨x, hx, hread⟩ := Option.bind_eq_some_iff.mp hread
  split at hread
  · cases hread
  · have htag : (writeTagToArray (UInt32.ofNat x.1)).length ≤ (Varint.encode x.1).length := by
      rw [writeTagToArray_eq, UInt32.toNat_ofNat']
      exact Varint.length_encode_mono (Nat.mod_le _ _)
    have hle := h hread
    have hfront := Varint.length_encode_of_decode hx
    omega

theorem delimited_length {value : List UInt8} (h : delimited bytes = some (value, rest)) :
    (writeStringWithSizeToArray value).length + rest.length ≤ bytes.length := by
  obtain ⟨hlt, -⟩ := delimited_eq_some h
  obtain ⟨x, hx, hread⟩ := Option.bind_eq_some_iff.mp h
  split at hread
  · obtain ⟨hrest, hlen⟩ := rawAt_eq_some hread
    have hsize : (Varint.encode value.length).length ≤ (Varint.encode x.1).length := by
      rw [hlen, UInt32.toNat_ofNat']
      exact Varint.length_encode_mono (Nat.mod_le _ _)
    have hfront := Varint.length_encode_of_decode hx
    rw [hrest, List.length_append] at hfront
    rw [writeStringWithSizeToArray_eq (by omega), List.length_append]
    omega
  · cases hread

theorem scalar_length (tag : UInt32) (h : content 0 tag bytes = some (f, rest)) :
    f.serialize.length + rest.length ≤ (writeTagToArray tag).length + bytes.length := by
  simp only [content] at h
  cases htype : getTagWireType tag with
  | none =>
    rw [htype] at h
    cases h
  | some type =>
    have htag := (getTagWireType_eq_some_iff tag type).mp htype
    rw [htype] at h
    cases type with
    | varint =>
      obtain ⟨x, hx, heq⟩ := Option.map_eq_some_iff.mp h
      obtain ⟨rfl, rfl⟩ := Prod.mk.inj heq
      have hvalue : (writeVarint64ToArray (UInt64.ofNat x.1)).length ≤
          (Varint.encode x.1).length := by
        rw [writeVarint64ToArray_eq, UInt64.toNat_ofNat']
        exact Varint.length_encode_mono (Nat.mod_le _ _)
      have hfront := Varint.length_encode_of_decode hx
      rw [UnknownField.serialize, writeTag, ← htag, List.length_append]
      omega
    | fixed64 =>
      obtain ⟨x, hx, heq⟩ := Option.map_eq_some_iff.mp h
      obtain ⟨rfl, rfl⟩ := Prod.mk.inj heq
      obtain ⟨rfl, hlen⟩ := rawAt_eq_some hx
      have height : (writeLittleEndian64ToArray (ofBytes64 x.1)).length = 8 := rfl
      rw [UnknownField.serialize, writeTag, ← htag, List.length_append, List.length_append, hlen,
        height, Nat.add_assoc]
    | lengthDelimited =>
      obtain ⟨x, hx, heq⟩ := Option.map_eq_some_iff.mp h
      obtain ⟨rfl, rfl⟩ := Prod.mk.inj heq
      have hle := delimited_length hx
      rw [UnknownField.serialize, writeTag, ← htag, List.length_append]
      omega
    | startGroup => cases h
    | endGroup => cases h
    | fixed32 =>
      obtain ⟨x, hx, heq⟩ := Option.map_eq_some_iff.mp h
      obtain ⟨rfl, rfl⟩ := Prod.mk.inj heq
      obtain ⟨rfl, hlen⟩ := rawAt_eq_some hx
      rw [UnknownField.serialize, writeTag, ← htag, List.length_append, List.length_append, hlen,
        writeLittleEndian32ToArray, IntLayout.length_toBytes, Nat.add_assoc]

/-- The bytes of an item of a group. -/
def itemLength : UnknownField ⊕ UInt32 → ℕ
  | .inl f => f.serialize.length
  | .inr tag => (writeTagToArray tag).length

theorem groupItem_length {read : UInt32 → Reader UInt8 UnknownField}
    (h : Grows read fun f => f.serialize.length) {x : UnknownField ⊕ UInt32}
    (hread : groupItem read bytes = some (x, rest)) :
    itemLength x + rest.length ≤ bytes.length := by
  refine tagged_length itemLength ?_ hread
  intro tag bytes x rest hread
  beta_reduce at hread
  split at hread
  · obtain ⟨rfl, rfl⟩ := Prod.mk.inj (Option.some.inj hread)
    exact le_rfl
  · obtain ⟨y, hy, heq⟩ := Option.map_eq_some_iff.mp hread
    obtain ⟨rfl, rfl⟩ := Prod.mk.inj heq
    exact h hy

theorem content_length (levels : ℕ) : Grows (content levels) fun f => f.serialize.length := by
  induction levels with
  | zero =>
    intro tag bytes f rest h
    exact scalar_length tag h
  | succ levels ih =>
    intro tag bytes f rest h
    by_cases htype : getTagWireType tag = some .startGroup
    · obtain ⟨l, fields, hl, rfl, hmany⟩ := group_eq_some htype h
      obtain rfl := Nat.succ.inj hl
      have hitems := (Items.many_iff (content_proper levels)).mp hmany
      have hle : (fields.map fun f => f.serialize.length).sum +
          (writeTag (getTagFieldNumber tag) .endGroup).length + rest.length ≤ bytes.length :=
        hitems.weigh itemLength (groupItem_length ih)
      have htag := (getTagWireType_eq_some_iff tag .startGroup).mp htype
      beta_reduce
      rw [UnknownField.serialize, serialize_eq_flatMap, writeTag, ← htag, List.length_append,
        List.length_append, List.length_flatMap]
      omega
    · rw [content_of_ne htype] at h
      exact scalar_length tag h

/-- **What is written is no longer than what was read.** -/
theorem fields_length {bytes : List UInt8} {fs : List UnknownField} (h : fields bytes = some fs) :
    (serializeUnknownFieldsToArray fs).length ≤ bytes.length := by
  have hwhole := (Items.all_iff (field_nonEmpty _)).mp h
  rw [serialize_eq_flatMap, List.length_flatMap]
  exact hwhole.weigh _ (tagged_length _ (content_length _))

/-! ## `SkipField` -/

/-- The stream `t` is where `s` is, with `rest` to read; the last tag may be another. -/
structure Behind (s t : CodedInputStream) (rest : List UInt8) : Prop where
  buffer_ : t.buffer_ = rest
  total_bytes_read_ : t.total_bytes_read_ = s.total_bytes_read_
  current_limit_ : t.current_limit_ = s.current_limit_
  legitimate_message_end_ : t.legitimate_message_end_ = s.legitimate_message_end_

/-- What `p` finds at the front is read. Where it finds nothing the stream may be anywhere. -/
def Finds {α : Type} (s : CodedInputStream) (p : Option (α × List UInt8))
    (r : Exec (Option α × CodedInputStream)) : Prop :=
  ∃ t, r = .ok (p.map Prod.fst, t) ∧ ∀ x, p = some x → Behind s t x.2

section Finds

variable {α β : Type} {s t u : CodedInputStream}

theorem Behind.trans {more : List UInt8} (h : Behind s t rest) (h' : Behind t u more) :
    Behind s u more where
  buffer_ := h'.buffer_
  total_bytes_read_ := h'.total_bytes_read_.trans h.total_bytes_read_
  current_limit_ := h'.current_limit_.trans h.current_limit_
  legitimate_message_end_ := h'.legitimate_message_end_.trans h.legitimate_message_end_

theorem Behind.flat (h : Behind s t rest) (hs : s.Flat) : t.Flat := by
  rw [CodedInputStream.Flat, h.total_bytes_read_, h.current_limit_]
  exact hs

theorem Reads.finds {p : Option (α × List UInt8)} {r : Exec (Option α × CodedInputStream)}
    (h : Reads s p r) : Finds s p r := by
  obtain ⟨buffer_, rfl, hrest⟩ := h
  exact ⟨_, rfl, fun x hx => ⟨hrest x hx, rfl, rfl, rfl⟩⟩

theorem Finds.map {p : Option (α × List UInt8)} {r : Exec (Option α × CodedInputStream)}
    (h : Finds s p r) (g : α → β) :
    Finds s (p.map fun x => (g x.1, x.2)) (r >>= fun x => pure (x.1.map g, x.2)) := by
  obtain ⟨t, rfl, hrest⟩ := h
  refine ⟨t, ?_, ?_⟩
  · cases p <;> rfl
  · intro x hx
    obtain ⟨y, hy, rfl⟩ := Option.map_eq_some_iff.mp hx
    exact hrest y hy

/-- To read on is to read. -/
theorem Finds.behind {p : Option (α × List UInt8)} {r : Exec (Option α × CodedInputStream)}
    (h : Finds t p r) (hbehind : Behind s t rest) : Finds s p r := by
  obtain ⟨u, rfl, hrest⟩ := h
  exact ⟨u, rfl, fun x hx => hbehind.trans (hrest x hx)⟩

theorem finds_none (t : CodedInputStream) :
    Finds s (none : Option (α × List UInt8)) (.ok (none, t)) :=
  ⟨t, rfl, fun x hx => by cases hx⟩

end Finds

variable {s : CodedInputStream}

theorem nextTag_of_front {x : ℕ × List UInt8} (h : s.front = some x) :
    s.nextTag = UInt32.ofNat x.1 := by
  rw [CodedInputStream.nextTag, h]
  rfl

theorem behindTag_behind {x : ℕ × List UInt8} {buffer_ : List UInt8} (h : s.front = some x)
    (hbuffer : buffer_ = x.2) : Behind s (s.behindTag buffer_) x.2 := by
  refine ⟨hbuffer, rfl, rfl, ?_⟩
  rw [CodedInputStream.behindTag, CodedInputStream.endsHere, if_neg]
  intro hnil
  rw [CodedInputStream.front_nil hnil] at h
  cases h

theorem toInt32_lt_zero_iff {length : UInt32} :
    length.toInt32.toInt < 0 ↔ ¬ length.toNat < 2 ^ 31 := by
  have hlt := length.toNat_lt
  have hint : length.toInt32.toInt = if 2 * length.toNat < 2 ^ 32 then (length.toNat : ℤ)
      else length.toNat - (2 ^ 32 : ℕ) := BitVec.toInt_eq_toNat_cond length.toBitVec
  rw [hint]
  split <;> omega

theorem toInt32_toNat {length : UInt32} (h : length.toNat < 2 ^ 31) :
    length.toInt32.toInt.toNat = length.toNat := by
  have hint : length.toInt32.toInt = if 2 * length.toNat < 2 ^ 32 then (length.toNat : ℤ)
      else length.toNat - (2 ^ 32 : ℕ) := BitVec.toInt_eq_toNat_cond length.toBitVec
  rw [hint, if_pos (by omega)]
  exact Int.toNat_natCast _

/-- The size that is an `int` must not be negative. -/
theorem delimited_eq (length : UInt32) (bytes : List UInt8) :
    (if length.toInt32.toInt < 0 then none else rawAt length.toInt32.toInt.toNat bytes) =
      if length.toNat < 2 ^ 31 then rawAt length.toNat bytes else none := by
  by_cases hlt : length.toNat < 2 ^ 31
  · rw [if_pos hlt, if_neg (fun h => toInt32_lt_zero_iff.mp h hlt), toInt32_toNat hlt]
  · rw [if_neg hlt, if_pos (toInt32_lt_zero_iff.mpr hlt)]

theorem wireReadString_spec (hs : s.Flat) : Finds s (delimited s.buffer_) (wireReadString s) := by
  obtain ⟨buffer_, hread, hrest⟩ := CodedInputStream.readVarint32_spec hs
  rw [CodedInputStream.front] at hread hrest
  rw [wireReadString, hread, delimited]
  cases hfront : Varint.decode kMaxVarintBytes s.buffer_ with
  | none => exact finds_none _
  | some x =>
    have hbuf := hrest (UInt32.ofNat x.1, x.2) (by rw [hfront]; rfl)
    have hflat : CodedInputStream.Flat { s with buffer_ } := hs
    have hstring := (CodedInputStream.readString_spec hflat
      (UInt32.ofNat x.1).toInt32.toInt).finds
    rw [delimited_eq] at hstring
    rw [Option.bind_some, ← hbuf]
    exact hstring.behind ⟨rfl, rfl, rfl, rfl⟩

/-- What `SkipMessage` makes of the fields of a group: it may stop at a tag that is missing, which
its caller finds out. -/
def Collects (s : CodedInputStream) (before : List UnknownField)
    (p : Option ((List UnknownField × UInt32) × List UInt8))
    (r : Exec (Option (List UnknownField) × CodedInputStream)) : Prop :=
  ∃ t, match p with
    | some ((fields, tag), rest) =>
      r = .ok (some (before ++ fields), t) ∧ t.last_tag_ = tag ∧ Behind s t rest
    | none => r = .ok (none, t) ∨ ∃ fields, r = .ok (some fields, t) ∧ t.last_tag_ = 0

/-- **The loop of `SkipMessage`** reads what `many` finds, and ends. -/
theorem skipMessage_spec {read : UInt32 → Reader UInt8 UnknownField}
    {skip : UInt32 → CodedInputStream → Exec (Option UnknownField × CodedInputStream)}
    (hshort : Shortens read) (hskip : ∀ tag s, s.Flat → Finds s (read tag s.buffer_) (skip tag s))
    (passes : ℕ) (before : List UnknownField) (hs : s.Flat) (hpasses : s.buffer_.length < passes) :
    Collects s before (Items.many (groupItem read) s.buffer_)
      (skipMessage skip passes before s) := by
  induction passes generalizing s before with
  | zero => cases hpasses
  | succ passes ih =>
    obtain ⟨buffer_, htag, hrest⟩ := CodedInputStream.readTag_spec hs
    rw [skipMessage, htag]
    simp only [bind, Except.bind]
    cases hfront : s.front with
    | none =>
      have hzero : s.nextTag = 0 := by
        rw [CodedInputStream.nextTag, hfront]
        rfl
      have hitem : groupItem read s.buffer_ = none := by
        rw [CodedInputStream.front] at hfront
        rw [groupItem, tagged, hfront]
        rfl
      rw [Items.many_of_none hitem, if_pos hzero]
      exact ⟨_, Or.inr ⟨before, rfl, hzero⟩⟩
    | some x =>
      have hnext := nextTag_of_front hfront
      have hbehind := behindTag_behind hfront (hrest x hfront)
      rw [CodedInputStream.front] at hfront
      have hlt := decode_length_lt hfront
      by_cases hzero : UInt32.ofNat x.1 = 0
      · have hitem : groupItem read s.buffer_ = none := by
          rw [groupItem, tagged, hfront, Option.bind_some, if_pos hzero]
        rw [Items.many_of_none hitem, if_pos (hnext.trans hzero)]
        exact ⟨_, Or.inr ⟨before, rfl, hnext.trans hzero⟩⟩
      · rw [if_neg (by rw [hnext]; exact hzero), hnext]
        by_cases hend : getTagWireType (UInt32.ofNat x.1) = some .endGroup
        · have hitem : groupItem read s.buffer_ = some (.inr (UInt32.ofNat x.1), x.2) := by
            rw [groupItem, tagged, hfront, Option.bind_some, if_neg hzero, if_pos hend]
          rw [Items.many_of_mark hitem, if_pos hend]
          exact ⟨_, by rw [List.append_nil]; rfl, hnext, hbehind⟩
        · rw [if_neg hend]
          obtain ⟨t, hskipped, hafter⟩ := hskip (UInt32.ofNat x.1) _ (hbehind.flat hs)
          rw [hbehind.buffer_] at hskipped hafter
          rw [hskipped]
          cases hread : read (UInt32.ofNat x.1) x.2 with
          | none =>
            have hitem : groupItem read s.buffer_ = none := by
              rw [groupItem, tagged, hfront, Option.bind_some, if_neg hzero, if_neg hend, hread]
              rfl
            rw [Items.many_of_none hitem]
            exact ⟨t, Or.inl rfl⟩
          | some y =>
            have hitem : groupItem read s.buffer_ = some (.inl y.1, y.2) := by
              rw [groupItem, tagged, hfront, Option.bind_some, if_neg hzero, if_neg hend, hread]
              rfl
            have hfield := hbehind.trans (hafter y hread)
            have hshorter : t.buffer_.length < passes := by
              rw [hfield.buffer_]
              have hle := hshort hread
              omega
            rw [Items.many_of_item (groupItem_proper hshort) hitem]
            obtain ⟨u, hu⟩ := ih (before ++ [y.1]) (hfield.flat hs) hshorter
            rw [hfield.buffer_] at hu
            cases hmany : Items.many (groupItem read) y.2 with
            | none =>
              rw [hmany] at hu
              exact ⟨u, hu⟩
            | some z =>
              rw [hmany] at hu
              obtain ⟨hr, hlast, hmore⟩ := hu
              refine ⟨u, ?_, hlast, hfield.trans hmore⟩
              rw [← List.append_cons] at hr
              exact hr

theorem skipField_of_ne (h : getTagWireType tag ≠ some .startGroup) :
    skipField levels tag s = skipField 0 tag s := by
  cases levels with
  | zero => rfl
  | succ levels =>
    simp only [skipField]
    cases htype : getTagWireType tag with
    | none => rfl
    | some type =>
      cases type with
      | startGroup => exact absurd htype h
      | _ => rfl

/-- `SkipField` where no group begins. -/
theorem skipField_scalar (htype : getTagWireType tag ≠ some .startGroup) (hs : s.Flat) :
    Finds s (content 0 tag s.buffer_) (skipField 0 tag s) := by
  simp only [content, skipField]
  cases h : getTagWireType tag with
  | none => exact finds_none s
  | some type =>
    cases type with
    | varint =>
      have hread := (CodedInputStream.readVarint64_spec hs).finds.map
        (UnknownField.varint (getTagFieldNumber tag))
      rw [Option.map_map] at hread
      exact hread
    | fixed64 =>
      have hread := (CodedInputStream.readLittleEndian64_spec hs).finds.map
        (UnknownField.fixed64 (getTagFieldNumber tag))
      rw [Option.map_map] at hread
      exact hread
    | lengthDelimited => exact (wireReadString_spec hs).map _
    | startGroup => exact absurd h htype
    | endGroup => exact finds_none s
    | fixed32 =>
      have hread := (CodedInputStream.readLittleEndian32_spec hs).finds.map
        (UnknownField.fixed32 (getTagFieldNumber tag))
      rw [Option.map_map] at hread
      exact hread

/-- The tag that ends a group is not `0`. -/
theorem endTag_ne_zero (tag : UInt32) : makeTag (getTagFieldNumber tag) .endGroup ≠ 0 :=
  fun h => nomatch ((makeTag_eq_zero (getTagFieldNumber_lt tag)).mp h).2

/-- **`SkipField`** reads what `content` finds, never beyond the array, and ends. -/
theorem skipField_spec (levels : ℕ) (tag : UInt32) (hs : s.Flat) :
    Finds s (content levels tag s.buffer_) (skipField levels tag s) := by
  induction levels generalizing tag s with
  | zero =>
    by_cases htype : getTagWireType tag = some .startGroup
    · rw [content_zero_group htype]
      simp only [skipField, htype]
      exact finds_none s
    · exact skipField_scalar htype hs
  | succ levels ih =>
    by_cases htype : getTagWireType tag = some .startGroup
    · have hloop := skipMessage_spec (content_shortens levels) (fun tag s hs => ih tag hs)
        (s.bufferSize + 1) [] hs (Nat.lt_succ_self _)
      rw [content_succ_group htype]
      simp only [skipField, htype]
      obtain ⟨t, ht⟩ := hloop
      cases hmany : Items.many (groupItem (content levels)) s.buffer_ with
      | none =>
        rw [hmany] at ht
        rcases ht with ht | ⟨fields, ht, hlast⟩
        · rw [ht]
          exact finds_none t
        · rw [ht]
          simp only [bind, Except.bind, CodedInputStream.lastTagWas, hlast]
          rw [if_neg]
          · exact finds_none t
          · rw [decide_eq_true_eq]
            exact (endTag_ne_zero tag).symm
      | some x =>
        obtain ⟨⟨fields, mark⟩, rest⟩ := x
        rw [hmany] at ht
        obtain ⟨ht, hlast, hbehind⟩ := ht
        rw [ht]
        simp only [bind, Except.bind, CodedInputStream.lastTagWas, hlast, Option.bind_some,
          decide_eq_true_eq, List.nil_append]
        by_cases hmark : mark = makeTag (getTagFieldNumber tag) .endGroup
        · rw [if_pos hmark, if_pos hmark]
          refine ⟨t, rfl, ?_⟩
          intro y hy
          obtain rfl := Option.some.inj hy
          exact hbehind
        · rw [if_neg hmark, if_neg hmark]
          exact finds_none t
    · rw [content_of_ne htype, skipField_of_ne htype]
      exact skipField_scalar htype hs

/-! ## A tag and its field -/

/-- A tag is read, and then its field. -/
def readField (levels : ℕ) (s : CodedInputStream) :
    Exec (Option UnknownField × CodedInputStream) := do
  let (tag, s) ← s.readTag
  if tag = 0 then pure (none, s) else skipField levels tag s

theorem readField_spec (levels : ℕ) (hs : s.Flat) :
    Finds s (field levels s.buffer_) (readField levels s) := by
  obtain ⟨buffer_, htag, hrest⟩ := CodedInputStream.readTag_spec hs
  simp only [readField, htag, bind, Except.bind]
  rw [field, tagged]
  cases hfront : s.front with
  | none =>
    have hnone : Varint.decode kMaxVarintBytes s.buffer_ = none := hfront
    have hzero : s.nextTag = 0 := by
      rw [CodedInputStream.nextTag, hfront]
      rfl
    rw [hnone, if_pos hzero]
    exact finds_none _
  | some x =>
    have hsome : Varint.decode kMaxVarintBytes s.buffer_ = some x := hfront
    have hbehind := behindTag_behind hfront (hrest x hfront)
    rw [hsome, Option.bind_some, nextTag_of_front hfront]
    split
    · exact finds_none _
    · have hskip := skipField_spec levels (UInt32.ofNat x.1) (hbehind.flat hs)
      rw [hbehind.buffer_] at hskip
      exact hskip.behind hbehind

/-- **Unknown fields are kept.** Those that are read back as they were written, whatever comes
behind them, are those that are valid. -/
theorem valid_iff_readField : Valid levels f ↔
    ∀ s : CodedInputStream, s.Flat → ∀ rest, s.buffer_ = f.serialize ++ rest →
      ∃ t, readField levels s = .ok (some f, t) ∧ Behind s t rest := by
  constructor
  · intro h s hs rest hbuf
    obtain ⟨t, hread, hbehind⟩ := readField_spec levels hs
    rw [hbuf, field_serialize h] at hread hbehind
    exact ⟨t, hread, hbehind _ rfl⟩
  · intro h
    obtain ⟨t, hread, -⟩ := h (.ofArray f.serialize) rfl [] (List.append_nil _).symm
    obtain ⟨t', hread', -⟩ :=
      readField_spec levels (show (CodedInputStream.ofArray f.serialize).Flat from rfl)
    obtain ⟨hf, -⟩ := Prod.mk.inj (Except.ok.inj (hread.symm.trans hread'))
    obtain ⟨x, hx, rfl⟩ := Option.map_eq_some_iff.mp hf.symm
    exact valid_of_field hx

/-- **Any bytes** are read without a fault and without end, and a field that is read is valid, and
no longer when it is written again. -/
theorem readField_normal (hs : s.Flat) (levels : ℕ) :
    ∃ r t, readField levels s = .ok (r, t) ∧ ∀ f, r = some f →
      Valid levels f ∧ Behind s t t.buffer_ ∧
        f.serialize.length + t.buffer_.length ≤ s.buffer_.length := by
  obtain ⟨t, hread, hbehind⟩ := readField_spec levels hs
  refine ⟨_, t, hread, ?_⟩
  intro f hf
  obtain ⟨x, hx, rfl⟩ := Option.map_eq_some_iff.mp hf
  have hrest := hbehind x hx
  rw [hrest.buffer_]
  exact ⟨valid_of_field hx, hrest, tagged_length _ (content_length levels) hx⟩

/-- A group with a number in it, whose tag is longer than it has to be. -/
theorem readField_normal_padded :
    ∃ t, readField 1 (.ofArray [0x8B, 0x80, 0, 0x10, 5, 0x0C, 7]) =
        .ok (some (.group 1 [.varint 2 5]), t) ∧
      (UnknownField.group 1 [.varint 2 5]).serialize.length + t.buffer_.length ≤ 7 := by
  obtain ⟨r, t, hread, hr⟩ :=
    readField_normal (s := .ofArray [0x8B, 0x80, 0, 0x10, 5, 0x0C, 7]) rfl 1
  obtain rfl : r = some (.group 1 [.varint 2 5]) :=
    congrArg Prod.fst (Except.ok.inj (hread.symm.trans rfl))
  exact ⟨t, hread, (hr _ rfl).2.2⟩

end SmartServer
