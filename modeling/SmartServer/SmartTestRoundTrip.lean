import SmartServer.SmartTest

/-!
# `smart::test`, written and read back

**The message** (`WellFormed`). A field that is not set has its default value, and the unknown
fields are valid and unknown. Every message that is read is so (`wellFormed_of_parse`).

**Merging** (`merge_laws`). `MergeFrom` is associative, and a new message is neutral. `Clear` leaves
a new message, and `CopyFrom` makes a copy. To parse two messages, one behind the other, is to merge
the second into the first (`parseFromString_append`).

**Parsing** (`parseFromString_iff`). `ParseFromString` does not fault, and what it gives is the same
whatever was in the message before.

**Round trip** (`roundTrip_iff`). What is written is read back as the same message, once it is
initialized, and small enough or with an `email` at its end. `ByteSize` is the number of bytes that
are written (`byteSize_eq`): `ByteSizeConsistencyError` is never called.

**Numbers** (`numbers_shortest`). They are written in as few bytes as they can be read from, but for
a negative `int32`.
-/

namespace SmartServer

open CodedOutputStream

namespace SmartTest

variable {m source : SmartTest}

/-! ## Has bits -/

theorem or_and_eq (a b mask : UInt32) : (a ||| b) &&& mask = a &&& mask ||| b &&& mask := by
  simp only [← UInt32.toBitVec_inj, UInt32.toBitVec_and, UInt32.toBitVec_or]
  exact BitVec.and_or_distrib_right

/-- A bit that is not set by `b`. -/
theorem or_and_of_eq_zero (a : UInt32) {b mask : UInt32} (h : b &&& mask = 0) :
    (a ||| b) &&& mask = a &&& mask := by
  rw [or_and_eq, h, UInt32.or_zero]

/-- A bit that is set by `b`. -/
theorem or_and_ne_zero (a : UInt32) {b mask : UInt32} (h : b &&& mask ≠ 0) :
    (a ||| b) &&& mask ≠ 0 := by
  rw [or_and_eq]
  exact fun hzero => h (UInt32.or_eq_zero_iff.mp hzero).2

theorem and_eq_zero_of_mask {a mask sub : UInt32} (h : a &&& mask = 0) (hsub : mask &&& sub = sub) :
    a &&& sub = 0 := by
  rw [← hsub, ← UInt32.and_assoc, h, UInt32.zero_and]

section Set

variable (value : List UInt8) (age : Int32)

@[simp] theorem hasName_setName : (m.setName value).hasName = true :=
  decide_eq_true (or_and_ne_zero _ (by decide))

@[simp] theorem hasAge_setName : (m.setName value).hasAge = m.hasAge := by
  rw [hasAge, setName, or_and_of_eq_zero _ (by decide), hasAge]

@[simp] theorem hasEmail_setName : (m.setName value).hasEmail = m.hasEmail := by
  rw [hasEmail, setName, or_and_of_eq_zero _ (by decide), hasEmail]

@[simp] theorem hasName_setAge : (m.setAge age).hasName = m.hasName := by
  rw [hasName, setAge, or_and_of_eq_zero _ (by decide), hasName]

@[simp] theorem hasAge_setAge : (m.setAge age).hasAge = true :=
  decide_eq_true (or_and_ne_zero _ (by decide))

@[simp] theorem hasEmail_setAge : (m.setAge age).hasEmail = m.hasEmail := by
  rw [hasEmail, setAge, or_and_of_eq_zero _ (by decide), hasEmail]

@[simp] theorem hasName_setEmail : (m.setEmail value).hasName = m.hasName := by
  rw [hasName, setEmail, or_and_of_eq_zero _ (by decide), hasName]

@[simp] theorem hasAge_setEmail : (m.setEmail value).hasAge = m.hasAge := by
  rw [hasAge, setEmail, or_and_of_eq_zero _ (by decide), hasAge]

@[simp] theorem hasEmail_setEmail : (m.setEmail value).hasEmail = true :=
  decide_eq_true (or_and_ne_zero _ (by decide))

end Set

/-- Unknown fields behind those there are. -/
def addUnknowns (m : SmartTest) (fs : List UnknownField) : SmartTest :=
  { m with unknown_fields_ := m.unknown_fields_ ++ fs }

section Unknowns

variable (fs : List UnknownField)

@[simp] theorem hasName_addUnknowns : (m.addUnknowns fs).hasName = m.hasName := rfl

@[simp] theorem hasAge_addUnknowns : (m.addUnknowns fs).hasAge = m.hasAge := rfl

@[simp] theorem hasEmail_addUnknowns : (m.addUnknowns fs).hasEmail = m.hasEmail := rfl

end Unknowns

theorem hasName_of_mask {mask : UInt32} (h : m.has_bits_ &&& mask = 0) (hmask : mask &&& 1 = 1) :
    m.hasName = false := decide_eq_false (not_not.mpr (and_eq_zero_of_mask h hmask))

theorem hasAge_of_mask {mask : UInt32} (h : m.has_bits_ &&& mask = 0) (hmask : mask &&& 2 = 2) :
    m.hasAge = false := decide_eq_false (not_not.mpr (and_eq_zero_of_mask h hmask))

theorem hasEmail_of_mask {mask : UInt32} (h : m.has_bits_ &&& mask = 0) (hmask : mask &&& 4 = 4) :
    m.hasEmail = false := decide_eq_false (not_not.mpr (and_eq_zero_of_mask h hmask))

/-! ## Well-formed messages -/

/-- A field that the message knows. -/
def isKnown : UnknownField → Bool
  | .lengthDelimited number _ => number = kNameFieldNumber ∨ number = kEmailFieldNumber
  | .varint number _ => number = kAgeFieldNumber
  | _ => false

/-- The has bits are those of the three fields, what is not set has its default value, and the
unknown fields can be read and are unknown. -/
structure WellFormed (m : SmartTest) : Prop where
  bits : m.has_bits_.toNat < 2 ^ 3
  name : m.hasName = false → m.name_ = []
  age : m.hasAge = false → m.age_ = 0
  email : m.hasEmail = false → m.email_ = []
  name_lt : m.name_.length < 2 ^ 31
  email_lt : m.email_.length < 2 ^ 31
  unknown : ∀ f ∈ m.unknown_fields_, Valid defaultRecursionLimit f ∧ isKnown f = false

theorem wellFormed_new : new.WellFormed where
  bits := by decide
  name _ := rfl
  age _ := rfl
  email _ := rfl
  name_lt := by decide
  email_lt := by decide
  unknown f hf := by cases hf

/-- The eight values that the has bits can have. -/
theorem WellFormed.cases_bits (h : m.WellFormed) :
    m.has_bits_ = 0 ∨ m.has_bits_ = 1 ∨ m.has_bits_ = 2 ∨ m.has_bits_ = 3 ∨
      m.has_bits_ = 4 ∨ m.has_bits_ = 5 ∨ m.has_bits_ = 6 ∨ m.has_bits_ = 7 := by
  have hlt := h.bits
  simp only [← UInt32.toNat_inj, UInt32.reduceToNat]
  omega

theorem or_lt {a b : UInt32} (ha : a.toNat < 2 ^ 3) (hb : b.toNat < 2 ^ 3) :
    (a ||| b).toNat < 2 ^ 3 := by
  rw [UInt32.toNat_or]
  exact Nat.or_lt_two_pow ha hb

section Keep

theorem WellFormed.setName (h : m.WellFormed) {value : List UInt8}
    (hvalue : value.length < 2 ^ 31) : (m.setName value).WellFormed where
  bits := or_lt h.bits (by decide)
  name hset := by simp at hset
  age hset := h.age (by simpa using hset)
  email hset := h.email (by simpa using hset)
  name_lt := hvalue
  email_lt := h.email_lt
  unknown := h.unknown

theorem WellFormed.setAge (h : m.WellFormed) (age : Int32) : (m.setAge age).WellFormed where
  bits := or_lt h.bits (by decide)
  name hset := h.name (by simpa using hset)
  age hset := by simp at hset
  email hset := h.email (by simpa using hset)
  name_lt := h.name_lt
  email_lt := h.email_lt
  unknown := h.unknown

theorem WellFormed.setEmail (h : m.WellFormed) {value : List UInt8}
    (hvalue : value.length < 2 ^ 31) : (m.setEmail value).WellFormed where
  bits := or_lt h.bits (by decide)
  name hset := h.name (by simpa using hset)
  age hset := h.age (by simpa using hset)
  email hset := by simp at hset
  name_lt := h.name_lt
  email_lt := hvalue
  unknown := h.unknown

theorem WellFormed.addUnknowns (h : m.WellFormed) {fs : List UnknownField}
    (hfs : ∀ f ∈ fs, Valid defaultRecursionLimit f ∧ isKnown f = false) :
    (m.addUnknowns fs).WellFormed where
  bits := h.bits
  name := h.name
  age := h.age
  email := h.email
  name_lt := h.name_lt
  email_lt := h.email_lt
  unknown f hf := (List.mem_append.mp hf).elim (h.unknown f) (hfs f)

end Keep

theorem WellFormed.addField (h : m.WellFormed) {f : UnknownField}
    (hf : Valid defaultRecursionLimit f) : (m.addField f).WellFormed := by
  have hunknown (hnot : isKnown f = false) : (m.addUnknown f).WellFormed := by
    apply h.addUnknowns
    intro g hg
    obtain rfl := List.mem_singleton.mp hg
    exact ⟨hf, hnot⟩
  cases hf with
  | @varint _ number value hnumber hne =>
    rw [SmartTest.addField]
    split
    · exact h.setAge _
    · rename_i hage
      exact hunknown (decide_eq_false hage)
  | @lengthDelimited _ number value hnumber hlen =>
    rw [SmartTest.addField]
    split
    · exact h.setName hlen
    · rename_i hname
      split
      · exact h.setEmail hlen
      · rename_i hemail
        exact hunknown (decide_eq_false (not_or.mpr ⟨hname, hemail⟩))
  | fixed32 | fixed64 | group => exact hunknown rfl

theorem WellFormed.addFields (h : m.WellFormed) {fs : List UnknownField}
    (hfs : ∀ f ∈ fs, Valid defaultRecursionLimit f) : (m.addFields fs).WellFormed := by
  induction fs generalizing m with
  | nil => exact h
  | cons f fs ih =>
    rw [addFields_cons]
    exact ih (h.addField (hfs f List.mem_cons_self)) fun g hg => hfs g (List.mem_cons_of_mem f hg)

theorem parse_eq_some {data : List UInt8} (h : parse data = some m) :
    ∃ fs, fields data = some fs ∧ m = new.addFields fs ∧ m.isInitialized = true ∧
      (data.length ≤ kDefaultTotalBytesLimit ∨ endsWithEmail fs = true) := by
  obtain ⟨fs, hfs, hm⟩ := Option.bind_eq_some_iff.mp h
  split at hm
  · rename_i hcond
    obtain rfl := Option.some.inj hm
    exact ⟨fs, hfs, rfl, hcond⟩
  · cases hm

/-- **Every message that is read is well-formed.** -/
theorem wellFormed_of_parse {data : List UInt8} (h : parse data = some m) : m.WellFormed := by
  obtain ⟨fs, hfs, rfl, -⟩ := parse_eq_some h
  exact wellFormed_new.addFields (valid_of_fields hfs)

/-- `Clear` leaves nothing of a well-formed message. -/
theorem clear_eq (h : m.WellFormed) : m.clear = new := by
  rw [clear]
  by_cases hmask : m.has_bits_ &&& 7 = 0
  · simp only [hmask, ne_eq, not_true_eq_false, if_false]
    rw [h.name (hasName_of_mask hmask rfl), h.age (hasAge_of_mask hmask rfl),
      h.email (hasEmail_of_mask hmask rfl)]
    rfl
  · have hname : (if m.hasName then [] else m.name_) = [] := by
      split
      · rfl
      · rename_i hset
        exact h.name (Bool.eq_false_of_not_eq_true hset)
    have hemail : (if m.hasEmail then [] else m.email_) = [] := by
      split
      · rfl
      · rename_i hset
        exact h.email (Bool.eq_false_of_not_eq_true hset)
    simp only [hmask, ne_eq, not_false_eq_true, if_true, hname, hemail]
    rfl

theorem WellFormed.bits_eq (h : m.WellFormed) :
    m.has_bits_ = (if m.hasName then 1 else 0) ||| (if m.hasAge then 2 else 0) |||
      (if m.hasEmail then 4 else 0) := by
  rw [hasName, hasAge, hasEmail]
  rcases h.cases_bits with hb | hb | hb | hb | hb | hb | hb | hb <;> rw [hb] <;> rfl

/-- A well-formed message is known by its fields. -/
theorem WellFormed.ext (hm : m.WellFormed) (hsource : source.WellFormed)
    (hname : m.hasName = source.hasName) (hage : m.hasAge = source.hasAge)
    (hemail : m.hasEmail = source.hasEmail) (hname_ : m.name_ = source.name_)
    (hage_ : m.age_ = source.age_) (hemail_ : m.email_ = source.email_)
    (hunknown : m.unknown_fields_ = source.unknown_fields_) : m = source := by
  refine SmartTest.ext ?_ hname_ hage_ hemail_ hunknown
  rw [hm.bits_eq, hsource.bits_eq, hname, hage, hemail]

/-! ## Merging -/

/-- `MergeFrom` sets what is set, field by field. -/
theorem mergeFrom_eq (m source : SmartTest) :
    m.mergeFrom source =
      let m := if source.hasName then m.setName source.name_ else m
      let m := if source.hasAge then m.setAge source.age_ else m
      let m := if source.hasEmail then m.setEmail source.email_ else m
      m.addUnknowns source.unknown_fields_ := by
  rw [mergeFrom]
  by_cases hmask : source.has_bits_ &&& 0xFF = 0
  · simp [hmask, hasName_of_mask hmask rfl, hasAge_of_mask hmask rfl, hasEmail_of_mask hmask rfl,
      addUnknowns]
  · simp only [hmask, ne_eq, not_false_eq_true, if_true, addUnknowns]

@[simp] theorem hasName_mergeFrom :
    (m.mergeFrom source).hasName = (source.hasName || m.hasName) := by
  rw [mergeFrom_eq]
  cases source.hasName <;> cases source.hasAge <;> cases source.hasEmail <;> simp

@[simp] theorem hasAge_mergeFrom :
    (m.mergeFrom source).hasAge = (source.hasAge || m.hasAge) := by
  rw [mergeFrom_eq]
  cases source.hasName <;> cases source.hasAge <;> cases source.hasEmail <;> simp

@[simp] theorem hasEmail_mergeFrom :
    (m.mergeFrom source).hasEmail = (source.hasEmail || m.hasEmail) := by
  rw [mergeFrom_eq]
  cases source.hasName <;> cases source.hasAge <;> cases source.hasEmail <;> simp

@[simp] theorem name_mergeFrom :
    (m.mergeFrom source).name_ = if source.hasName then source.name_ else m.name_ := by
  rw [mergeFrom_eq]
  cases source.hasName <;> cases source.hasAge <;> cases source.hasEmail <;> rfl

@[simp] theorem age_mergeFrom :
    (m.mergeFrom source).age_ = if source.hasAge then source.age_ else m.age_ := by
  rw [mergeFrom_eq]
  cases source.hasName <;> cases source.hasAge <;> cases source.hasEmail <;> rfl

@[simp] theorem email_mergeFrom :
    (m.mergeFrom source).email_ = if source.hasEmail then source.email_ else m.email_ := by
  rw [mergeFrom_eq]
  cases source.hasName <;> cases source.hasAge <;> cases source.hasEmail <;> rfl

@[simp] theorem unknown_mergeFrom :
    (m.mergeFrom source).unknown_fields_ = m.unknown_fields_ ++ source.unknown_fields_ := by
  rw [mergeFrom_eq]
  cases source.hasName <;> cases source.hasAge <;> cases source.hasEmail <;> rfl

theorem WellFormed.mergeFrom (hm : m.WellFormed) (hsource : source.WellFormed) :
    (m.mergeFrom source).WellFormed := by
  rw [mergeFrom_eq]
  apply WellFormed.addUnknowns _ hsource.unknown
  have hname : (if source.hasName then m.setName source.name_ else m).WellFormed := by
    split
    · exact hm.setName hsource.name_lt
    · exact hm
  generalize (if source.hasName then m.setName source.name_ else m) = a at hname ⊢
  have hage : (if source.hasAge then a.setAge source.age_ else a).WellFormed := by
    split
    · exact hname.setAge _
    · exact hname
  generalize (if source.hasAge then a.setAge source.age_ else a) = b at hage ⊢
  split
  · exact hage.setEmail hsource.email_lt
  · exact hage

theorem setName_mergeFrom (hm : m.WellFormed) (hsource : source.WellFormed) {value : List UInt8}
    (hvalue : value.length < 2 ^ 31) :
    (m.mergeFrom source).setName value = m.mergeFrom (source.setName value) := by
  apply ((hm.mergeFrom hsource).setName hvalue).ext (hm.mergeFrom (hsource.setName hvalue))
  · simp
  · simp
  · simp
  · rw [name_mergeFrom, hasName_setName]
    rfl
  · rw [age_mergeFrom, hasAge_setName]
    exact age_mergeFrom
  · rw [email_mergeFrom, hasEmail_setName]
    exact email_mergeFrom
  · rw [unknown_mergeFrom]
    exact unknown_mergeFrom

theorem setAge_mergeFrom (hm : m.WellFormed) (hsource : source.WellFormed) (age : Int32) :
    (m.mergeFrom source).setAge age = m.mergeFrom (source.setAge age) := by
  apply ((hm.mergeFrom hsource).setAge age).ext (hm.mergeFrom (hsource.setAge age))
  · simp
  · simp
  · simp
  · rw [name_mergeFrom, hasName_setAge]
    exact name_mergeFrom
  · rw [age_mergeFrom, hasAge_setAge]
    rfl
  · rw [email_mergeFrom, hasEmail_setAge]
    exact email_mergeFrom
  · rw [unknown_mergeFrom]
    exact unknown_mergeFrom

theorem setEmail_mergeFrom (hm : m.WellFormed) (hsource : source.WellFormed) {value : List UInt8}
    (hvalue : value.length < 2 ^ 31) :
    (m.mergeFrom source).setEmail value = m.mergeFrom (source.setEmail value) := by
  apply ((hm.mergeFrom hsource).setEmail hvalue).ext (hm.mergeFrom (hsource.setEmail hvalue))
  · simp
  · simp
  · simp
  · rw [name_mergeFrom, hasName_setEmail]
    exact name_mergeFrom
  · rw [age_mergeFrom, hasAge_setEmail]
    exact age_mergeFrom
  · rw [email_mergeFrom, hasEmail_setEmail]
    rfl
  · rw [unknown_mergeFrom]
    exact unknown_mergeFrom

theorem addUnknown_mergeFrom (f : UnknownField) :
    (m.mergeFrom source).addUnknown f = m.mergeFrom (source.addUnknown f) := by
  rw [mergeFrom_eq, mergeFrom_eq]
  simp only [addUnknown, addUnknowns, List.append_assoc]
  rfl

/-- A field of the second message. -/
theorem addField_mergeFrom (hm : m.WellFormed) (hsource : source.WellFormed) {f : UnknownField}
    (hf : Valid defaultRecursionLimit f) :
    (m.mergeFrom source).addField f = m.mergeFrom (source.addField f) := by
  cases hf with
  | varint =>
    simp only [addField]
    split
    · exact setAge_mergeFrom hm hsource _
    · exact addUnknown_mergeFrom _
  | @lengthDelimited _ number value hnumber hlen =>
    simp only [addField]
    split
    · exact setName_mergeFrom hm hsource hlen
    · split
      · exact setEmail_mergeFrom hm hsource hlen
      · exact addUnknown_mergeFrom _
  | fixed32 | fixed64 | group => exact addUnknown_mergeFrom _

/-- To add fields is to merge the message that is made of them. -/
theorem addFields_eq_mergeFrom (hm : m.WellFormed) {fs : List UnknownField}
    (hfs : ∀ f ∈ fs, Valid defaultRecursionLimit f) :
    m.addFields fs = m.mergeFrom (new.addFields fs) := by
  induction fs using List.reverseRecOn with
  | nil =>
    rw [mergeFrom_eq]
    exact SmartTest.ext rfl rfl rfl rfl (List.append_nil _).symm
  | append_singleton fs f ih =>
    have hinit : ∀ g ∈ fs, Valid defaultRecursionLimit g :=
      fun g hg => hfs g (List.mem_append_left _ hg)
    rw [addFields_append, addFields_append, ih hinit]
    exact addField_mergeFrom hm (wellFormed_new.addFields hinit)
      (hfs f (List.mem_append_right _ (List.mem_singleton_self f)))

theorem fields_append {a b : List UInt8} {fs : List UnknownField} (h : fields a = some fs) :
    fields (a ++ b) = (fields b).map (fs ++ ·) :=
  Items.all_append (field_nonEmpty _) (field_stable _) h b

theorem isInitialized_iff (h : m.WellFormed) :
    m.isInitialized = true ↔ m.hasName = true ∧ m.hasAge = true := by
  rw [isInitialized, hasName, hasAge]
  rcases h.cases_bits with hb | hb | hb | hb | hb | hb | hb | hb <;> rw [hb] <;> decide

/-- **Two messages, one behind the other**, are read as the first with the second merged into it. -/
theorem parse_append {a b : List UInt8} {x y : SmartTest} (ha : parse a = some x)
    (hb : parse b = some y) (hlen : (a ++ b).length ≤ kDefaultTotalBytesLimit) :
    parse (a ++ b) = some (x.mergeFrom y) := by
  have hx := wellFormed_of_parse ha
  have hy := wellFormed_of_parse hb
  obtain ⟨fs, hfs, rfl, hinit, -⟩ := parse_eq_some ha
  obtain ⟨gs, hgs, rfl, -⟩ := parse_eq_some hb
  have hall : fields (a ++ b) = some (fs ++ gs) := by
    rw [fields_append hfs, hgs]
    rfl
  have hmerge : new.addFields (fs ++ gs) = (new.addFields fs).mergeFrom (new.addFields gs) := by
    rw [addFields_append]
    exact addFields_eq_mergeFrom hx (valid_of_fields hgs)
  have hdone : ((new.addFields fs).mergeFrom (new.addFields gs)).isInitialized = true := by
    obtain ⟨hname, hage⟩ := (isInitialized_iff hx).mp hinit
    rw [isInitialized_iff (hx.mergeFrom hy), hasName_mergeFrom, hasAge_mergeFrom, hname, hage,
      Bool.or_true, Bool.or_true]
    exact ⟨rfl, rfl⟩
  rw [parse, hall, Option.bind_some, hmerge, if_pos ⟨hdone, Or.inl hlen⟩]

/-- What is merged into a new message is copied. -/
theorem new_mergeFrom (h : m.WellFormed) : new.mergeFrom m = m := by
  apply (wellFormed_new.mergeFrom h).ext h
  · rw [hasName_mergeFrom]
    exact Bool.or_false _
  · rw [hasAge_mergeFrom]
    exact Bool.or_false _
  · rw [hasEmail_mergeFrom]
    exact Bool.or_false _
  · rw [name_mergeFrom]
    split
    · rfl
    · rename_i hset
      exact (h.name (Bool.eq_false_of_not_eq_true hset)).symm
  · rw [age_mergeFrom]
    split
    · rfl
    · rename_i hset
      exact (h.age (Bool.eq_false_of_not_eq_true hset)).symm
  · rw [email_mergeFrom]
    split
    · rfl
    · rename_i hset
      exact (h.email (Bool.eq_false_of_not_eq_true hset)).symm
  · rw [unknown_mergeFrom]
    rfl

/-- **`CopyFrom`** makes a copy. -/
theorem copyFrom_eq (hm : m.WellFormed) (hsource : source.WellFormed) :
    m.copyFrom source = source := by
  rw [copyFrom, clear_eq hm, new_mergeFrom hsource]

/-! ## Writing -/

/-- The fields of a message, in the order in which they are written. -/
def toFields (m : SmartTest) : List UnknownField :=
  (if m.hasName then [.lengthDelimited kNameFieldNumber m.name_] else []) ++
  (if m.hasAge then [.varint kAgeFieldNumber m.age_.toInt64.toUInt64] else []) ++
  (if m.hasEmail then [.lengthDelimited kEmailFieldNumber m.email_] else []) ++
  m.unknown_fields_

theorem serialize_append (fs gs : List UnknownField) :
    serializeUnknownFieldsToArray (fs ++ gs) =
      serializeUnknownFieldsToArray fs ++ serializeUnknownFieldsToArray gs := by
  rw [serialize_eq_flatMap, serialize_eq_flatMap, serialize_eq_flatMap, List.flatMap_append]

theorem serialize_singleton (f : UnknownField) :
    serializeUnknownFieldsToArray [f] = f.serialize := by
  rw [serialize_eq_flatMap, List.flatMap_singleton]

/-- The message is written field by field. -/
theorem serializeWithCachedSizesToArray_eq (m : SmartTest) :
    m.serializeWithCachedSizesToArray = serializeUnknownFieldsToArray m.toFields := by
  have hage : writeVarint32SignExtendedToArray m.age_ =
      writeVarint64ToArray m.age_.toInt64.toUInt64 := by
    rw [writeVarint32SignExtendedToArray_eq, writeVarint64ToArray_eq]
  rw [serializeWithCachedSizesToArray, toFields, serialize_append, serialize_append,
    serialize_append, hage]
  cases m.hasName <;> cases m.hasAge <;> cases m.hasEmail <;>
    simp [serialize_singleton, UnknownField.serialize, serializeUnknownFieldsToArray]

theorem length_writeTag {number : UInt32} {type : WireType}
    (h : (makeTag number type).toNat < 128) : (writeTag number type).length = 1 := by
  rw [writeTag, writeTagToArray_eq, Varint.encode_of_lt h]
  rfl

/-- **`ByteSize`** is the number of bytes that are written. -/
theorem byteSize_eq (m : SmartTest) : m.byteSize = m.serializeWithCachedSizesToArray.length := by
  have hname : (writeTag kNameFieldNumber .lengthDelimited).length = 1 :=
    length_writeTag (by decide)
  have hage : (writeTag kAgeFieldNumber .varint).length = 1 := length_writeTag (by decide)
  have hemail : (writeTag kEmailFieldNumber .lengthDelimited).length = 1 :=
    length_writeTag (by decide)
  rw [byteSize, serializeWithCachedSizesToArray, computeUnknownFieldsSize_eq, stringSize,
    stringSize, stringSize_eq, stringSize_eq, varintSize32SignExtended_eq]
  simp only [List.length_append, apply_ite List.length, List.length_nil, hname, hage, hemail]
  by_cases hmask : m.has_bits_ &&& 0xFF = 0
  · simp [hmask, hasName_of_mask hmask rfl, hasAge_of_mask hmask rfl, hasEmail_of_mask hmask rfl]
  · simp only [hmask, ne_eq, not_false_eq_true, if_true]

/-- **`SerializeToString`** writes an initialized message, and never finds its size wrong. -/
theorem serializeToString_eq (hinit : m.isInitialized = true)
    (hsize : m.serializeWithCachedSizesToArray.length < 2 ^ 31) :
    m.serializeToString = .ok m.serializeWithCachedSizesToArray := by
  rw [serializeToString, hinit, byteSize_eq, if_pos hsize]
  simp only [Bool.not_true, Bool.false_eq_true, if_false, ne_eq, not_true_eq_false]

/-! ## Reading back -/

theorem WellFormed.valid_toFields (h : m.WellFormed) :
    ∀ f ∈ m.toFields, Valid defaultRecursionLimit f := by
  intro f hf
  simp only [toFields, List.mem_append, or_assoc] at hf
  rcases hf with hf | hf | hf | hf
  · obtain ⟨-, hf⟩ := List.mem_ite_nil_right.mp hf
    obtain rfl := List.mem_singleton.mp hf
    exact .lengthDelimited (by decide) h.name_lt
  · obtain ⟨-, hf⟩ := List.mem_ite_nil_right.mp hf
    obtain rfl := List.mem_singleton.mp hf
    exact .varint (by decide) (by decide)
  · obtain ⟨-, hf⟩ := List.mem_ite_nil_right.mp hf
    obtain rfl := List.mem_singleton.mp hf
    exact .lengthDelimited (by decide) h.email_lt
  · exact (h.unknown f hf).1

theorem addField_of_unknown {f : UnknownField} (h : isKnown f = false) :
    m.addField f = m.addUnknown f := by
  cases f with
  | varint number value => exact if_neg (of_decide_eq_false h)
  | lengthDelimited number value =>
    obtain ⟨hname, hemail⟩ := not_or.mp (of_decide_eq_false h)
    rw [addField, if_neg hname, if_neg hemail]
  | fixed32 | fixed64 | group => rfl

theorem addFields_of_unknown {fs : List UnknownField} (h : ∀ f ∈ fs, isKnown f = false) :
    m.addFields fs = m.addUnknowns fs := by
  induction fs generalizing m with
  | nil => exact SmartTest.ext rfl rfl rfl rfl (List.append_nil _).symm
  | cons f fs ih =>
    rw [addFields_cons, addField_of_unknown (h f List.mem_cons_self),
      ih fun g hg => h g (List.mem_cons_of_mem f hg)]
    exact SmartTest.ext rfl rfl rfl rfl (List.append_assoc _ [f] fs)

/-- The `int32` that is read is the one that was written. -/
theorem toInt32_age (age : Int32) : age.toInt64.toUInt64.toUInt32.toInt32 = age := by
  have hlow : age.toInt64.toUInt64.toUInt32 = age.toUInt32 := by
    rw [← toUInt32_toInt64, UInt32.ofNat_uInt64ToNat]
  rw [hlow, Int32.toInt32_toUInt32]

/-- **The fields of a message make the message.** -/
theorem addFields_toFields (h : m.WellFormed) : new.addFields m.toFields = m := by
  have hname (a : SmartTest) : a.addFields
      (if m.hasName then [.lengthDelimited kNameFieldNumber m.name_] else []) =
        if m.hasName then a.setName m.name_ else a := by
    cases m.hasName <;> rfl
  have hage (a : SmartTest) : a.addFields
      (if m.hasAge then [.varint kAgeFieldNumber m.age_.toInt64.toUInt64] else []) =
        if m.hasAge then a.setAge m.age_ else a := by
    cases m.hasAge with
    | false => rfl
    | true => exact congrArg a.setAge (toInt32_age m.age_)
  have hemail (a : SmartTest) : a.addFields
      (if m.hasEmail then [.lengthDelimited kEmailFieldNumber m.email_] else []) =
        if m.hasEmail then a.setEmail m.email_ else a := by
    cases m.hasEmail <;> rfl
  have hmerge := new_mergeFrom h
  rw [mergeFrom_eq] at hmerge
  rw [toFields, addFields_append, addFields_append, addFields_append,
    addFields_of_unknown fun f hf => (h.unknown f hf).2, hname, hage, hemail]
  exact hmerge

/-- **Round trip.** What is written is read back, when the message is initialized and not too long,
or nothing but an `email` is at its end. -/
theorem parse_serialize (h : m.WellFormed) :
    parse m.serializeWithCachedSizesToArray =
      if m.isInitialized ∧ (m.serializeWithCachedSizesToArray.length ≤ kDefaultTotalBytesLimit ∨
          endsWithEmail m.toFields) then some m
      else none := by
  have hfields : fields m.serializeWithCachedSizesToArray = some m.toFields := by
    rw [serializeWithCachedSizesToArray_eq]
    exact fields_serialize h.valid_toFields
  rw [parse, hfields, Option.bind_some, addFields_toFields h]

/-! ## The functions of `MessageLite` -/

/-- **`ParseFromString`** never faults, whatever the bytes are and whatever was in the message
before. It gives the message that is made of the fields in their order, and fails when the bytes
are no fields, a required one is missing, or there are more than `64 << 20` bytes that do not end
with the `email`. -/
theorem parseFromString_iff {object : SmartTest} (hobject : object.WellFormed) {data : List UInt8}
    (hdata : data.length < 2 ^ 31) :
    ∃ r, object.parseFromString data = .ok r ∧ (∀ m, r = some m → m.WellFormed) ∧
      ∀ m, r = some m ↔ ∃ fs, fields data = some fs ∧ m = new.addFields fs ∧
        m.isInitialized = true ∧
        (data.length ≤ kDefaultTotalBytesLimit ∨ endsWithEmail fs = true) := by
  refine ⟨parse data, parseFromString_eq hdata (clear_eq hobject), fun m => wellFormed_of_parse, ?_⟩
  intro m
  constructor
  · exact parse_eq_some
  · rintro ⟨fs, hfs, rfl, hinit, hend⟩
    rw [parse, hfs, Option.bind_some, if_pos ⟨hinit, hend⟩]

/-- A name, an age that is said twice, and a field of a later version. -/
theorem parseFromString_iff_twice :
    ∃ m, new.parseFromString [10, 1, 97, 16, 1, 16, 2, 0x20, 7] = .ok (some m) ∧ m.WellFormed ∧
      m.age_ = 2 := by
  obtain ⟨r, hparse, hwell, hr⟩ := parseFromString_iff wellFormed_new
    (show [10, 1, 97, 16, 1, 16, 2, 0x20, 7].length < 2 ^ 31 by decide)
  have hfields : fields [10, 1, 97, 16, 1, 16, 2, 0x20, 7] =
      some [.lengthDelimited 1 [97], .varint 2 1, .varint 2 2, .varint 4 7] := rfl
  have hsome := (hr _).mpr ⟨_, hfields, rfl, by decide, Or.inl (by decide)⟩
  rw [hsome] at hparse
  exact ⟨_, hparse, hwell _ hsome, rfl⟩

/-- The fields end with the `email` when there is one and there are no unknown ones. -/
theorem endsWithEmail_toFields (h : m.WellFormed) :
    endsWithEmail m.toFields = true ↔ m.hasEmail = true ∧ m.unknown_fields_ = [] := by
  rw [toFields]
  rcases List.eq_nil_or_concat' m.unknown_fields_ with hnil | ⟨gs, g, hlast⟩
  · rw [hnil, and_iff_left rfl, List.append_nil]
    cases m.hasEmail with
    | false =>
      cases m.hasName <;> cases m.hasAge <;> simp [endsWithEmail, isEmail, kNameFieldNumber,
        kEmailFieldNumber]
    | true => simp [endsWithEmail, isEmail]
  · have hmem : g ∈ m.unknown_fields_ := by
      rw [hlast]
      exact List.mem_append_right _ (List.mem_singleton_self g)
    have hunknown := (h.unknown g hmem).2
    have hg : isEmail g = false := by
      cases g with
      | lengthDelimited number value =>
        simp only [isKnown, decide_eq_false_iff_not, not_or] at hunknown
        exact decide_eq_false hunknown.2
      | _ => rfl
    rw [hlast]
    simp [endsWithEmail, hg]

/-- **Round trip.** `ParseFromString` reads what `SerializeToString` has written, into any message,
exactly when the message is initialized, its size is an `int`, and it is small enough or ends with
the `email`. -/
theorem roundTrip_iff {object : SmartTest} (hobject : object.WellFormed) (h : m.WellFormed) :
    (∃ output, m.serializeToString = .ok output ∧
        object.parseFromString output = .ok (some m)) ↔
      m.isInitialized = true ∧ m.byteSize < 2 ^ 31 ∧
        (m.byteSize ≤ kDefaultTotalBytesLimit ∨ m.hasEmail = true ∧ m.unknown_fields_ = []) := by
  rw [byteSize_eq, ← endsWithEmail_toFields h]
  constructor
  · rintro ⟨output, hwrite, hread⟩
    have hinit : m.isInitialized = true := by
      by_contra hnot
      rw [serializeToString, Bool.eq_false_of_not_eq_true hnot] at hwrite
      cases hwrite
    have hsize : m.serializeWithCachedSizesToArray.length < 2 ^ 31 := by
      by_contra hnot
      rw [serializeToString, hinit, byteSize_eq, if_neg hnot] at hwrite
      cases hwrite
    obtain rfl := Except.ok.inj ((serializeToString_eq hinit hsize).symm.trans hwrite)
    rw [parseFromString_eq hsize (clear_eq hobject), parse_serialize h] at hread
    refine ⟨hinit, hsize, ?_⟩
    by_contra hnot
    rw [if_neg (fun hboth => hnot hboth.2)] at hread
    cases hread
  · rintro ⟨hinit, hsize, hend⟩
    refine ⟨_, serializeToString_eq hinit hsize, ?_⟩
    rw [parseFromString_eq hsize (clear_eq hobject), parse_serialize h, if_pos ⟨hinit, hend⟩]

theorem roundTrip_iff_negative :
    ∃ output, ((new.setName [97]).setAge (-1)).serializeToString = .ok output ∧
      new.parseFromString output = .ok (some ((new.setName [97]).setAge (-1))) :=
  (roundTrip_iff wellFormed_new ((wellFormed_new.setName (by decide)).setAge (-1))).mpr
    ⟨by decide, by decide, Or.inl (by decide)⟩

/-- **One behind the other.** To parse two messages that were written one behind the other is to
merge the second into the first. -/
theorem parseFromString_append {object : SmartTest} (hobject : object.WellFormed)
    {a b : List UInt8} {x y : SmartTest} (ha : new.parseFromString a = .ok (some x))
    (hb : new.parseFromString b = .ok (some y))
    (hlen : (a ++ b).length ≤ kDefaultTotalBytesLimit) :
    object.parseFromString (a ++ b) = .ok (some (x.mergeFrom y)) := by
  have hlimit : kDefaultTotalBytesLimit < 2 ^ 31 := by decide
  rw [List.length_append] at hlen
  rw [parseFromString_eq (by omega) rfl] at ha hb
  rw [parseFromString_eq (by rw [List.length_append]; omega) (clear_eq hobject),
    parse_append (Except.ok.inj ha) (Except.ok.inj hb) (by rw [List.length_append]; omega)]

/-- A message and, behind it, another one with the same age. -/
theorem parseFromString_append_later :
    new.parseFromString ([10, 1, 97, 16, 1] ++ [10, 1, 98, 16, 2]) = .ok
      (some (((new.setName [97]).setAge 1).mergeFrom ((new.setName [98]).setAge 2))) :=
  parseFromString_append wellFormed_new rfl rfl (by decide)

theorem addFields_mergeFrom (hm : m.WellFormed) (hsource : source.WellFormed)
    {fs : List UnknownField} (hfs : ∀ f ∈ fs, Valid defaultRecursionLimit f) :
    (m.mergeFrom source).addFields fs = m.mergeFrom (source.addFields fs) := by
  induction fs generalizing source with
  | nil => rfl
  | cons f fs ih =>
    have hf := hfs f List.mem_cons_self
    rw [addFields_cons, addFields_cons, addField_mergeFrom hm hsource hf]
    exact ih (hsource.addField hf) fun g hg => hfs g (List.mem_cons_of_mem _ hg)

/-- **Merging** is associative, and nothing is merged with a new message. `CopyFrom` is a copy, and
`Clear` leaves a new message, whatever was there before. -/
theorem merge_laws {a b c : SmartTest} (ha : a.WellFormed) (hb : b.WellFormed)
    (hc : c.WellFormed) :
    (a.mergeFrom b).WellFormed ∧
      (a.mergeFrom b).mergeFrom c = a.mergeFrom (b.mergeFrom c) ∧
      a.mergeFrom new = a ∧ new.mergeFrom a = a ∧ a.clear = new ∧ a.copyFrom b = b := by
  have hassoc : (a.mergeFrom b).mergeFrom c = a.mergeFrom (b.mergeFrom c) := by
    have hfields := hc.valid_toFields
    rw [← addFields_toFields hc, ← addFields_eq_mergeFrom (ha.mergeFrom hb) hfields,
      ← addFields_eq_mergeFrom hb hfields, addFields_mergeFrom ha hb hfields]
  have hnone : a.addFields [] = a.mergeFrom (new.addFields []) :=
    addFields_eq_mergeFrom ha (List.forall_mem_nil _)
  exact ⟨ha.mergeFrom hb, hassoc, hnone.symm, new_mergeFrom ha, clear_eq ha, copyFrom_eq ha hb⟩

theorem merge_laws_three :
    ((new.setName [97]).mergeFrom (new.setAge 3)).mergeFrom (new.setName [98]) =
      (new.setName [97]).mergeFrom ((new.setAge 3).mergeFrom (new.setName [98])) :=
  (merge_laws (wellFormed_new.setName (by decide)) (wellFormed_new.setAge 3)
    (wellFormed_new.setName (by decide))).2.1

/-! ## Numbers -/

/-- These bytes are as many as `size`, and `read` takes them for `value` and goes on behind them. -/
structure ReadBack {α : Type} (read : CodedInputStream → Exec (Option α × CodedInputStream))
    (bytes : List UInt8) (size : ℕ) (value : α) : Prop where
  size : bytes.length = size
  back : ∀ s rest, s.Flat → s.buffer_ = bytes ++ rest →
    read s = .ok (some value, { s with buffer_ := rest })

/-- `read` takes no fewer bytes for `value`. -/
def Shortest {α : Type} (read : CodedInputStream → Exec (Option α × CodedInputStream))
    (bytes : List UInt8) (value : α) : Prop :=
  ∀ s t, s.Flat → read s = .ok (some value, t) → bytes.length + t.buffer_.length ≤ s.buffer_.length

variable {α : Type} {read : CodedInputStream → Exec (Option α × CodedInputStream)} {value : α}
  {n : ℕ}

/-- A reader that makes its value of the number at the front. -/
theorem readBack_of_reads (of : ℕ → α)
    (hread : ∀ s, s.Flat → Reads s (s.front.map fun x => (of x.1, x.2)) (read s))
    (hn : n < 2 ^ 64) (hvalue : of n = value) :
    ReadBack read (Varint.encode n) (Varint.encode n).length value where
  size := rfl
  back s rest hs hbuf := by
    have hfront : s.front = some (n, rest) := by
      rw [CodedInputStream.front, hbuf, kMaxVarintBytes]
      exact Varint.decode_encode (by omega) rest
    obtain ⟨buffer_, hok, hrest⟩ := hread s hs
    rw [hfront, Option.map_some, hvalue] at hok hrest
    rw [hok, hrest _ rfl]
    rfl

/-- The number at the front has no fewer bytes than the smallest one with this value. -/
theorem shortest_of_reads (of : ℕ → α)
    (hread : ∀ s, s.Flat → Reads s (s.front.map fun x => (of x.1, x.2)) (read s))
    (hleast : ∀ m, of m = value → n ≤ m) : Shortest read (Varint.encode n) value := by
  intro s t hs hok
  obtain ⟨buffer_, hok', hrest⟩ := hread s hs
  obtain ⟨hvalue, rfl⟩ := Prod.mk.inj (Except.ok.inj (hok.symm.trans hok'))
  obtain ⟨x, hx, hnum⟩ := Option.map_eq_some_iff.mp hvalue.symm
  obtain ⟨m, hm, rfl⟩ := Option.map_eq_some_iff.mp hx
  obtain rfl : buffer_ = m.2 := hrest (of m.1, m.2) hx
  have hlen := Varint.length_encode_of_decode hm
  have hle := Varint.length_encode_mono (hleast m.1 hnum)
  dsimp only
  omega

theorem readInt32_reads (s : CodedInputStream) (hs : s.Flat) :
    Reads s (s.front.map fun x => ((UInt32.ofNat x.1).toInt32, x.2)) (readInt32 s) := by
  obtain ⟨buffer_, hok, hrest⟩ := CodedInputStream.readVarint32_spec hs
  refine ⟨buffer_, ?_, ?_⟩
  · rw [readInt32, hok]
    simp only [bind, Except.bind, pure, Except.pure, Option.map_map]
    rfl
  · intro x hx
    obtain ⟨y, hy, rfl⟩ := Option.map_eq_some_iff.mp hx
    exact hrest (UInt32.ofNat y.1, y.2) (by rw [hy]; rfl)

theorem varint32_shortest (value : UInt32) :
    ReadBack CodedInputStream.readVarint32 (writeVarint32ToArray value) (varintSize32 value) value ∧
      Shortest CodedInputStream.readVarint32 (writeVarint32ToArray value) value := by
  have hlt := value.toNat_lt
  rw [varintSize32_eq, writeVarint32ToArray_eq]
  refine ⟨readBack_of_reads UInt32.ofNat (fun s hs => CodedInputStream.readVarint32_spec hs)
    (by omega) UInt32.ofNat_toNat,
    shortest_of_reads UInt32.ofNat (fun s hs => CodedInputStream.readVarint32_spec hs) ?_⟩
  rintro m rfl
  rw [UInt32.toNat_ofNat']
  exact Nat.mod_le _ _

theorem varint64_shortest (value : UInt64) :
    ReadBack CodedInputStream.readVarint64 (writeVarint64ToArray value) (varintSize64 value) value ∧
      Shortest CodedInputStream.readVarint64 (writeVarint64ToArray value) value := by
  rw [varintSize64_eq, writeVarint64ToArray_eq]
  refine ⟨readBack_of_reads UInt64.ofNat (fun s hs => CodedInputStream.readVarint64_spec hs)
    value.toNat_lt UInt64.ofNat_toNat,
    shortest_of_reads UInt64.ofNat (fun s hs => CodedInputStream.readVarint64_spec hs) ?_⟩
  rintro m rfl
  rw [UInt64.toNat_ofNat']
  exact Nat.mod_le _ _

/-- The lower half of a negative number is read as the number, and has five bytes. -/
theorem not_shortest_of_neg {value : Int32} (hneg : value < 0) :
    ¬ Shortest readInt32 (writeVarint32SignExtendedToArray value) value := by
  intro hshort
  have hhalf := readBack_of_reads (fun n => (UInt32.ofNat n).toInt32) readInt32_reads
    (value.toUInt32.toNat_lt.trans (by decide)) (show _ = value by
      rw [UInt32.ofNat_toNat, Int32.toInt32_toUInt32])
  have hle := hshort (.ofArray (Varint.encode value.toUInt32.toNat)) _ rfl
    (hhalf.back _ [] rfl (List.append_nil _).symm)
  have hfive : (Varint.encode value.toUInt32.toNat).length ≤ 4 + 1 :=
    Varint.length_encode_le_iff.mpr (value.toUInt32.toNat_lt.trans (by decide))
  have hten := toNat_of_neg (toInt_neg hneg)
  have hlt := value.toInt64.toUInt64.toNat_lt
  rw [writeVarint32SignExtendedToArray_eq, Varint.length_encode (k := 9) (by omega) (by omega)]
    at hle
  have hbuffer : (CodedInputStream.ofArray (Varint.encode value.toUInt32.toNat)).buffer_ =
    Varint.encode value.toUInt32.toNat := rfl
  rw [hbuffer] at hle
  omega

theorem shortest_of_nonneg {value : Int32} (hpos : 0 ≤ value) :
    Shortest readInt32 (writeVarint32SignExtendedToArray value) value := by
  rw [writeVarint32SignExtendedToArray_eq, toNat_toUInt64_of_le hpos]
  apply shortest_of_reads (fun n => (UInt32.ofNat n).toInt32) readInt32_reads
  rintro m rfl
  rw [UInt32.toUInt32_toInt32, UInt32.toNat_ofNat']
  exact Nat.mod_le _ _

theorem signExtended_readBack (value : Int32) :
    ReadBack readInt32 (writeVarint32SignExtendedToArray value) (varintSize32SignExtended value)
      value := by
  have hof : (UInt32.ofNat value.toInt64.toUInt64.toNat).toInt32 = value := by
    rw [toUInt32_toInt64, Int32.toInt32_toUInt32]
  rw [varintSize32SignExtended_eq, writeVarint32SignExtendedToArray_eq]
  exact readBack_of_reads (fun n => (UInt32.ofNat n).toInt32) readInt32_reads (UInt64.toNat_lt _)
    hof

/-- **Numbers are written in the shortest way** in which they are read back, and their sizes are
known before. A negative `int32` is written in ten bytes, and could have been in five. -/
theorem numbers_shortest :
    (∀ value : UInt32, ReadBack CodedInputStream.readVarint32 (writeVarint32ToArray value)
        (varintSize32 value) value ∧
      Shortest CodedInputStream.readVarint32 (writeVarint32ToArray value) value) ∧
    (∀ value : UInt64, ReadBack CodedInputStream.readVarint64 (writeVarint64ToArray value)
        (varintSize64 value) value ∧
      Shortest CodedInputStream.readVarint64 (writeVarint64ToArray value) value) ∧
    ∀ value : Int32, ReadBack readInt32 (writeVarint32SignExtendedToArray value)
        (varintSize32SignExtended value) value ∧
      (Shortest readInt32 (writeVarint32SignExtendedToArray value) value ↔ 0 ≤ value) := by
  refine ⟨varint32_shortest, varint64_shortest, ?_⟩
  intro value
  refine ⟨signExtended_readBack value, ?_, shortest_of_nonneg⟩
  intro hshort
  by_contra hneg
  exact not_shortest_of_neg (Int32.not_le.mp hneg) hshort

end SmartTest

end SmartServer
