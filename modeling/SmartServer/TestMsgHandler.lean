import SmartServer.SmartTestRoundTrip
import SmartServer.Delivery

/-!
# `HandleTestMsg` and `smart::test`

`HandleTestMsg` reads a message out of the string it gets, and sends it back.

**Lengths** (`rewritten_of_parse`). A reply is at most five bytes longer than its request: the age
may have come in five bytes, and a negative one is written in ten.

**Echo** (`comes_back_iff`). The string ends at the first zero byte. So a request that was written
by `smart::test` comes back as it was exactly when it can be read and has no zero byte, that is,
when the age is not `0`, no string is empty, and there is no zero byte in one
(`zero_notMem_serialize_iff`).

**Two levels** (`handleSmartTest_eq`, `runSmartTest_iff`). With the functions of `smart.msg.pb.cc`
the handler does what `NetWorkSystem.handleTestMsg` does with a `Protobuf` that reads and writes in
one step, for every message that is five bytes or more below the limit of an `int`. So do whole
runs.

**Theorem (`runSmartTest_ok`).** Then no event makes the program fault, whatever is in the messages.
-/

namespace SmartServer

open CodedOutputStream

namespace SmartTest

variable {m : SmartTest} {f : UnknownField} {fs : List UnknownField}

/-! ## Lengths -/

/-- How many bytes are written for the fields but the age. -/
def otherLength (m : SmartTest) : ℕ :=
  (if m.hasName then (UnknownField.lengthDelimited kNameFieldNumber m.name_).serialize.length
    else 0) +
  (if m.hasEmail then (UnknownField.lengthDelimited kEmailFieldNumber m.email_).serialize.length
    else 0) +
  (serializeUnknownFieldsToArray m.unknown_fields_).length

/-- How many bytes are written for the age. -/
def ageLength (m : SmartTest) : ℕ :=
  if m.hasAge then (UnknownField.varint kAgeFieldNumber m.age_.toInt64.toUInt64).serialize.length
  else 0

theorem length_serialize (m : SmartTest) :
    m.serializeWithCachedSizesToArray.length = m.otherLength + m.ageLength := by
  rw [serializeWithCachedSizesToArray_eq, toFields, serialize_append, serialize_append,
    serialize_append, otherLength, ageLength]
  cases m.hasName <;> cases m.hasAge <;> cases m.hasEmail <;>
    simp only [if_true, if_false, Bool.false_eq_true, serialize_singleton,
      serializeUnknownFieldsToArray, List.nil_append, List.length_append, List.length_nil] <;>
    omega

/-- The age that is read from a number has at most five bytes more. -/
theorem length_age_le (value : UInt64) :
    (Varint.encode value.toUInt32.toInt32.toInt64.toUInt64.toNat).length ≤
      (Varint.encode value.toNat).length + 5 := by
  have hlow : value.toUInt32.toNat ≤ value.toNat := by
    rw [UInt64.toNat_toUInt32]
    exact Nat.mod_le _ _
  by_cases hneg : value.toUInt32.toInt32 < 0
  · -- ten bytes are written, and five were read at least
    have hten : (Varint.encode value.toUInt32.toInt32.toInt64.toUInt64.toNat).length ≤ 9 + 1 := by
      have hlt := value.toUInt32.toInt32.toInt64.toUInt64.toNat_lt
      rw [Varint.length_encode_le_iff]
      omega
    have hfive : ¬ (Varint.encode value.toNat).length ≤ 3 + 1 := by
      have hint : value.toUInt32.toInt32.toInt = if 2 * value.toUInt32.toNat < 2 ^ 32 then
          (value.toUInt32.toNat : ℤ) else value.toUInt32.toNat - (2 ^ 32 : ℕ) :=
        BitVec.toInt_eq_toNat_cond _
      have hlt := Int32.lt_iff_toInt_lt.mp hneg
      rw [Int32.toInt_zero] at hlt
      rw [Varint.length_encode_le_iff]
      split at hint <;> omega
    omega
  · rw [toNat_toUInt64_of_le (Int32.not_lt.mp hneg), UInt32.toUInt32_toInt32]
    have hle := Varint.length_encode_mono hlow
    omega

/-- A field adds no more bytes than it has, when five bytes of the age are not counted. -/
theorem length_addField (m : SmartTest) (f : UnknownField) :
    (m.addField f).otherLength + ((m.addField f).ageLength - 5) ≤
      m.otherLength + (m.ageLength - 5) + f.serialize.length := by
  have hunknown (g : UnknownField) : (m.addUnknown g).otherLength + ((m.addUnknown g).ageLength - 5)
      = m.otherLength + (m.ageLength - 5) + g.serialize.length := by
    have hage : (m.addUnknown g).ageLength = m.ageLength := rfl
    have hother : (m.addUnknown g).otherLength = m.otherLength + g.serialize.length := by
      rw [addUnknown, otherLength, serialize_append, serialize_singleton, List.length_append,
        ← Nat.add_assoc]
      rfl
    rw [hage, hother]
    omega
  cases f with
  | varint number value =>
    rw [addField]
    split
    · rename_i hnumber
      subst hnumber
      have hle := length_age_le value
      have hother : (m.setAge value.toUInt32.toInt32).otherLength = m.otherLength := by
        rw [otherLength, hasName_setAge, hasEmail_setAge]
        rfl
      rw [hother, ageLength, hasAge_setAge, if_pos rfl, UnknownField.serialize,
        UnknownField.serialize, writeVarint64ToArray_eq, writeVarint64ToArray_eq,
        List.length_append, List.length_append]
      have hage : (m.setAge value.toUInt32.toInt32).age_ = value.toUInt32.toInt32 := rfl
      rw [hage]
      omega
    · exact (hunknown _).le
  | lengthDelimited number value =>
    rw [addField]
    split
    · rename_i hnumber
      subst hnumber
      have hage : (m.setName value).ageLength = m.ageLength := by
        rw [ageLength, hasAge_setName]
        rfl
      have hother : (m.setName value).otherLength ≤ m.otherLength +
          (UnknownField.lengthDelimited kNameFieldNumber value).serialize.length := by
        rw [otherLength, otherLength, hasName_setName, hasEmail_setName, if_pos rfl]
        simp only [setName]
        omega
      omega
    · split
      · rename_i hnumber
        subst hnumber
        have hage : (m.setEmail value).ageLength = m.ageLength := by
          rw [ageLength, hasAge_setEmail]
          rfl
        have hother : (m.setEmail value).otherLength ≤ m.otherLength +
            (UnknownField.lengthDelimited kEmailFieldNumber value).serialize.length := by
          rw [otherLength, otherLength, hasName_setEmail, hasEmail_setEmail, if_pos rfl]
          simp only [setEmail]
          omega
        omega
      · exact (hunknown _).le
  | fixed32 | fixed64 | group => exact (hunknown _).le

theorem length_addFields (m : SmartTest) (fs : List UnknownField) :
    (m.addFields fs).otherLength + ((m.addFields fs).ageLength - 5) ≤
      m.otherLength + (m.ageLength - 5) + (serializeUnknownFieldsToArray fs).length := by
  induction fs generalizing m with
  | nil => exact le_rfl
  | cons f fs ih =>
    have hfirst := length_addField m f
    have hrest := ih (m.addField f)
    rw [addFields_cons, serializeUnknownFieldsToArray, List.length_append]
    omega

/-- **What is written is at most five bytes longer than what was read.** -/
theorem length_serialize_of_parse {data : List UInt8} (h : parse data = some m) :
    m.serializeWithCachedSizesToArray.length ≤ data.length + 5 := by
  obtain ⟨fs, hfs, rfl, -⟩ := parse_eq_some h
  have hle := fields_length hfs
  have hsum := length_addFields new fs
  have hnone : new.otherLength + (new.ageLength - 5) = 0 := rfl
  rw [length_serialize]
  omega

/-- **What was read is written** in at most five bytes more, and that is read as the same message
again. -/
theorem rewritten_of_parse {object : SmartTest} (hobject : object.WellFormed) {data : List UInt8}
    (hdata : data.length + 5 < 2 ^ 31) (hparse : object.parseFromString data = .ok (some m)) :
    ∃ output, m.serializeToString = .ok output ∧ output.length ≤ data.length + 5 ∧
      (output.length ≤ kDefaultTotalBytesLimit →
        ∀ object' : SmartTest, object'.WellFormed →
          object'.parseFromString output = .ok (some m)) := by
  rw [parseFromString_eq (by omega) (clear_eq hobject)] at hparse
  have hread := Except.ok.inj hparse
  obtain ⟨-, -, -, hinit, -⟩ := parse_eq_some hread
  have hle := length_serialize_of_parse hread
  refine ⟨_, serializeToString_eq hinit (by omega), hle, ?_⟩
  intro hlimit object' hobject'
  have hwell := wellFormed_of_parse hread
  rw [parseFromString_eq (by omega) (clear_eq hobject'), parse_serialize hwell,
    if_pos ⟨hinit, Or.inl hlimit⟩]

/-- A negative age that came in five bytes. -/
theorem rewritten_of_parse_negative :
    ∃ m output, new.parseFromString [10, 1, 97, 16, 0xFF, 0xFF, 0xFF, 0xFF, 0x0F] = .ok (some m) ∧
      m.serializeToString = .ok output ∧ output.length = 9 + 5 ∧
      new.parseFromString output = .ok (some m) := by
  obtain ⟨m, hm, hlen⟩ : ∃ m,
      new.parseFromString [10, 1, 97, 16, 0xFF, 0xFF, 0xFF, 0xFF, 0x0F] = .ok (some m) ∧
        ∀ output, m.serializeToString = .ok output → output.length = 14 := by
    refine ⟨_, rfl, ?_⟩
    intro output h
    obtain rfl := Except.ok.inj h
    rfl
  obtain ⟨output, hwrite, -, hread⟩ := rewritten_of_parse wellFormed_new (by decide) hm
  refine ⟨m, output, hm, hwrite, hlen output hwrite, hread ?_ new wellFormed_new⟩
  rw [hlen output hwrite]
  decide

/-! ## Zero bytes -/

/-- A request that the server sends back as it is: the age is not `0`, and the strings are neither
empty nor have a zero byte in them. -/
structure Echoable (m : SmartTest) : Prop where
  name : m.name_ ≠ [] ∧ 0 ∉ m.name_
  age : m.age_ ≠ 0
  email : m.hasEmail = true → m.email_ ≠ [] ∧ 0 ∉ m.email_
  unknown : ∀ f ∈ m.unknown_fields_, 0 ∉ f.serialize

theorem zero_notMem_writeTag {number : UInt32} (hnumber : number.toNat < 2 ^ 29)
    (hne : number ≠ 0) (type : WireType) : 0 ∉ writeTag number type := by
  rw [writeTag, writeTagToArray_eq, Varint.zero_mem_encode]
  intro hzero
  exact hne ((makeTag_eq_zero hnumber).mp (UInt32.toNat_inj.mp hzero)).1

theorem zero_mem_string {value : List UInt8} (h : value.length < 2 ^ 31) :
    0 ∈ writeStringWithSizeToArray value ↔ value = [] ∨ 0 ∈ value := by
  rw [writeStringWithSizeToArray_eq (by omega), List.mem_append, Varint.zero_mem_encode,
    List.length_eq_zero_iff]

theorem zero_mem_age (age : Int32) :
    0 ∈ writeVarint64ToArray age.toInt64.toUInt64 ↔ age = 0 := by
  rw [writeVarint64ToArray_eq, Varint.zero_mem_encode]
  constructor
  · intro hzero
    rw [← toInt32_age age, UInt64.toNat_inj.mp (hzero.trans UInt64.toNat_zero.symm)]
    rfl
  · rintro rfl
    rfl

theorem zero_notMem_serialize_iff (h : m.WellFormed) (hinit : m.isInitialized = true) :
    0 ∉ m.serializeWithCachedSizesToArray ↔ Echoable m := by
  obtain ⟨hname, hage⟩ := (isInitialized_iff h).mp hinit
  have htag (number : UInt32) (type : WireType) (hnumber : number.toNat < 2 ^ 29)
      (hne : number ≠ 0) : (0 ∈ writeTag number type) = False :=
    eq_false (zero_notMem_writeTag hnumber hne type)
  have hmem : 0 ∈ m.serializeWithCachedSizesToArray ↔
      (m.name_ = [] ∨ 0 ∈ m.name_) ∨ m.age_ = 0 ∨
        (m.hasEmail = true ∧ (m.email_ = [] ∨ 0 ∈ m.email_)) ∨
          ∃ f ∈ m.unknown_fields_, 0 ∈ f.serialize := by
    rw [serializeWithCachedSizesToArray_eq, toFields, hname, hage, if_pos rfl, if_pos rfl,
      serialize_append, serialize_append, serialize_append, serialize_singleton,
      serialize_singleton, serialize_eq_flatMap m.unknown_fields_]
    have hemail : 0 ∈ serializeUnknownFieldsToArray
        (if m.hasEmail then [.lengthDelimited kEmailFieldNumber m.email_] else []) ↔
          m.hasEmail = true ∧ (m.email_ = [] ∨ 0 ∈ m.email_) := by
      cases m.hasEmail with
      | false => simp [serializeUnknownFieldsToArray]
      | true =>
        rw [if_pos rfl, serialize_singleton, UnknownField.serialize, List.mem_append,
          htag _ _ (by decide) (by decide), false_or, zero_mem_string h.email_lt]
        simp
    simp only [List.mem_append, hemail, UnknownField.serialize, htag kNameFieldNumber _ (by decide)
      (by decide), htag kAgeFieldNumber _ (by decide) (by decide), false_or,
      zero_mem_string h.name_lt, zero_mem_age, List.mem_flatMap, or_assoc]
  rw [hmem]
  constructor
  · intro hnot
    simp only [not_or, not_and, not_exists] at hnot
    obtain ⟨hname, hage, hemail, hunknown⟩ := hnot
    exact ⟨hname, hage, hemail, hunknown⟩
  · rintro ⟨hname, hage, hemail, hunknown⟩
    simp only [not_or, not_and, not_exists]
    exact ⟨hname, hage, hemail, hunknown⟩

/-! ## What is left of a string -/

theorem length_toFields (m : SmartTest) :
    m.toFields.length = (if m.hasName then 1 else 0) + (if m.hasAge then 1 else 0) +
      (if m.hasEmail then 1 else 0) + m.unknown_fields_.length := by
  simp only [toFields, List.length_append, apply_ite List.length, List.length_singleton,
    List.length_nil]

/-- A field adds one field at most. -/
theorem length_toFields_addField (m : SmartTest) (f : UnknownField) :
    (m.addField f).toFields.length ≤ m.toFields.length + 1 := by
  have hunknown (g : UnknownField) :
      (m.addUnknown g).toFields.length = m.toFields.length + 1 := by
    rw [length_toFields, length_toFields]
    exact congrArg _ List.length_append
  have hname (value : List UInt8) : (m.setName value).toFields.length ≤ m.toFields.length + 1 := by
    have hrest : (m.setName value).unknown_fields_ = m.unknown_fields_ := rfl
    rw [length_toFields, length_toFields, hasName_setName, hasAge_setName, hasEmail_setName, hrest,
      if_pos rfl]
    omega
  have hage (value : Int32) : (m.setAge value).toFields.length ≤ m.toFields.length + 1 := by
    have hrest : (m.setAge value).unknown_fields_ = m.unknown_fields_ := rfl
    rw [length_toFields, length_toFields, hasName_setAge, hasAge_setAge, hasEmail_setAge, hrest,
      if_pos rfl]
    omega
  have hemail (value : List UInt8) :
      (m.setEmail value).toFields.length ≤ m.toFields.length + 1 := by
    have hrest : (m.setEmail value).unknown_fields_ = m.unknown_fields_ := rfl
    rw [length_toFields, length_toFields, hasName_setEmail, hasAge_setEmail, hasEmail_setEmail,
      hrest, if_pos rfl]
    omega
  cases f with
  | varint number value =>
    rw [addField]
    split
    · exact hage _
    · exact (hunknown _).le
  | lengthDelimited number value =>
    rw [addField]
    split
    · exact hname value
    · split
      · exact hemail value
      · exact (hunknown _).le
  | fixed32 | fixed64 | group => exact (hunknown _).le

theorem length_toFields_addFields (m : SmartTest) (fs : List UnknownField) :
    (m.addFields fs).toFields.length ≤ m.toFields.length + fs.length := by
  induction fs generalizing m with
  | nil => exact le_rfl
  | cons f fs ih =>
    have hfirst := length_toFields_addField m f
    have hrest := ih (m.addField f)
    rw [addFields_cons, List.length_cons]
    omega

theorem fields_serializeWithCachedSizes (h : m.WellFormed) :
    fields m.serializeWithCachedSizesToArray = some m.toFields := by
  rw [serializeWithCachedSizesToArray_eq]
  exact fields_serialize h.valid_toFields

/-- A message is known by its bytes. -/
theorem serialize_inj {m' : SmartTest} (h : m.WellFormed) (h' : m'.WellFormed)
    (heq : m'.serializeWithCachedSizesToArray = m.serializeWithCachedSizesToArray) : m' = m := by
  have hfields := fields_serializeWithCachedSizes h'
  rw [heq, fields_serializeWithCachedSizes h] at hfields
  rw [← addFields_toFields h', ← Option.some.inj hfields, addFields_toFields h]

/-- The message is not read from less than all its bytes. -/
theorem eq_of_parse_prefix (h : m.WellFormed) {front rest : List UInt8}
    (hbytes : m.serializeWithCachedSizesToArray = front ++ rest) (hparse : parse front = some m) :
    rest = [] := by
  obtain ⟨fs, hfs, hm, -⟩ := parse_eq_some hparse
  have hall := fields_serializeWithCachedSizes h
  rw [hbytes, fields_append hfs] at hall
  obtain ⟨gs, hgs, hsum⟩ := Option.map_eq_some_iff.mp hall
  have hle := length_toFields_addFields new fs
  have hnone : new.toFields.length = 0 := rfl
  rw [← hm, ← hsum, List.length_append, hnone] at hle
  obtain rfl : gs = [] := List.eq_nil_of_length_eq_zero (by omega)
  cases (Items.all_iff (field_nonEmpty _)).mp hgs
  rfl

/-! ## The reply -/

/-- The messages of `smart.msg.pb.cc`, each read and written in one step. -/
def protobuf : Protobuf where
  Test := SmartTest
  parseFromString := parse
  serializeToString := serializeWithCachedSizesToArray

/-- What the parser takes back of a message that was written. -/
def Accepted (m : SmartTest) : Prop :=
  m.isInitialized = true ∧ (m.serializeWithCachedSizesToArray.length ≤ kDefaultTotalBytesLimit ∨
    endsWithEmail m.toFields = true)

theorem parse_of_accepted (h : m.WellFormed) (hacc : Accepted m) :
    parse m.serializeWithCachedSizesToArray = some m := by
  rw [parse_serialize h]
  exact if_pos hacc

theorem accepted_of_parse (h : m.WellFormed)
    (hparse : parse m.serializeWithCachedSizesToArray = some m) : Accepted m := by
  rw [parse_serialize h] at hparse
  split at hparse
  · rename_i hacc
    exact hacc
  · cases hparse

/-- The bytes are all read, as a C string, when there is no zero byte in them. -/
theorem takeWhile_serialize (h : m.WellFormed) (hacc : Accepted m) (hecho : Echoable m) :
    m.serializeWithCachedSizesToArray.takeWhile (· ≠ 0) = m.serializeWithCachedSizesToArray := by
  rw [List.takeWhile_eq_self_iff]
  intro b hb
  exact decide_eq_true fun hzero => (zero_notMem_serialize_iff h hacc.1).mpr hecho (hzero ▸ hb)

/-- **Echo.** What is read of a message as a C string is written as that message again exactly when
the parser takes the message and there is no zero byte in it. -/
theorem comes_back_iff (h : m.WellFormed) :
    (∃ test, parse (m.serializeWithCachedSizesToArray.takeWhile (· ≠ 0)) = some test ∧
        test.serializeWithCachedSizesToArray = m.serializeWithCachedSizesToArray) ↔
      Accepted m ∧ Echoable m := by
  constructor
  · rintro ⟨test, hparse, hbytes⟩
    obtain rfl := serialize_inj h (wellFormed_of_parse hparse) hbytes
    have hsplit := (List.takeWhile_append_dropWhile (p := (· ≠ 0))
      (l := test.serializeWithCachedSizesToArray)).symm
    have hrest := eq_of_parse_prefix h hsplit hparse
    rw [hrest, List.append_nil] at hsplit
    -- the string was not cut off, so the whole message was read
    rw [← hsplit] at hparse
    have hacc := accepted_of_parse h hparse
    refine ⟨hacc, (zero_notMem_serialize_iff h hacc.1).mp ?_⟩
    intro hzero
    rw [hsplit] at hzero
    simpa using List.mem_takeWhile_imp hzero
  · rintro ⟨hacc, hecho⟩
    refine ⟨m, ?_, rfl⟩
    rw [takeWhile_serialize h hacc hecho, parse_of_accepted h hacc]

end SmartTest

/-! ## The handler and its model -/

namespace NetWorkSystem

variable (L : IntLayout)

/-- `HandleTestMsg`, with the functions of `smart.msg.pb.cc`. -/
def handleSmartTest (written : Bool) (msgNode : ConMsgNode) (s : NetWorkSystem) :
    Exec NetWorkSystem := do
  let msgId := msgNode.mMsgNode.getMsgId
  let buf ← msgNode.mMsgNode.getMsgData
  let m_smartTest ← SmartTest.new.parseFromString buf
  match m_smartTest with
  | none => pure s
  | some m_smartTest =>
    match s.getHandlerByConnId msgNode.mConnId with
    | none => pure s
    | some p => do
      let strTest ← m_smartTest.serializeToString
      let (_, tcpHandler) ← deref s.tcpHandlers (some p)
      let (b, bev) ← deref s.bufferevents tcpHandler.m_pBufferevent
      let output := TcpHandler.dealWriteEvent L written bev.output msgId strTest
      pure { s with bufferevents := s.bufferevents.set b { bev with output } }

/-- The functions that are registered, with those of `smart.msg.pb.cc`. -/
def callSmartTest (written : Bool) : MsgFunc → ConMsgNode → NetWorkSystem → Exec NetWorkSystem
  | .HandleTestMsg => handleSmartTest L written

/-- A step of worker `k`'s thread, as `threadStep` with these functions. -/
def threadStepSmartTest (t : MsgHandler) (s : NetWorkSystem) (k : Fin 2) (written : Bool) :
    Exec NetWorkSystem := do
  let (worker, out) ← (s.m_pNetWorkers k).threadStep mallocOk
  let s := { s with m_pNetWorkers := Function.update s.m_pNetWorkers k worker }
  match out with
  | none => pure s
  | some msgNode => do
    let s := { s with handled := Function.update s.handled k (s.handled k ++ [msgNode]) }
    let (s, _) ← t.handleMsg (callSmartTest L written) msgNode s
    pure s

/-- One event of the program with these functions. -/
def stepSmartTest (t : MsgHandler) (s : NetWorkSystem) : Event → Exec NetWorkSystem
  | .thread k written => s.threadStepSmartTest L t k written
  | e => step L SmartTest.protobuf t s e

/-- The messages are registered, and then the events happen, with these functions. -/
def runSmartTest (events : List Event) : Exec NetWorkSystem := do
  let t ← MsgHandler.started
  events.foldlM (stepSmartTest L t) initial

variable {L} {t : MsgHandler} {s : NetWorkSystem}

/-- **The handler** does what its model does, with every message that is not too close to the limit
of an `int`. -/
theorem handleSmartTest_eq {msgNode : ConMsgNode} (hcopy : msgNode.mMsgNode.IsCopy)
    (hlen : msgNode.mMsgNode.payload.length + 5 < 2 ^ 31) (written : Bool) (s : NetWorkSystem) :
    handleSmartTest L written msgNode s =
      handleTestMsg L SmartTest.protobuf written msgNode s := by
  have hdata := MsgNode.getMsgData_copied hcopy.copyable
  rw [hcopy.copied] at hdata
  have hle := (List.takeWhile_sublist (l := msgNode.mMsgNode.payload) (· ≠ 0)).length_le
  have hshort : (msgNode.mMsgNode.payload.takeWhile (· ≠ 0)).length < 2 ^ 31 := by omega
  have hparse := SmartTest.parseFromString_eq (m := .new) hshort rfl
  simp only [handleSmartTest, handleTestMsg, hdata, hparse, bind, Except.bind,
    SmartTest.protobuf]
  cases htest : SmartTest.parse (msgNode.mMsgNode.payload.takeWhile (· ≠ 0)) with
  | none => rfl
  | some m =>
    obtain ⟨-, -, -, hinit, -⟩ := SmartTest.parse_eq_some htest
    have hsize := SmartTest.length_serialize_of_parse htest
    have hser := SmartTest.serializeToString_eq hinit (show _ < 2 ^ 31 by omega)
    dsimp only
    rewrite [hser]
    rfl

theorem handleMsg_congr_call
    {call call' : MsgFunc → ConMsgNode → NetWorkSystem → Exec NetWorkSystem} {msgNode : ConMsgNode}
    (h : ∀ func s, call func msgNode s = call' func msgNode s) (s : NetWorkSystem) :
    t.handleMsg call msgNode s = t.handleMsg call' msgNode s := by
  simp only [MsgHandler.handleMsg, MsgHandler.recvWrapper, h]

theorem threadStepSmartTest_eq (hi : Inv L s) (hlen : s.Announces L fun x => x.2 + 5 < 2 ^ 31)
    (k : Fin 2) (written : Bool) :
    s.threadStepSmartTest L t k written = s.threadStep L SmartTest.protobuf t k written := by
  rw [threadStepSmartTest, threadStep]
  cases hthread : (s.m_pNetWorkers k).threadStep mallocOk with
  | error e => rfl
  | ok r =>
    obtain ⟨worker, out⟩ := r
    cases out with
    | none => rfl
    | some msgNode =>
      have hcopy : msgNode.mMsgNode.IsCopy :=
        ((hi.base.workers k).step hthread).2 msgNode (by simp)
      obtain ⟨-, -, p, bev, hbev, -, hdec⟩ := hi.popped hthread
      have hshort : msgNode.mMsgNode.payload.length + 5 < 2 ^ 31 :=
        hlen p bev hbev _ (mem_announcedLengths hdec)
      have hcall : ∀ func s, callSmartTest L written func msgNode s =
          call L SmartTest.protobuf written func msgNode s := by
        intro func s
        cases func
        exact handleSmartTest_eq hcopy hshort written s
      simp only [bind, Except.bind, handleMsg_congr_call hcall]

theorem stepSmartTest_eq (hi : Inv L s) (hlen : s.Announces L fun x => x.2 + 5 < 2 ^ 31)
    (e : Event) : stepSmartTest L t s e = step L SmartTest.protobuf t s e := by
  cases e with
  | thread k written => exact threadStepSmartTest_eq hi hlen k written
  | _ => rfl

/-! ## The program and its model -/

/-- What the functions of `smart.msg.pb.cc` give when they do not fault. -/
def executed : Protobuf where
  Test := SmartTest
  parseFromString data :=
    match SmartTest.new.parseFromString data with
    | .ok m => m
    | .error _ => none
  serializeToString m :=
    match m.serializeToString with
    | .ok output => output
    | .error _ => []

variable {s' : NetWorkSystem} {written : Bool} {msgNode : ConMsgNode}

theorem handleTestMsg_of_handleSmartTest (hrun : handleSmartTest L written msgNode s = .ok s') :
    handleTestMsg L executed written msgNode s = .ok s' := by
  obtain ⟨buf, hbuf, hrun⟩ := Run.of_bind hrun
  obtain ⟨test, htest, hrun⟩ := Run.of_bind hrun
  have hparse : executed.parseFromString buf = test := by
    simp only [executed, htest]
  simp only [handleTestMsg, hbuf, bind, Except.bind, hparse]
  cases test with
  | none => exact hrun
  | some m =>
    cases hget : s.getHandlerByConnId msgNode.mConnId with
    | none =>
      simp only [hget] at hrun
      exact hrun
    | some p =>
      simp only [hget] at hrun
      obtain ⟨strTest, hstr, hrun⟩ := Run.of_bind hrun
      have hserialize : executed.serializeToString m = strTest := by
        simp only [executed, hstr]
      simp only [hserialize]
      exact hrun

theorem threadStep_of_threadStepSmartTest {k : Fin 2}
    (hrun : s.threadStepSmartTest L t k written = .ok s') :
    s.threadStep L executed t k written = .ok s' := by
  obtain ⟨⟨worker, out⟩, hthread, hrun⟩ := Run.of_bind hrun
  simp only [threadStep, hthread, bind, Except.bind]
  cases out with
  | none => exact hrun
  | some msgNode =>
    obtain ⟨⟨s₁, res⟩, hhandle, hend⟩ := Run.of_bind hrun
    have hsame : ∀ {s s' res}, t.handleMsg (callSmartTest L written) msgNode s = .ok (s', res) →
        t.handleMsg (call L executed written) msgNode s = .ok (s', res) := by
      intro s s' res h
      simp only [MsgHandler.handleMsg, MsgHandler.recvWrapper] at h ⊢
      split at h
      · rename_i hmax
        rw [if_pos hmax]
        exact h
      · rename_i hmax
        rw [if_neg hmax]
        obtain ⟨wraper, hload, h⟩ := Run.of_bind h
        obtain ⟨s₂, hcall, h⟩ := Run.of_bind h
        have hcall' : call L executed written wraper.m_pFunc msgNode s = .ok s₂ := by
          cases hfunc : wraper.m_pFunc
          rw [hfunc] at hcall
          exact handleTestMsg_of_handleSmartTest hcall
        simp only [hload, hcall', bind, Except.bind]
        exact h
    simp only [hsame hhandle]
    exact hend

theorem step_of_stepSmartTest {e : Event} (hstep : stepSmartTest L t s e = .ok s') :
    step L executed t s e = .ok s' := by
  cases e with
  | thread k written => exact threadStep_of_threadStepSmartTest hstep
  | _ => exact hstep

/-- **The program and its model** do the same, when every message is five bytes or more below the
limit of an `int`. -/
theorem runSmartTest_iff {events : List Event} (hlen : s.Announces L fun x => x.2 + 5 < 2 ^ 31) :
    runSmartTest L events = .ok s ↔ run L SmartTest.protobuf events = .ok s := by
  constructor
  · intro hrun
    obtain ⟨t, ht, hfold⟩ := Run.of_bind hrun
    rw [run, ht]
    refine (Run.induction (fun es s => Inv L s ∧ (s.Announces L (fun x => x.2 + 5 < 2 ^ 31) →
      es.foldlM (step L SmartTest.protobuf t) initial = .ok s)) ?_ ?_ hfold).2 hlen
    · exact ⟨inv_initial L, fun _ => rfl⟩
    · intro es s e s' h hstep
      obtain ⟨hi, hsame⟩ := h
      have hexecuted := step_of_stepSmartTest hstep
      refine ⟨step_inv hi hexecuted, ?_⟩
      intro hlen'
      have hlen := hlen'.of_step hi hexecuted
      rw [Run.foldlM_concat, hsame hlen]
      exact (stepSmartTest_eq hi hlen e).symm.trans hstep
  · intro hrun
    obtain ⟨t, ht, hfold⟩ := Run.of_bind hrun
    rw [runSmartTest, ht]
    refine (Run.induction (fun es s => Inv L s ∧ (s.Announces L (fun x => x.2 + 5 < 2 ^ 31) →
      es.foldlM (stepSmartTest L t) initial = .ok s)) ?_ ?_ hfold).2 hlen
    · exact ⟨inv_initial L, fun _ => rfl⟩
    · intro es s e s' h hstep
      obtain ⟨hi, hsame⟩ := h
      refine ⟨step_inv hi hstep, ?_⟩
      intro hlen'
      have hlen := hlen'.of_step hi hstep
      rw [Run.foldlM_concat, hsame hlen]
      exact (stepSmartTest_eq hi hlen e).trans hstep

/-- **No fault.** With nothing but messages of the registered id, whose announced lengths are not
`0` and five bytes or more below the limit of an `int`, no event makes the program fault, whatever
is in the messages, and all that is written to a connection are its messages, parsed and written
again. -/
theorem runSmartTest_ok (L : IntLayout) (events : List Event) (s : NetWorkSystem)
    (hrun : runSmartTest L events = .ok s)
    (hmsgs : s.Announces L fun x => x.1 = TESTMSGSID ∧ 1 ≤ x.2 ∧ x.2 + 5 < 2 ^ 31) :
    (∀ e : Event, ∃ s', runSmartTest L (events ++ [e]) = .ok s') ∧
      ∀ b bev, s.bufferevents.get? b = some bev →
        Answered L SmartTest.protobuf (ofConn s.handled (connIdOf b)) bev.output := by
  have hshort : s.Announces L fun x => x.2 + 5 < 2 ^ 31 := hmsgs.mono fun _ h => h.2.2
  have hmodel := (runSmartTest_iff hshort).mp hrun
  have hi := run_inv hmodel
  refine ⟨?_, run_answered hmodel⟩
  intro e
  obtain ⟨t, ht, hfold⟩ := Run.of_bind hrun
  have hlast : runSmartTest L (events ++ [e]) = stepSmartTest L t s e := by
    rw [runSmartTest, ht]
    change (events ++ [e]).foldlM (stepSmartTest L t) initial = _
    rw [Run.foldlM_concat, hfold]
    rfl
  rw [hlast, stepSmartTest_eq hi hshort e]
  rcases e.network_or_thread with hnet | ⟨k, written, rfl⟩
  · have hlen : s.Announces L fun x => 1 ≤ x.2 ∧ x.2 < 2 ^ 31 :=
      hmsgs.mono fun _ h => ⟨h.2.1, by omega⟩
    obtain ⟨s', hs', -⟩ :=
      step_network_ok (P := SmartTest.protobuf) (t := t) hi (run_ready hmodel hlen) hlen hnet
    exact ⟨s', hs'⟩
  · obtain ⟨t', ht', hreg⟩ := MsgHandler.registered_started
    obtain rfl := Except.ok.inj (ht.symm.trans ht')
    exact threadStep_ok hreg hi (hmsgs.mono fun _ h => h.1) k written

/-- One byte that is no message. -/
def garbage : List Event :=
  [.accept 5, .arrive 0 [0, 0, 0, 0, 1, 0, 0, 0, 0xFF], .read 0, .thread 1 true, .thread 1 true,
    .thread 1 true]

theorem runSmartTest_ok_garbage :
    ∃ s, runSmartTest .little garbage = .ok s ∧
      ∀ e : Event, ∃ s', runSmartTest .little (garbage ++ [e]) = .ok s' := by
  obtain ⟨s, hs, hmsgs⟩ :
      ∃ s, garbage.foldlM (step .little SmartTest.protobuf .firstRegistered) initial = .ok s ∧
        ∀ c ∈ s.bufferevents.cells, ∀ bev ∈ c, ∀ x ∈ announcedLengths .little bev.arrived,
          x.1 = TESTMSGSID ∧ 1 ≤ x.2 ∧ x.2 + 5 < 2 ^ 31 := ⟨_, rfl, by decide⟩
  have hmsgs' : s.Announces .little fun x => x.1 = TESTMSGSID ∧ 1 ≤ x.2 ∧ x.2 + 5 < 2 ^ 31 :=
    fun b bev hb => Heap.forall_get? hmsgs hb
  have hrun : runSmartTest .little garbage = .ok s :=
    (runSmartTest_iff (hmsgs'.mono fun _ h => h.2.2)).mpr ((run_eq _ _ _).trans hs)
  exact ⟨s, hrun, (runSmartTest_ok .little garbage s hrun hmsgs').1⟩

end NetWorkSystem

end SmartServer
