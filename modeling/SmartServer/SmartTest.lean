import SmartServer.UnknownFields
import SmartServer.Lib.Loop

/-!
# `smart::test`

The message of `smart.msg.proto`, as `smart.msg.pb.cc` reads and writes it. `name` and `age` are
required, `email` is optional, and what is none of them goes to the unknown fields.

**Reading** (`mergePartialFromCodedStream_spec`, `parseFromString_eq`). Behind a field the parser
looks for the next one in the order of the file, and takes a shortcut when it is there; behind the
last one it looks for the end of the array. It reads what a plain loop over the fields of the array
reads, and reads in no case beyond it. One thing depends on the shortcut: an array that is longer
than the total limit is accepted when it ends with an `email`.
-/

namespace SmartServer

open CodedOutputStream

@[ext] structure SmartTest where
  has_bits_ : UInt32
  name_ : List UInt8
  age_ : Int32
  email_ : List UInt8
  unknown_fields_ : List UnknownField

namespace SmartTest

/-! ## Fields -/

def kNameFieldNumber : UInt32 := 1

def kAgeFieldNumber : UInt32 := 2

def kEmailFieldNumber : UInt32 := 3

/-- `test()`. -/
def new : SmartTest where
  has_bits_ := 0
  name_ := []
  age_ := 0
  email_ := []
  unknown_fields_ := []

def hasName (m : SmartTest) : Bool := m.has_bits_ &&& 1 ≠ 0

def hasAge (m : SmartTest) : Bool := m.has_bits_ &&& 2 ≠ 0

def hasEmail (m : SmartTest) : Bool := m.has_bits_ &&& 4 ≠ 0

/-- `set_name`, and what `mutable_name` and an assignment do. -/
def setName (m : SmartTest) (value : List UInt8) : SmartTest :=
  { m with has_bits_ := m.has_bits_ ||| 1, name_ := value }

def setAge (m : SmartTest) (value : Int32) : SmartTest :=
  { m with has_bits_ := m.has_bits_ ||| 2, age_ := value }

def setEmail (m : SmartTest) (value : List UInt8) : SmartTest :=
  { m with has_bits_ := m.has_bits_ ||| 4, email_ := value }

def addUnknown (m : SmartTest) (field : UnknownField) : SmartTest :=
  { m with unknown_fields_ := m.unknown_fields_ ++ [field] }

def isInitialized (m : SmartTest) : Bool := m.has_bits_ &&& 3 = 3

def clear (m : SmartTest) : SmartTest :=
  let cleared :=
    if m.has_bits_ &&& 7 ≠ 0 then
      { m with
        name_ := if m.hasName then [] else m.name_
        age_ := 0
        email_ := if m.hasEmail then [] else m.email_ }
    else m
  { cleared with has_bits_ := 0, unknown_fields_ := [] }

def mergeFrom (m source : SmartTest) : SmartTest :=
  let merged :=
    if source.has_bits_ &&& 0xFF ≠ 0 then
      let m := if source.hasName then m.setName source.name_ else m
      let m := if source.hasAge then m.setAge source.age_ else m
      if source.hasEmail then m.setEmail source.email_ else m
    else m
  { merged with unknown_fields_ := merged.unknown_fields_ ++ source.unknown_fields_ }

/-- `CopyFrom` of another message. -/
def copyFrom (m source : SmartTest) : SmartTest := m.clear.mergeFrom source

/-! ## Reading -/

/-- `ReadPrimitive` for `TYPE_INT32`. -/
def readInt32 (input : CodedInputStream) : Exec (Option Int32 × CodedInputStream) := do
  let (temp, input) ← input.readVarint32
  pure (temp.map UInt32.toInt32, input)

/-- A pass through the loop of `MergePartialFromCodedStream`: with the message and the stream to the
next one, or to the result, `none` for `failure`. -/
abbrev MergePass :=
  Exec (Pass (SmartTest × CodedInputStream) (Option SmartTest × CodedInputStream))

/-- From the label `parse_email` on. -/
def parseEmail (m : SmartTest) (input : CodedInputStream) : MergePass := do
  let (email, input) ← wireReadString input
  match email with
  | none => pure (.leave (none, input))
  | some email =>
    let m := m.setEmail email
    let (atEnd, input) := input.expectAtEnd
    if atEnd then pure (.leave (some m, input)) else pure (.again (m, input))

/-- From the label `parse_age` on. -/
def parseAge (m : SmartTest) (input : CodedInputStream) : MergePass := do
  let (age, input) ← readInt32 input
  match age with
  | none => pure (.leave (none, input))
  | some age =>
    let m := m.setAge age
    let (expected, input) := input.expectTag 26
    if expected then parseEmail m input else pure (.again (m, input))

/-- The case of `name`. -/
def parseName (m : SmartTest) (input : CodedInputStream) : MergePass := do
  let (name, input) ← wireReadString input
  match name with
  | none => pure (.leave (none, input))
  | some name =>
    let m := m.setName name
    let (expected, input) := input.expectTag 16
    if expected then parseAge m input else pure (.again (m, input))

/-- From the label `handle_unusual` on. -/
def handleUnusual (tag : UInt32) (m : SmartTest) (input : CodedInputStream) : MergePass :=
  if tag = 0 ∨ getTagWireType tag = some .endGroup then .ok (.leave (some m, input))
  else do
    let (field, input) ← skipField defaultRecursionLimit tag input
    match field with
    | none => pure (.leave (none, input))
    | some field => pure (.again (m.addUnknown field, input))

def mergePass (s : SmartTest × CodedInputStream) : MergePass := do
  let (m, input) := s
  let (tag, below, input) ← input.readTagWithCutoff 127
  if !below then handleUnusual tag m input
  else if getTagFieldNumber tag = 1 then
    if tag = 10 then parseName m input else handleUnusual tag m input
  else if getTagFieldNumber tag = 2 then
    if tag = 16 then parseAge m input else handleUnusual tag m input
  else if getTagFieldNumber tag = 3 then
    if tag = 26 then parseEmail m input else handleUnusual tag m input
  else handleUnusual tag m input

/-- The message, or `none` for `false`. Every pass but the last takes a byte. -/
def mergePartialFromCodedStream (m : SmartTest) (input : CodedInputStream) :
    Exec (Option SmartTest × CodedInputStream) :=
  (Loop.run mergePass (input.bufferSize + 1) (m, input)).getD (.error .diverges)

/-- The message, or `none` for `false`. The size of the array is an `int`. -/
def parseFromString (m : SmartTest) (data : List UInt8) : Exec (Option SmartTest) :=
  if data.length < 2 ^ 31 then do
    let (m, input) ← mergePartialFromCodedStream m.clear (.ofArray data)
    match m with
    | none => pure none
    | some m =>
      if m.isInitialized && input.consumedEntireMessage then pure (some m) else pure none
  else .error .outOfBounds

/-! ## Writing -/

def serializeWithCachedSizesToArray (m : SmartTest) : List UInt8 :=
  (if m.hasName then
    writeTag kNameFieldNumber .lengthDelimited ++ writeStringWithSizeToArray m.name_ else []) ++
  (if m.hasAge then
    writeTag kAgeFieldNumber .varint ++ writeVarint32SignExtendedToArray m.age_ else []) ++
  (if m.hasEmail then
    writeTag kEmailFieldNumber .lengthDelimited ++ writeStringWithSizeToArray m.email_ else []) ++
  serializeUnknownFieldsToArray m.unknown_fields_

/-- `WireFormatLite::StringSize`. -/
def stringSize (value : List UInt8) : ℕ :=
  varintSize32 (UInt32.ofNat value.length) + value.length

def byteSize (m : SmartTest) : ℕ :=
  (if m.has_bits_ &&& 0xFF ≠ 0 then
    (if m.hasName then 1 + stringSize m.name_ else 0) +
    (if m.hasAge then 1 + varintSize32SignExtended m.age_ else 0) +
    (if m.hasEmail then 1 + stringSize m.email_ else 0)
  else 0) + computeUnknownFieldsSize m.unknown_fields_

/-- Sizes are `int`s. The first check is that of `AppendToString`, and the second the one that calls
`ByteSizeConsistencyError`. -/
def serializeToString (m : SmartTest) : Exec (List UInt8) :=
  if !m.isInitialized then .error .assertion
  else if m.byteSize < 2 ^ 31 then
    let output := m.serializeWithCachedSizesToArray
    if output.length ≠ m.byteSize then .error .assertion else .ok output
  else .error .outOfBounds

/-! ## What the parser reads -/

/-- What a field does to the message. -/
def addField (m : SmartTest) : UnknownField → SmartTest
  | .lengthDelimited number value =>
    if number = kNameFieldNumber then m.setName value
    else if number = kEmailFieldNumber then m.setEmail value
    else m.addUnknown (.lengthDelimited number value)
  | .varint number value =>
    if number = kAgeFieldNumber then m.setAge value.toUInt32.toInt32
    else m.addUnknown (.varint number value)
  | field => m.addUnknown field

/-- What the fields of an array do to the message. -/
def addFields (m : SmartTest) (fs : List UnknownField) : SmartTest := fs.foldl addField m

def isEmail : UnknownField → Bool
  | .lengthDelimited number _ => number = kEmailFieldNumber
  | _ => false

/-- The last field is an `email`. -/
def endsWithEmail (fs : List UnknownField) : Bool := fs.getLast?.any isEmail

/-- Whether the end behind these fields is legitimate. -/
def legitimate (s : CodedInputStream) (fs : List UnknownField) : Bool :=
  decide (s.total_bytes_read_ ≤ kDefaultTotalBytesLimit) || endsWithEmail fs

/-- The fields from a tag on that has been read. -/
def fieldsFrom (tag : UInt32) (bytes : List UInt8) : Option (List UnknownField) :=
  (content defaultRecursionLimit tag bytes).bind fun x => (fields x.2).map (x.1 :: ·)

/-- How a pass ends that began in `s` with the message `m`, where the fields `p` were to come: it
goes on behind some of them with no more than `n` bytes, or is at the end, or finds that there are
none. -/
inductive Outcome (m : SmartTest) (s : CodedInputStream) (n : ℕ) (p : Option (List UnknownField)) :
    MergePass → Prop
  | again {t : CodedInputStream} {fs : List UnknownField} : Behind s t t.buffer_ →
      t.buffer_.length ≤ n → p = (fields t.buffer_).map (fs ++ ·) → fs ≠ [] →
      (t.buffer_ = [] → endsWithEmail fs = false) →
      Outcome m s n p (.ok (.again (m.addFields fs, t)))
  | success {t : CodedInputStream} {fs : List UnknownField} : p = some fs →
      t.legitimate_message_end_ = legitimate s fs →
      Outcome m s n p (.ok (.leave (some (m.addFields fs), t)))
  | failure {t : CodedInputStream} {r : Option SmartTest} : p = none →
      (r = none ∨ t.legitimate_message_end_ = s.legitimate_message_end_) →
      Outcome m s n p (.ok (.leave (r, t)))

variable {m : SmartTest} {s t : CodedInputStream}

theorem addFields_cons (m : SmartTest) (f : UnknownField) (fs : List UnknownField) :
    m.addFields (f :: fs) = (m.addField f).addFields fs := rfl

theorem addFields_append (m : SmartTest) (fs gs : List UnknownField) :
    m.addFields (fs ++ gs) = (m.addFields fs).addFields gs := List.foldl_append

theorem endsWithEmail_append (fs : List UnknownField) {gs : List UnknownField} (h : gs ≠ []) :
    endsWithEmail (fs ++ gs) = endsWithEmail gs := by
  rw [endsWithEmail, List.getLast?_append_of_ne_nil _ h]
  rfl

theorem legitimate_append (fs : List UnknownField) {gs : List UnknownField} (h : gs ≠ []) :
    legitimate s (fs ++ gs) = legitimate s gs := by
  rw [legitimate, endsWithEmail_append fs h]
  rfl

section Outcome

variable {n k : ℕ} {p : Option (List UnknownField)} {r : MergePass}

/-- A field in front. -/
theorem Outcome.cons {f : UnknownField} (h : Outcome (m.addField f) s n p r) (hne : p ≠ some []) :
    Outcome m s n (p.map (f :: ·)) r := by
  cases h with
  | @again u fs hbehind hlen hp hfs hend =>
    refine @Outcome.again m s n _ u (f :: fs) hbehind hlen ?_ (List.cons_ne_nil f fs) ?_
    · rw [hp, Option.map_map]
      rfl
    · intro hnil
      rw [← hend hnil]
      exact endsWithEmail_append [f] hfs
  | @success u fs hp hlegit =>
    have hfs : fs ≠ [] := by
      rintro rfl
      exact hne hp
    refine @Outcome.success m s n _ u (f :: fs) (by rw [hp]; rfl) ?_
    rw [hlegit]
    exact (legitimate_append [f] hfs).symm
  | failure hp hlegit => exact .failure (by rw [hp]; rfl) hlegit

/-- To go on from a place behind `s` is to go on from `s`. -/
theorem Outcome.behind (h : Outcome m t k p r) (hbehind : Behind s t t.buffer_) (hle : k ≤ n) :
    Outcome m s n p r := by
  cases h with
  | again hb hlen hp hfs hend => exact .again (hbehind.trans hb) (hlen.trans hle) hp hfs hend
  | success hp hlegit =>
    refine .success hp ?_
    rw [hlegit, legitimate, hbehind.total_bytes_read_]
    rfl
  | failure hp hlegit =>
    refine .failure hp ?_
    rw [← hbehind.legitimate_message_end_]
    exact hlegit

end Outcome

/-! ## The fields one by one -/

theorem fields_of_front {bytes rest : List UInt8} {n : ℕ}
    (h : Varint.decode kMaxVarintBytes bytes = some (n, rest)) (hne : UInt32.ofNat n ≠ 0) :
    fields bytes = fieldsFrom (UInt32.ofNat n) rest := by
  have hfield : field defaultRecursionLimit bytes =
      content defaultRecursionLimit (UInt32.ofNat n) rest := by
    rw [field, tagged, h, Option.bind_some, if_neg hne]
  have hbytes : bytes ≠ [] := by
    rintro rfl
    rw [Varint.decode_nil] at h
    cases h
  rw [fieldsFrom, fields]
  cases hread : content defaultRecursionLimit (UInt32.ofNat n) rest with
  | none => rw [Items.all_of_none hbytes (hfield.trans hread), Option.bind_none]
  | some x =>
    rw [Items.all_of_read (field_nonEmpty _) (hfield.trans hread), Option.bind_some]
    rfl

/-- No field is read where there is none. -/
theorem fields_of_none {bytes : List UInt8} (hbytes : bytes ≠ [])
    (h : field defaultRecursionLimit bytes = none) : fields bytes = none :=
  Items.all_of_none hbytes h

theorem fieldsFrom_of_read {tag : UInt32} {f : UnknownField} {bytes rest : List UInt8}
    (h : content defaultRecursionLimit tag bytes = some (f, rest)) :
    fieldsFrom tag bytes = (fields rest).map (f :: ·) := by
  rw [fieldsFrom, h]
  rfl

theorem fieldsFrom_of_none {tag : UInt32} {bytes : List UInt8}
    (h : content defaultRecursionLimit tag bytes = none) : fieldsFrom tag bytes = none := by
  rw [fieldsFrom, h]
  rfl

theorem fieldsFrom_ne_nil (tag : UInt32) (bytes : List UInt8) :
    fieldsFrom tag bytes ≠ some [] := by
  rw [fieldsFrom]
  intro h
  obtain ⟨x, -, hx⟩ := Option.bind_eq_some_iff.mp h
  obtain ⟨fs, -, hfs⟩ := Option.map_eq_some_iff.mp hx
  cases hfs

section Read

variable {tag : UInt32} {f : UnknownField}

/-- A field is read, and the pass goes on with the next one. -/
theorem Outcome.read {r : MergePass}
    (hread : content defaultRecursionLimit tag s.buffer_ = some (f, t.buffer_))
    (hbehind : Behind s t t.buffer_) (hne : fields t.buffer_ ≠ some [])
    (h : Outcome (m.addField f) t t.buffer_.length (fields t.buffer_) r) :
    Outcome m s s.buffer_.length (fieldsFrom tag s.buffer_) r := by
  rw [fieldsFrom_of_read hread]
  exact (h.behind hbehind (content_shortens _ hread)).cons hne

/-- A field is read, and the pass is over. -/
theorem Outcome.next (hread : content defaultRecursionLimit tag s.buffer_ = some (f, t.buffer_))
    (hbehind : Behind s t t.buffer_) (hend : t.buffer_ = [] → isEmail f = false) :
    Outcome m s s.buffer_.length (fieldsFrom tag s.buffer_) (.ok (.again (m.addField f, t))) :=
  @Outcome.again m s _ _ t [f] hbehind (content_shortens _ hread) (fieldsFrom_of_read hread)
    (List.cons_ne_nil f []) hend

/-- A field is not there. -/
theorem Outcome.missing (hread : content defaultRecursionLimit tag s.buffer_ = none) :
    Outcome m s s.buffer_.length (fieldsFrom tag s.buffer_) (.ok (.leave (none, t))) :=
  .failure (fieldsFrom_of_none hread) (Or.inl rfl)

end Read

theorem content_string (tag number : UInt32) (htype : getTagWireType tag = some .lengthDelimited)
    (hnumber : getTagFieldNumber tag = number) (bytes : List UInt8) :
    content defaultRecursionLimit tag bytes =
      (delimited bytes).map fun x => (.lengthDelimited number x.1, x.2) := by
  simp only [content, defaultRecursionLimit, htype, hnumber]

theorem content_int (tag number : UInt32) (htype : getTagWireType tag = some .varint)
    (hnumber : getTagFieldNumber tag = number) (bytes : List UInt8) :
    content defaultRecursionLimit tag bytes =
      (Varint.decode kMaxVarintBytes bytes).map
        fun x => (.varint number (UInt64.ofNat x.1), x.2) := by
  simp only [content, defaultRecursionLimit, htype, hnumber]

theorem expectTag_cases {expected : UInt32} (h : expected.toNat < 2 ^ 7) :
    (∃ b rest, t.buffer_ = b :: rest ∧ b.toUInt32 = expected ∧
        t.expectTag expected = (true, { t with buffer_ := rest })) ∨
      t.expectTag expected = (false, t) := by
  rw [CodedInputStream.expectTag, if_pos h]
  cases hbuf : t.buffer_ with
  | nil => exact Or.inr rfl
  | cons b rest =>
    by_cases hb : b.toUInt32 = expected
    · left
      exact ⟨b, rest, rfl, hb, if_pos hb⟩
    · right
      exact if_neg hb

/-- The fields behind a tag of one byte. -/
theorem fields_cons {b : UInt8} {tag : UInt32} (hb : b.toUInt32 = tag) (htag : tag.toNat < 2 ^ 7)
    (hne : tag ≠ 0) (rest : List UInt8) : fields (b :: rest) = fieldsFrom tag rest := by
  have hlt : b.toNat < 128 := by
    rw [← UInt8.toNat_toUInt32, hb]
    exact htag
  have htag' : UInt32.ofNat b.toNat = tag := by
    rw [UInt32.ofNat_uInt8ToNat, hb]
  have hfront : Varint.decode kMaxVarintBytes (b :: rest) = some (b.toNat, rest) :=
    Varint.decode_cons_of_lt hlt
  rw [fields_of_front hfront (by rw [htag']; exact hne), htag']

/-- A field is read, and where `expected` comes next the pass goes on behind it. -/
theorem Outcome.expect {tag : UInt32} {f : UnknownField} (expected : UInt32)
    (go : SmartTest → CodedInputStream → MergePass)
    (hgo : ∀ {m s}, s.Flat →
      Outcome m s s.buffer_.length (fieldsFrom expected s.buffer_) (go m s)) (ht : t.Flat)
    (hread : content defaultRecursionLimit tag s.buffer_ = some (f, t.buffer_))
    (hbehind : Behind s t t.buffer_) (hlt : expected.toNat < 2 ^ 7) (hne : expected ≠ 0)
    (hf : isEmail f = false) :
    Outcome m s s.buffer_.length (fieldsFrom tag s.buffer_)
      (if (t.expectTag expected).1 then go (m.addField f) (t.expectTag expected).2
        else pure (.again (m.addField f, (t.expectTag expected).2))) := by
  rcases expectTag_cases (t := t) hlt with ⟨b, rest, hbuf, hb, hexpect⟩ | hexpect
  · have hfields : fields t.buffer_ = fieldsFrom expected rest := by
      rw [hbuf]
      exact fields_cons hb hlt hne rest
    rw [hexpect]
    apply Outcome.read hread hbehind
    · rw [hfields]
      exact fieldsFrom_ne_nil _ _
    · have hrest : Behind t { t with buffer_ := rest } rest := ⟨rfl, rfl, rfl, rfl⟩
      have hle : rest.length ≤ t.buffer_.length := by
        rw [hbuf]
        exact Nat.le_succ _
      rw [hfields]
      exact (hgo (s := { t with buffer_ := rest }) ht).behind hrest hle
  · rw [hexpect]
    exact .next hread hbehind fun _ => hf

theorem parseEmail_spec (hs : s.Flat) :
    Outcome m s s.buffer_.length (fieldsFrom 26 s.buffer_) (parseEmail m s) := by
  have hcontent := content_string 26 kEmailFieldNumber rfl rfl s.buffer_
  obtain ⟨t, hread, hbehind⟩ := wireReadString_spec hs
  rw [parseEmail, hread]
  cases hvalue : delimited s.buffer_ with
  | none =>
    rw [hvalue] at hcontent
    exact .missing hcontent
  | some x =>
    have hx := hbehind x hvalue
    rw [hvalue, Option.map_some, ← hx.buffer_] at hcontent
    rw [← hx.buffer_] at hx
    have hflat : t.total_bytes_read_ = t.current_limit_ := hx.flat hs
    simp only [bind, Except.bind, Option.map_some]
    by_cases hnil : t.buffer_ = []
    · have hend : t.expectAtEnd =
          (true, { t with last_tag_ := 0, legitimate_message_end_ := true }) :=
        if_pos ⟨hnil, hflat⟩
      have hp : fieldsFrom 26 s.buffer_ = some [.lengthDelimited kEmailFieldNumber x.1] := by
        rw [fieldsFrom_of_read hcontent, hnil]
        rfl
      simp only [hend, if_true]
      exact .success hp (Bool.or_true _).symm
    · have hend : t.expectAtEnd = (false, t) := if_neg fun h => hnil h.1
      simp only [hend, Bool.false_eq_true, if_false]
      exact .next hcontent hx fun h => absurd h hnil

theorem readInt32_spec (hs : s.Flat) :
    Finds s ((Varint.decode kMaxVarintBytes s.buffer_).map fun x =>
      ((UInt32.ofNat x.1).toInt32, x.2)) (readInt32 s) := by
  have hread := (CodedInputStream.readVarint32_spec hs).finds.map UInt32.toInt32
  rw [Option.map_map] at hread
  exact hread

theorem parseAge_spec (hs : s.Flat) :
    Outcome m s s.buffer_.length (fieldsFrom 16 s.buffer_) (parseAge m s) := by
  have hcontent := content_int 16 kAgeFieldNumber rfl rfl s.buffer_
  obtain ⟨t, hread, hbehind⟩ := readInt32_spec hs
  rw [parseAge, hread]
  cases hvalue : Varint.decode kMaxVarintBytes s.buffer_ with
  | none =>
    rw [hvalue] at hcontent
    exact .missing hcontent
  | some x =>
    have hx : Behind s t x.2 := hbehind ((UInt32.ofNat x.1).toInt32, x.2) (by rw [hvalue]; rfl)
    rw [hvalue, Option.map_some, ← hx.buffer_] at hcontent
    rw [← hx.buffer_] at hx
    have hage : m.addField (.varint kAgeFieldNumber (UInt64.ofNat x.1)) =
        m.setAge (UInt32.ofNat x.1).toInt32 := by
      rw [addField, if_pos rfl, UInt64.toUInt32_ofNat']
    have hexpect := Outcome.expect (m := m) 26 parseEmail parseEmail_spec (hx.flat hs) hcontent hx
      (by decide) (by decide) rfl
    rw [hage] at hexpect
    exact hexpect

theorem parseName_spec (hs : s.Flat) :
    Outcome m s s.buffer_.length (fieldsFrom 10 s.buffer_) (parseName m s) := by
  have hcontent := content_string 10 kNameFieldNumber rfl rfl s.buffer_
  obtain ⟨t, hread, hbehind⟩ := wireReadString_spec hs
  rw [parseName, hread]
  cases hvalue : delimited s.buffer_ with
  | none =>
    rw [hvalue] at hcontent
    exact .missing hcontent
  | some x =>
    have hx := hbehind x hvalue
    rw [hvalue, Option.map_some, ← hx.buffer_] at hcontent
    rw [← hx.buffer_] at hx
    exact Outcome.expect 16 parseAge parseAge_spec (hx.flat hs) hcontent hx (by decide)
      (by decide) rfl

/-! ## A pass -/

/-- A field with another tag is one the message does not know. -/
theorem addField_of_content {tag : UInt32} {f : UnknownField} {bytes rest : List UInt8}
    (hname : tag ≠ 10) (hage : tag ≠ 16) (hemail : tag ≠ 26)
    (h : content defaultRecursionLimit tag bytes = some (f, rest)) :
    m.addField f = m.addUnknown f ∧ isEmail f = false := by
  by_cases hgroup : getTagWireType tag = some .startGroup
  · obtain ⟨l, fs, -, rfl, -⟩ := group_eq_some hgroup h
    exact ⟨rfl, rfl⟩
  rw [content_of_ne hgroup] at h
  simp only [content] at h
  cases htype : getTagWireType tag with
  | none =>
    rw [htype] at h
    cases h
  | some type =>
    rw [htype] at h
    have htag := (getTagWireType_eq_some_iff tag type).mp htype
    cases type with
    | varint =>
      obtain ⟨x, -, heq⟩ := Option.map_eq_some_iff.mp h
      obtain ⟨rfl, rfl⟩ := Prod.mk.inj heq
      refine ⟨if_neg ?_, rfl⟩
      intro hnumber
      rw [hnumber] at htag
      exact hage htag
    | lengthDelimited =>
      obtain ⟨x, -, heq⟩ := Option.map_eq_some_iff.mp h
      obtain ⟨rfl, rfl⟩ := Prod.mk.inj heq
      have hone : getTagFieldNumber tag ≠ kNameFieldNumber := by
        intro hnumber
        rw [hnumber] at htag
        exact hname htag
      have hthree : getTagFieldNumber tag ≠ kEmailFieldNumber := by
        intro hnumber
        rw [hnumber] at htag
        exact hemail htag
      refine ⟨?_, decide_eq_false hthree⟩
      rw [addField, if_neg hone, if_neg hthree]
    | startGroup => exact absurd htype hgroup
    | endGroup => cases h
    | fixed64 | fixed32 =>
      obtain ⟨x, -, heq⟩ := Option.map_eq_some_iff.mp h
      obtain ⟨rfl, rfl⟩ := Prod.mk.inj heq
      exact ⟨rfl, rfl⟩

theorem handleUnusual_spec {tag : UInt32} (hname : tag ≠ 10) (hage : tag ≠ 16) (hemail : tag ≠ 26)
    (htag : tag ≠ 0) (hs : s.Flat) :
    Outcome m s s.buffer_.length (fieldsFrom tag s.buffer_) (handleUnusual tag m s) := by
  rw [handleUnusual]
  by_cases hend : getTagWireType tag = some .endGroup
  · have hnone : content defaultRecursionLimit tag s.buffer_ = none := by
      simp only [content, defaultRecursionLimit, hend]
    rw [if_pos (Or.inr hend)]
    exact .failure (fieldsFrom_of_none hnone) (Or.inr rfl)
  · rw [if_neg (not_or.mpr ⟨htag, hend⟩)]
    obtain ⟨t, hread, hbehind⟩ := skipField_spec defaultRecursionLimit tag hs
    rw [hread]
    cases hcontent : content defaultRecursionLimit tag s.buffer_ with
    | none => exact .missing hcontent
    | some x =>
      have hx := hbehind x hcontent
      obtain ⟨hadd, hnot⟩ := addField_of_content (m := m) hname hage hemail hcontent
      rw [← hx.buffer_] at hx
      have hnext : Outcome m s s.buffer_.length (fieldsFrom tag s.buffer_)
          (.ok (.again (m.addField x.1, t))) := by
        apply Outcome.next _ hx fun _ => hnot
        rw [hcontent, (hbehind x hcontent).buffer_]
      rw [hadd] at hnext
      exact hnext

/-- Where a pass goes on, by the tag. -/
theorem dispatch_eq (tag : UInt32) (m : SmartTest) (input : CodedInputStream) :
    (if !decide (tag ≠ 0 ∧ tag ≤ 127) then handleUnusual tag m input
      else if getTagFieldNumber tag = 1 then
        if tag = 10 then parseName m input else handleUnusual tag m input
      else if getTagFieldNumber tag = 2 then
        if tag = 16 then parseAge m input else handleUnusual tag m input
      else if getTagFieldNumber tag = 3 then
        if tag = 26 then parseEmail m input else handleUnusual tag m input
      else handleUnusual tag m input) =
    if tag = 10 then parseName m input else if tag = 16 then parseAge m input
      else if tag = 26 then parseEmail m input else handleUnusual tag m input := by
  by_cases hname : tag = 10
  · rw [hname]
    rfl
  by_cases hage : tag = 16
  · rw [hage]
    rfl
  by_cases hemail : tag = 26
  · rw [hemail]
    rfl
  simp only [if_neg hname, if_neg hage, if_neg hemail, ite_self]

theorem dispatch_spec {tag : UInt32} (htag : tag ≠ 0) (hs : s.Flat) :
    Outcome m s s.buffer_.length (fieldsFrom tag s.buffer_)
      (if tag = 10 then parseName m s else if tag = 16 then parseAge m s
        else if tag = 26 then parseEmail m s else handleUnusual tag m s) := by
  by_cases hname : tag = 10
  · rw [if_pos hname, hname]
    exact parseName_spec hs
  by_cases hage : tag = 16
  · rw [if_neg hname, if_pos hage, hage]
    exact parseAge_spec hs
  by_cases hemail : tag = 26
  · rw [if_neg hname, if_neg hage, if_pos hemail, hemail]
    exact parseEmail_spec hs
  rw [if_neg hname, if_neg hage, if_neg hemail]
  exact handleUnusual_spec hname hage hemail htag hs

/-- **A pass** reads fields of the array, and takes a byte unless it is the last. -/
theorem mergePass_spec (hs : s.Flat) :
    Outcome m s (s.buffer_.length - 1) (fields s.buffer_) (mergePass (m, s)) := by
  have hcutoff := (CodedInputStream.readTagWithCutoff_eq_iff hs 127).mpr fun h =>
    absurd h.1 (by decide)
  obtain ⟨buffer_, hread, hrest⟩ := CodedInputStream.readTag_spec hs
  rw [hread] at hcutoff
  rw [mergePass]
  simp only [hcutoff, bind, Except.bind, Except.map, CodedInputStream.compared, dispatch_eq]
  by_cases hbuf : s.buffer_ = []
  · have hzero : s.nextTag = 0 := by
      rw [CodedInputStream.nextTag, CodedInputStream.front_nil hbuf]
      rfl
    have hfields : fields s.buffer_ = some [] := by
      rw [hbuf]
      rfl
    have hleave : handleUnusual 0 m (s.behindTag buffer_) =
        .ok (.leave (some m, s.behindTag buffer_)) := rfl
    rw [hzero]
    simp only [hleave]
    refine .success hfields ?_
    rw [CodedInputStream.behindTag, CodedInputStream.endsHere, if_pos hbuf, legitimate]
    exact (Bool.or_false _).symm
  · -- A number that is missing and the tag `0` are no tag, and the array is not at its end.
    have hmissing (hzero : s.nextTag = 0) (hfield : field defaultRecursionLimit s.buffer_ = none) :
        Outcome m s (s.buffer_.length - 1) (fields s.buffer_)
          (handleUnusual 0 m (s.behindTag buffer_)) := by
      refine .failure (fields_of_none hbuf hfield) (Or.inr ?_)
      rw [CodedInputStream.behindTag, CodedInputStream.endsHere, if_neg hbuf]
    cases hfront : s.front with
    | none =>
      have hzero : s.nextTag = 0 := by
        rw [CodedInputStream.nextTag, hfront]
        rfl
      rw [hzero]
      apply hmissing hzero
      rw [CodedInputStream.front] at hfront
      rw [field, tagged, hfront]
      rfl
    | some x =>
      have hnext := nextTag_of_front hfront
      have hbehind := behindTag_behind hfront (hrest x hfront)
      rw [CodedInputStream.front] at hfront
      rw [hnext]
      by_cases hzero : UInt32.ofNat x.1 = 0
      · rw [hzero]
        apply hmissing (hnext.trans hzero)
        rw [field, tagged, hfront, Option.bind_some, if_pos hzero]
      · have hlt := decode_length_lt hfront
        have hpass := dispatch_spec (m := m) hzero (hbehind.flat hs)
        rw [hbehind.buffer_] at hpass
        rw [fields_of_front hfront hzero]
        rw [← hbehind.buffer_] at hbehind
        exact hpass.behind hbehind (by omega)

/-! ## The whole array -/

/-- What the parser has made of the array that began in `s`. -/
def Parsed (m : SmartTest) (s : CodedInputStream) :
    Exec (Option SmartTest × CodedInputStream) → Prop
  | .error _ => False
  | .ok (r, t) =>
    match fields s.buffer_ with
    | some fs => r = some (m.addFields fs) ∧ t.legitimate_message_end_ = legitimate s fs
    | none => r = none ∨ t.legitimate_message_end_ = s.legitimate_message_end_

/-- Between two passes: some fields have been read, and behind an `email` there is more. -/
def Underway (m : SmartTest) (s : CodedInputStream) (x : SmartTest × CodedInputStream) : Prop :=
  ∃ fs, Behind s x.2 x.2.buffer_ ∧ x.1 = m.addFields fs ∧
    fields s.buffer_ = (fields x.2.buffer_).map (fs ++ ·) ∧
    (x.2.buffer_ = [] → endsWithEmail fs = false)

theorem endsWithEmail_of_rest {fs gs : List UnknownField} (hgs : fields t.buffer_ = some gs)
    (hend : t.buffer_ = [] → endsWithEmail fs = false) :
    endsWithEmail (fs ++ gs) = endsWithEmail gs := by
  by_cases hnil : gs = []
  · have hwhole := (Items.all_iff (field_nonEmpty _)).mp hgs
    rw [hnil] at hwhole ⊢
    generalize hbytes : t.buffer_ = bytes at hwhole
    cases hwhole
    rw [List.append_nil]
    exact hend hbytes
  · exact endsWithEmail_append fs hnil

/-- **Step.** A pass goes on with fewer bytes, or leaves with what the parser has to find. -/
theorem mergePass_establishes (hs : s.Flat) (x : SmartTest × CodedInputStream)
    (hx : Underway m s x) :
    Loop.Establishes (Underway m s) (fun y => y.2.buffer_.length) (Parsed m s) x.2.buffer_.length
      (mergePass x) := by
  obtain ⟨m', t⟩ := x
  obtain ⟨fs, hbehind, rfl, hfields, hend⟩ := hx
  have hpass := mergePass_spec (m := m.addFields fs) (hbehind.flat hs)
  generalize hr : mergePass (m.addFields fs, t) = r at hpass
  cases hpass with
  | @again u gs hb hlen hp hgs hnot =>
    refine ⟨⟨fs ++ gs, hbehind.trans hb, (m.addFields_append fs gs).symm, ?_, ?_⟩, ?_⟩
    · rw [hfields, hp, Option.map_map]
      congr 1
      funext hs
      exact (List.append_assoc fs gs hs).symm
    · intro hnil
      rw [endsWithEmail_append fs hgs]
      exact hnot hnil
    · have hne : t.buffer_ ≠ [] := by
        intro hnil
        rw [hnil] at hp
        obtain ⟨hs', -, happend⟩ := Option.map_eq_some_iff.mp hp.symm
        exact hgs (List.append_eq_nil_iff.mp happend).1
      have hpos := List.length_pos_iff.mpr hne
      change u.buffer_.length ≤ t.buffer_.length - 1 at hlen
      change u.buffer_.length < t.buffer_.length
      omega
  | @success u gs hp hlegit =>
    rw [hp] at hfields
    rw [Loop.Establishes, Parsed, hfields]
    refine ⟨congrArg some (m.addFields_append fs gs).symm, ?_⟩
    rw [hlegit, legitimate, legitimate, endsWithEmail_of_rest hp hend, hbehind.total_bytes_read_]
  | @failure u r hp hlegit =>
    rw [hp] at hfields
    rw [Loop.Establishes, Parsed, hfields]
    rw [hbehind.legitimate_message_end_] at hlegit
    exact hlegit

/-- **The parser** reads what a loop over the fields of the array reads, ends, and never reads
beyond the array. -/
theorem mergePartialFromCodedStream_spec (m : SmartTest) (hs : s.Flat) :
    Parsed m s (mergePartialFromCodedStream m s) := by
  have hstart : Underway m s (m, s) := by
    refine ⟨[], ⟨rfl, rfl, rfl, rfl⟩, rfl, ?_, fun _ => rfl⟩
    cases fields s.buffer_ <;> rfl
  obtain ⟨r, hrun, hpost⟩ := Loop.run_of_variant mergePass (fun y => y.2.buffer_.length)
    (mergePass_establishes hs) (s.bufferSize + 1) hstart (Nat.lt_succ_self _)
  rw [mergePartialFromCodedStream, hrun]
  exact hpost

/-- What `ParseFromString` makes of an array: all of it are fields, the required ones are among
them, and it is not too long, or ends with an `email`. -/
def parse (data : List UInt8) : Option SmartTest :=
  (fields data).bind fun fs =>
    if (new.addFields fs).isInitialized ∧
        (data.length ≤ kDefaultTotalBytesLimit ∨ endsWithEmail fs = true) then
      some (new.addFields fs)
    else none

/-- **`ParseFromString`** on a message that is new or has been cleared. -/
theorem parseFromString_eq {data : List UInt8} (hdata : data.length < 2 ^ 31)
    (hclear : m.clear = new) : m.parseFromString data = .ok (parse data) := by
  have hspec := mergePartialFromCodedStream_spec new
    (show (CodedInputStream.ofArray data).Flat from rfl)
  rw [parseFromString, if_pos hdata, hclear]
  generalize mergePartialFromCodedStream new (.ofArray data) = r at hspec
  rcases r with _ | ⟨r, t⟩
  · cases hspec
  have hbuffer : (CodedInputStream.ofArray data).buffer_ = data := rfl
  rw [Parsed, hbuffer] at hspec
  simp only [bind, Except.bind, pure, Except.pure]
  cases hfields : fields data with
  | none =>
    rw [hfields] at hspec
    rw [parse, hfields]
    rcases hspec with rfl | hlegit
    · rfl
    · cases r with
      | none => rfl
      | some m' =>
        have hfalse : t.consumedEntireMessage = false := hlegit
        simp only [hfalse, Bool.and_false, Bool.false_eq_true, if_false]
        rfl
  | some fs =>
    rw [hfields] at hspec
    obtain ⟨rfl, hlegit⟩ := hspec
    have hend : t.consumedEntireMessage = legitimate (.ofArray data) fs := hlegit
    have htotal : (CodedInputStream.ofArray data).total_bytes_read_ = data.length := rfl
    simp only [hend, legitimate, htotal, parse, hfields, Option.bind_some, Bool.and_eq_true,
      Bool.or_eq_true, decide_eq_true_eq]
    exact (apply_ite Except.ok _ _ _).symm

end SmartTest

end SmartServer
