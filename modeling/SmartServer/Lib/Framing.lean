import Mathlib

/-!
# Length-prefixed framing

A stream is a sequence of frames: a head of fixed length that announces how many bytes follow,
and that many bytes. A head may be refused, which ends the stream for good.

**The decoder** (`Format.feed`) takes the stream one byte at a time. What it has seen of the
frame it is in is its `Phase`; what it gives out are the frames it completes. Since it is a fold
over the bytes, cutting the stream anywhere makes no difference (`feed_append`), and a program
that consumes the stream in larger bites is right when each bite moves it as `feed` does:
`feed_head`, `feed_body_short` and `feed_body_exact` say how `feed` moves over a bite.

**The encoder** (`Codec.wire`) writes frames out. `feed_wire` and `wire_of_feed` are the two
directions of the round trip.
-/

namespace Framing

variable {β η : Type*}

/-- A head: its length, and what it announces (`none` when it is refused). -/
structure Format (β η : Type*) where
  headLen : ℕ
  headLen_pos : 0 < headLen
  parseHead : List β → Option (η × ℕ)

/-- A frame: the head's information and the bytes that followed it. -/
abbrev Frame (β η : Type*) := η × List β

/-- Where in the stream the decoder is: in a head, in the body of an accepted head, or past a
refused head. -/
inductive Phase (β η : Type*)
  | head (got : List β)
  | body (h : η) (len : ℕ) (got : List β)
  | refused
deriving DecidableEq

namespace Phase

/-- The frame that has been announced and is not complete yet. -/
def pending : Phase β η → List (η × ℕ)
  | .head _ => []
  | .body h len _ => [(h, len)]
  | .refused => []

/-- The decoder leaves a head or a body when it is complete. -/
def WF (F : Format β η) : Phase β η → Prop
  | .head got => got.length < F.headLen
  | .body _ len got => got.length < len
  | .refused => True

end Phase

namespace Format

variable (F : Format β η)

/-- An accepted head: a frame without body is complete at once. -/
def accept (h : η) (len : ℕ) : List (Frame β η) × Phase β η :=
  if len = 0 then ([(h, [])], .head []) else ([], .body h len [])

/-- One byte. -/
def step : Phase β η → β → List (Frame β η) × Phase β η
  | .head got, b =>
    if got.length + 1 < F.headLen then ([], .head (got ++ [b]))
    else match F.parseHead (got ++ [b]) with
      | none => ([], .refused)
      | some (h, len) => accept h len
  | .body h len got, b =>
    if got.length + 1 < len then ([], .body h len (got ++ [b]))
    else ([(h, got ++ [b])], .head [])
  | .refused, _ => ([], .refused)

/-- Feed bytes, collecting the frames they complete. -/
def feed : Phase β η → List β → List (Frame β η) × Phase β η
  | p, [] => ([], p)
  | p, b :: bs => ((F.step p b).1 ++ (feed (F.step p b).2 bs).1, (feed (F.step p b).2 bs).2)

/-- The frames completed, and the one begun, with the lengths their heads announced. -/
def announced (p : Phase β η) (bs : List β) : List (η × ℕ) :=
  (F.feed p bs).1.map (fun f => (f.1, f.2.length)) ++ (F.feed p bs).2.pending

/-- Every byte arrives in a phase satisfying `P`. -/
def Throughout (P : Phase β η → Prop) : Phase β η → List β → Prop
  | _, [] => True
  | p, b :: bs => P p ∧ Throughout P (F.step p b).2 bs

/-! ## Cutting the stream -/

@[simp] theorem feed_nil (p : Phase β η) : F.feed p [] = ([], p) := rfl

theorem feed_append (p : Phase β η) (a b : List β) :
    F.feed p (a ++ b) =
      ((F.feed p a).1 ++ (F.feed (F.feed p a).2 b).1, (F.feed (F.feed p a).2 b).2) := by
  induction a generalizing p with
  | nil => simp
  | cons x a ih => simp only [List.cons_append, feed, ih, List.append_assoc]

/-- **More bytes only add frames.** -/
theorem frames_append (p : Phase β η) (a b : List β) :
    (F.feed p a).1 <+: (F.feed p (a ++ b)).1 := by
  rw [feed_append]
  exact List.prefix_append _ _

theorem throughout_append {P : Phase β η → Prop} (p : Phase β η) (a b : List β) :
    F.Throughout P p (a ++ b) ↔ F.Throughout P p a ∧ F.Throughout P (F.feed p a).2 b := by
  induction a generalizing p with
  | nil => simp [Throughout]
  | cons x a ih => simp only [List.cons_append, Throughout, feed, ih, and_assoc]

/-! ## Well-formed phases -/

theorem wf_start : (Phase.head [] : Phase β η).WF F := F.headLen_pos

theorem wf_accept (h : η) (len : ℕ) : (accept h len : List (Frame β η) × Phase β η).2.WF F := by
  unfold accept
  split
  · exact F.wf_start
  · simp only [Phase.WF, List.length_nil]; omega

theorem wf_step {p : Phase β η} (hp : p.WF F) (b : β) : (F.step p b).2.WF F := by
  cases p with
  | head got =>
    simp only [step]
    split
    · simpa [Phase.WF] using ‹got.length + 1 < F.headLen›
    · split
      · trivial
      · exact F.wf_accept _ _
  | body h len got =>
    simp only [step]
    split
    · simpa [Phase.WF] using ‹got.length + 1 < len›
    · exact F.wf_start
  | refused => trivial

theorem wf_feed {p : Phase β η} (hp : p.WF F) (bs : List β) : (F.feed p bs).2.WF F := by
  induction bs generalizing p with
  | nil => exact hp
  | cons b bs ih => exact ih (F.wf_step hp b)

/-! ## Bites -/

@[simp] theorem feed_refused (bs : List β) : F.feed .refused bs = ([], .refused) := by
  induction bs with
  | nil => rfl
  | cons b bs ih => simp [feed, step, ih]

/-- A bite that stays inside the head. -/
theorem feed_head_short {got bs : List β} (h : got.length + bs.length < F.headLen) :
    F.feed (.head got) bs = ([], .head (got ++ bs)) := by
  induction bs generalizing got with
  | nil => simp
  | cons b bs ih =>
    simp only [List.length_cons] at h
    have hb : F.step (.head got) b = ([], .head (got ++ [b])) := by
      simp only [step, if_pos (show got.length + 1 < F.headLen by omega)]
    rw [feed, hb, ih (by simp; omega)]
    simp

/-- A bite that is the rest of the head. -/
theorem feed_head {got bs : List β} (hbs : bs ≠ []) (h : got.length + bs.length = F.headLen) :
    F.feed (.head got) bs =
      match F.parseHead (got ++ bs) with
      | none => ([], .refused)
      | some (h, len) => accept h len := by
  obtain ⟨init, b, rfl⟩ := List.eq_nil_or_concat bs |>.resolve_left hbs
  rw [List.concat_eq_append] at h ⊢
  simp only [List.length_append, List.length_singleton] at h
  rw [feed_append, F.feed_head_short (by omega)]
  have hstep : ¬ (got ++ init).length + 1 < F.headLen := by
    rw [List.length_append]; omega
  simp only [feed, step, hstep, if_false, List.append_assoc, List.nil_append, List.append_nil]

/-- A bite that stays inside the body. -/
theorem feed_body_short {h : η} {len : ℕ} {got bs : List β}
    (hlen : got.length + bs.length < len) :
    F.feed (.body h len got) bs = ([], .body h len (got ++ bs)) := by
  induction bs generalizing got with
  | nil => simp
  | cons b bs ih =>
    simp only [List.length_cons] at hlen
    have hb : F.step (.body h len got) b = ([], .body h len (got ++ [b])) := by
      simp only [step, if_pos (show got.length + 1 < len by omega)]
    rw [feed, hb, ih (by simp; omega)]
    simp

/-- A bite that is the rest of the body. -/
theorem feed_body_exact {h : η} {len : ℕ} {got bs : List β} (hbs : bs ≠ [])
    (hlen : got.length + bs.length = len) :
    F.feed (.body h len got) bs = ([(h, got ++ bs)], .head []) := by
  obtain ⟨init, b, rfl⟩ := List.eq_nil_or_concat bs |>.resolve_left hbs
  rw [List.concat_eq_append] at hlen ⊢
  simp only [List.length_append, List.length_singleton] at hlen
  rw [feed_append, F.feed_body_short (by omega)]
  have hstep : ¬ (got ++ init).length + 1 < len := by rw [List.length_append]; omega
  simp only [feed, step, hstep, if_false, List.append_assoc, List.nil_append, List.append_nil]

/-- Bytes of the head all arrive in head phases. -/
theorem throughout_head {P : Phase β η → Prop} (hP : ∀ got, P (.head got)) {got bs : List β}
    (h : got.length + bs.length ≤ F.headLen) : F.Throughout P (.head got) bs := by
  induction bs generalizing got with
  | nil => trivial
  | cons b bs ih =>
    simp only [List.length_cons] at h
    refine ⟨hP got, ?_⟩
    cases bs with
    | nil => trivial
    | cons c bs =>
      simp only [List.length_cons] at h
      simp only [step, if_pos (show got.length + 1 < F.headLen by omega)]
      exact ih (by simp only [List.length_append, List.length_cons, List.length_nil]; omega)

/-- Bytes of the body all arrive in phases of the same body. -/
theorem throughout_body {P : Phase β η → Prop} {h : η} {len : ℕ}
    (hP : ∀ got, P (.body h len got)) {got bs : List β} (hlen : got.length + bs.length ≤ len) :
    F.Throughout P (.body h len got) bs := by
  induction bs generalizing got with
  | nil => trivial
  | cons b bs ih =>
    simp only [List.length_cons] at hlen
    refine ⟨hP got, ?_⟩
    cases bs with
    | nil => trivial
    | cons c bs =>
      simp only [List.length_cons] at hlen
      simp only [step, if_pos (show got.length + 1 < len by omega)]
      exact ih (by simp only [List.length_append, List.length_cons, List.length_nil]; omega)

theorem throughout_refused {P : Phase β η → Prop} (hP : P .refused) (bs : List β) :
    F.Throughout P .refused bs := by
  induction bs with
  | nil => trivial
  | cons b bs ih => exact ⟨hP, ih⟩

/-! ## What has been announced -/

theorem pending_prefix_step {p : Phase β η} (hp : p.WF F) (b : β) :
    p.pending <+: (F.step p b).1.map (fun f => (f.1, f.2.length)) ++ (F.step p b).2.pending := by
  cases p with
  | head got => exact List.nil_prefix
  | body h len got =>
    simp only [Phase.WF] at hp
    simp only [step]
    split
    · exact List.prefix_refl _
    · have hlen : len = got.length + 1 := by omega
      simp [Phase.pending, hlen]
  | refused => exact List.nil_prefix

theorem pending_prefix_announced {p : Phase β η} (hp : p.WF F) (bs : List β) :
    p.pending <+: F.announced p bs := by
  induction bs generalizing p with
  | nil => simp [announced]
  | cons b bs ih =>
    have hrec : announced F p (b :: bs) =
        (F.step p b).1.map (fun f => (f.1, f.2.length)) ++ F.announced (F.step p b).2 bs := by
      simp [announced, feed, List.append_assoc]
    rw [hrec]
    exact (F.pending_prefix_step hp b).trans
      (List.prefix_append_right_inj _ |>.mpr (ih (F.wf_step hp b)))

/-- **What has been announced stays announced.** -/
theorem announced_append {p : Phase β η} (hp : p.WF F) (a b : List β) :
    F.announced p a <+: F.announced p (a ++ b) := by
  have hsplit : F.announced p (a ++ b) =
      (F.feed p a).1.map (fun f => (f.1, f.2.length)) ++ F.announced (F.feed p a).2 b := by
    simp [announced, feed_append, List.append_assoc]
  rw [hsplit]
  exact List.prefix_append_right_inj _ |>.mpr
    (F.pending_prefix_announced (F.wf_feed hp a) b)

/-- A bound on every announced length bounds the length of every body a byte arrives in. -/
theorem throughout_of_announced {P : ℕ → Prop} {p : Phase β η} (hp : p.WF F) {bs : List β}
    (h : ∀ x ∈ F.announced p bs, P x.2) :
    F.Throughout (fun q => ∀ x ∈ q.pending, P x.2) p bs := by
  induction bs generalizing p with
  | nil => trivial
  | cons b bs ih =>
    refine ⟨fun x hx => h x ((F.pending_prefix_announced hp (b :: bs)).subset hx), ?_⟩
    refine ih (F.wf_step hp b) fun x hx => h x ?_
    simp only [announced, feed, List.map_append, List.append_assoc, List.mem_append] at hx ⊢
    exact Or.inr hx

end Format

/-! ## Encoding -/

/-- A format that can also be written: `encodeHead` is a section of `parseHead` on the heads
that satisfy `Valid`, and the only one. -/
structure Codec (β η : Type*) extends Format β η where
  encodeHead : η → ℕ → List β
  Valid : η → ℕ → Prop
  length_encodeHead : ∀ h len, (encodeHead h len).length = headLen
  parse_encode : ∀ h len, Valid h len → parseHead (encodeHead h len) = some (h, len)
  encode_parse : ∀ hd h len, hd.length = headLen → parseHead hd = some (h, len) →
    encodeHead h len = hd
  valid_parse : ∀ hd h len, hd.length = headLen → parseHead hd = some (h, len) → Valid h len

namespace Codec

variable (C : Codec β η)

def encodeFrame (f : Frame β η) : List β := C.encodeHead f.1 f.2.length ++ f.2

/-- The bytes of a sequence of frames. -/
def wire (fs : List (Frame β η)) : List β := fs.flatMap C.encodeFrame

/-- The bytes of the frame a phase is in. -/
def partBytes : Phase β η → List β
  | .head got => got
  | .body h len got => C.encodeHead h len ++ got
  | .refused => []

@[simp] theorem wire_nil : C.wire [] = [] := rfl

@[simp] theorem wire_append (fs gs : List (Frame β η)) :
    C.wire (fs ++ gs) = C.wire fs ++ C.wire gs := by simp [wire]

theorem feed_encodeHead {h : η} {len : ℕ} (hv : C.Valid h len) :
    C.feed (.head []) (C.encodeHead h len) = Format.accept h len := by
  have hlen := C.length_encodeHead h len
  have hne : C.encodeHead h len ≠ [] := by
    rintro he
    rw [he] at hlen
    exact C.headLen_pos.ne hlen
  rw [C.feed_head hne (by simpa using hlen), List.nil_append, C.parse_encode h len hv]

theorem feed_encodeFrame {f : Frame β η} (hv : C.Valid f.1 f.2.length) :
    C.feed (.head []) (C.encodeFrame f) = ([f], .head []) := by
  obtain ⟨h, payload⟩ := f
  rw [encodeFrame, C.feed_append, C.feed_encodeHead hv]
  cases payload with
  | nil => rfl
  | cons b bs =>
    rw [Format.accept, if_neg (by simp), C.feed_body_exact (by simp) (by simp)]
    simp

/-- **Decoding what was encoded.** -/
theorem feed_wire {fs : List (Frame β η)} (hv : ∀ f ∈ fs, C.Valid f.1 f.2.length) :
    C.feed (.head []) (C.wire fs) = (fs, .head []) := by
  induction fs with
  | nil => rfl
  | cons f fs ih =>
    rw [wire, List.flatMap_cons, C.feed_append, C.feed_encodeFrame (hv f (by simp))]
    have := ih fun g hg => hv g (by simp [hg])
    rw [wire] at this
    simp [this]

/-- Frames are known by their bytes. -/
theorem wire_inj {fs gs : List (Frame β η)} (hf : ∀ f ∈ fs, C.Valid f.1 f.2.length)
    (hg : ∀ g ∈ gs, C.Valid g.1 g.2.length) : C.wire fs = C.wire gs ↔ fs = gs := by
  refine ⟨?_, congrArg C.wire⟩
  intro heq
  have hfs := C.feed_wire hf
  rw [heq, C.feed_wire hg] at hfs
  exact (congrArg Prod.fst hfs).symm

theorem partBytes_step {p : Phase β η} (hp : p.WF C.toFormat) {b : β}
    (hr : (C.step p b).2 ≠ .refused) :
    C.wire (C.step p b).1 ++ C.partBytes (C.step p b).2 = C.partBytes p ++ [b] := by
  cases p with
  | head got =>
    simp only [Phase.WF] at hp
    simp only [Format.step] at hr ⊢
    split
    · simp [partBytes]
    · rename_i hlong
      rw [if_neg hlong] at hr
      have hlen : (got ++ [b]).length = C.headLen := by simp; omega
      cases hpar : C.parseHead (got ++ [b]) with
      | none => rw [hpar] at hr; exact absurd rfl hr
      | some hd =>
        obtain ⟨h, len⟩ := hd
        have henc := C.encode_parse _ h len hlen hpar
        simp only [Format.accept]
        split
        · subst len; simp [wire, encodeFrame, partBytes, henc]
        · simp [partBytes, henc]
  | body h len got =>
    simp only [Phase.WF] at hp
    simp only [Format.step]
    split
    · simp [partBytes, List.append_assoc]
    · have hlen : len = got.length + 1 := by omega
      simp [wire, encodeFrame, partBytes, hlen, List.append_assoc]
  | refused => exact absurd rfl hr

theorem refused_of_feed {p : Phase β η} (bs : List β) (h : (C.feed p bs).2 ≠ .refused) :
    p ≠ .refused := by
  rintro rfl
  simp at h

/-- **Encoding what was decoded.** The frames decoded, and the bytes of the frame the decoder
stopped in, are the stream. -/
theorem wire_of_feed {p : Phase β η} (hp : p.WF C.toFormat) (bs : List β)
    (hr : (C.feed p bs).2 ≠ .refused) :
    C.wire (C.feed p bs).1 ++ C.partBytes (C.feed p bs).2 = C.partBytes p ++ bs := by
  induction bs generalizing p with
  | nil => simp
  | cons b bs ih =>
    have hstep : (C.step p b).2 ≠ .refused := C.refused_of_feed bs hr
    have hrec := ih (C.wf_step hp b) hr
    have hb := C.partBytes_step hp hstep
    simp only [Format.feed, wire_append, List.append_assoc]
    rw [hrec, ← List.append_assoc, hb]
    simp

theorem valid_step {p : Phase β η} (hp : p.WF C.toFormat)
    (hpend : ∀ x ∈ p.pending, C.Valid x.1 x.2) (b : β) :
    (∀ f ∈ (C.step p b).1, C.Valid f.1 f.2.length) ∧
      ∀ x ∈ (C.step p b).2.pending, C.Valid x.1 x.2 := by
  cases p with
  | head got =>
    simp only [Phase.WF] at hp
    simp only [Format.step]
    split
    · simp [Phase.pending]
    · have hlen : (got ++ [b]).length = C.headLen := by simp; omega
      cases hpar : C.parseHead (got ++ [b]) with
      | none => simp [Phase.pending]
      | some hd =>
        obtain ⟨h, len⟩ := hd
        have hv := C.valid_parse _ h len hlen hpar
        simp only [Format.accept]
        split
        · subst len; simpa [Phase.pending] using hv
        · simpa [Phase.pending] using hv
  | body h len got =>
    simp only [Phase.WF] at hp
    have hv : C.Valid h len := hpend (h, len) (by simp [Phase.pending])
    simp only [Format.step]
    split
    · simpa [Phase.pending] using hv
    · have hlen : len = got.length + 1 := by omega
      simpa [Phase.pending, hlen] using hv
  | refused => simp [Format.step, Phase.pending]

/-- **Every head that is accepted is valid**, that of a frame and that of the frame the decoder
stops in. -/
theorem valid_feed {p : Phase β η} (hp : p.WF C.toFormat)
    (hpend : ∀ x ∈ p.pending, C.Valid x.1 x.2) (bs : List β) :
    (∀ f ∈ (C.feed p bs).1, C.Valid f.1 f.2.length) ∧
      ∀ x ∈ (C.feed p bs).2.pending, C.Valid x.1 x.2 := by
  induction bs generalizing p with
  | nil => simpa using hpend
  | cons b bs ih =>
    obtain ⟨hframes, hpend'⟩ := C.valid_step hp hpend b
    obtain ⟨hrest, hlast⟩ := ih (C.wf_step hp b) hpend'
    refine ⟨?_, hlast⟩
    intro f hf
    rcases List.mem_append.mp hf with hf | hf
    · exact hframes f hf
    · exact hrest f hf

end Codec

end Framing
