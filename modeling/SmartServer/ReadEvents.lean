import SmartServer.ReadLoop

/-!
# Read events one after the other

What `dealReadEvent_spec` says of one event, carried over a run of events. The unread bytes of
one event are in front of the next one, so the run is the decoder on the concatenated stream
(`readEvents_spec`), whatever the cuts.

Three results about the read loop follow.

* `inBounds_iff`: all accesses to node buffers stay inside them exactly when no byte follows an
  accepted head with `packetLen = -1`. The capacity of such a node is `(2 ^ 32 - 1) + 1`, which
  is `0` in 32 bits.
* `dealReadEvent_append`: two events in a row are one event.
* `encoder_decoder_agree`: the reader inverts `dealWriteEvent`, and the other way round.
-/

namespace SmartServer

open Framing

namespace TcpHandler

variable {L : IntLayout} {h₀ : TcpHandler} {vs : List NodeView} {ph : Phase UInt8 UInt32}

/-! ## Runs of events -/

/-- The nodes of a handler in phase `ph`: the settled ones, and the one it receives. -/
def partViews : Phase UInt8 UInt32 → List NodeView
  | .head _ => []
  | .body id len got => [(id, UInt32.ofNat len, UInt32.ofNat got.length, got)]
  | .refused => []

theorem Tracks.views_eq {h : TcpHandler} (ht : Tracks h vs ph) : h.views = vs ++ partViews ph := by
  cases ht with
  | idle _ => simp [partViews]
  | busy hf _ hrec =>
    rw [hf.views, partViews, hrec]
    simp [MsgNode.view]

theorem Outcome.views_eq {r : ReadResult} (ho : Outcome h₀ vs ph r) :
    r.handler.views = vs ++ partViews ph := by
  obtain ⟨-, ho⟩ := ho
  cases ph with
  | head got => simpa [partViews] using ho.2.2.views_eq
  | body id len got => exact ho.2.2.views_eq
  | refused => simpa [partViews] using ho.2

/-- The next event goes on where the last one stopped. -/
theorem Outcome.next {r : ReadResult} (ho : Outcome h₀ vs ph r)
    (hwf : ph.WF (packetCodec L).toFormat)
    (hph : ph ≠ .refused) (bytes : List UInt8) :
    Ends h₀ (vs ++ ((packetCodec L).feed ph bytes).1.map messageView)
      ((packetCodec L).feed ph bytes).2 ((packetCodec L).Throughout Roomy ph bytes)
      (dealReadEvent L mallocOk 1 r.handler (r.inputBuf ++ bytes)) := by
  obtain ⟨hconn, ho⟩ := ho
  have hsame : ∀ {vs' ph' room} {x : Except Fault ReadResult},
      Ends r.handler vs' ph' room x → Ends h₀ vs' ph' room x := by
    intro vs' ph' room x hx
    cases x with
    | error f => exact hx
    | ok r' => exact ⟨hx.1, hconn.trans hx.2.1, hx.2.2⟩
  cases ph with
  | head got =>
    obtain ⟨-, hbuf, ht⟩ := ho
    have hshort : ([] : List UInt8).length + got.length < (packetCodec L).headLen := by
      simpa [Phase.WF] using hwf
    have hthrough : (packetCodec L).Throughout Roomy (.head []) got :=
      (packetCodec L).throughout_head (fun _ x hx => by cases hx) hshort.le
    have hev := dealReadEvent_spec L ht (got ++ bytes)
    rw [Format.feed_append, (packetCodec L).feed_head_short hshort, Format.throughout_append,
      (packetCodec L).feed_head_short hshort] at hev
    rw [hbuf]
    exact hsame (by simpa [hthrough] using hev)
  | body id len got =>
    obtain ⟨-, hbuf, ht⟩ := ho
    rw [hbuf]
    exact hsame (dealReadEvent_spec L ht bytes)
  | refused => exact absurd rfl hph

/-- **A run of events is the decoder on their concatenation.** -/
theorem readEvents_spec (events : List (List UInt8)) {r : ReadResult} (ho : Outcome h₀ vs ph r)
    (hwf : ph.WF (packetCodec L).toFormat) :
    Ends h₀ (vs ++ ((packetCodec L).feed ph events.flatten).1.map messageView)
      ((packetCodec L).feed ph events.flatten).2
      ((packetCodec L).Throughout Roomy ph events.flatten) (readEvents L mallocOk r events) := by
  induction events generalizing r vs ph with
  | nil => exact ⟨trivial, by simpa using ho⟩
  | cons bytes events ih =>
    by_cases hph : ph = .refused
    · subst hph
      have hsuccess : r.success = 0 := ho.2.1
      rw [readEvents, if_pos hsuccess, Format.feed_refused]
      exact ⟨Format.throughout_refused _ (fun x hx => by cases hx) _, by simpa using ho⟩
    have hsuccess : r.success ≠ 0 := by
      cases ph with
      | head got => rw [ho.2.1]; decide
      | body id len got => rw [ho.2.1]; decide
      | refused => exact absurd rfl hph
    rw [readEvents, if_neg hsuccess, List.flatten_cons, Format.feed_append,
      Format.throughout_append]
    have hev := ho.next hwf hph bytes
    cases hrun : dealReadEvent L mallocOk 1 r.handler (r.inputBuf ++ bytes) with
    | error f =>
      rw [hrun] at hev
      exact ⟨hev.1, fun hroom => hev.2 hroom.1⟩
    | ok r' =>
      rw [hrun] at hev
      obtain ⟨hroom, ho'⟩ := hev
      have hrest := ih ho' ((packetCodec L).wf_feed hwf bytes)
      simp only [bind, Except.bind]
      simpa [hroom] using hrest

/-- A connection nothing has arrived on. -/
def fresh (connId : UInt64) (bev : Option ℕ) : ReadResult := ⟨.new connId bev, [], 1⟩

theorem outcome_fresh (connId : UInt64) (bev : Option ℕ) :
    Outcome (.new connId bev) [] (.head []) (fresh connId bev) :=
  ⟨.refl _, rfl, rfl, tracks_new connId bev⟩

/-- The run from a fresh connection. -/
theorem readEvents_fresh (L : IntLayout) (connId : UInt64) (bev : Option ℕ)
    (events : List (List UInt8)) :
    Ends (.new connId bev) ((decode L events.flatten).1.map messageView)
      (decode L events.flatten).2 ((packetCodec L).Throughout Roomy (.head []) events.flatten)
      (readEvents L mallocOk (fresh connId bev) events) := by
  simpa [decode] using readEvents_spec events (L := L) (outcome_fresh connId bev)
    (packetCodec L).wf_start

/-! ## The nodes of a run -/

/-- Fully received nodes that can be copied, holding the messages `ms`. -/
structure Settled (ns : List MsgNode) (ms : List Message) : Prop where
  message : ns.map MsgNode.message = ms
  copyable : ∀ n ∈ ns, n.Copyable
  received : ∀ n ∈ ns, n.isReceived

/-- A list that looks like the messages `ms` and an unfinished node is that. -/
theorem settled_of_views {ns : List MsgNode} {ms : List Message}
    (hv : ns.map MsgNode.view = ms.map messageView ++ partViews ph)
    (hms : ∀ m ∈ ms, m.2.length < 2 ^ 32) (hpend : ∀ x ∈ ph.pending, x.2 < 2 ^ 32)
    (hwf : ph.WF (packetCodec L).toFormat) :
    ∃ done part, ns = done ++ part ∧ Settled done ms ∧ ∀ n ∈ part, n.isReceived = false := by
  obtain ⟨done, part, rfl, hdone, hpart⟩ := List.map_eq_append_iff.mp hv
  refine ⟨done, part, rfl, ?_, ?_⟩
  · clear hv
    induction ms generalizing done with
    | nil =>
      obtain rfl : done = [] := by simpa using hdone
      exact ⟨rfl, by simp, by simp⟩
    | cons m ms ih =>
      obtain ⟨n, ns, rfl, hn, hns⟩ := List.map_eq_cons_iff.mp hdone
      obtain ⟨hcopy, hrec, hmsg⟩ := MsgNode.of_view hn (hms m (by simp))
      obtain ⟨hmsgs, hcopies, hrecs⟩ := ih (fun m' hm' => hms m' (by simp [hm'])) ns hns
      refine ⟨by simp [hmsg, hmsgs], ?_, ?_⟩
      · simpa using ⟨hcopy, hcopies⟩
      · simpa using ⟨hrec, hrecs⟩
  · intro n hn
    cases ph with
    | body id len got =>
      have hlt : len < 2 ^ 32 := hpend (id, len) (by simp [Phase.pending])
      have hgot : got.length < len := hwf
      have hview : n.view ∈ part.map MsgNode.view := List.mem_map_of_mem hn
      rw [hpart, partViews, List.mem_singleton] at hview
      simp only [MsgNode.view, Prod.mk.injEq] at hview
      obtain ⟨-, hlen, hoff, -⟩ := hview
      rw [MsgNode.isReceived, hlen, hoff, decide_eq_false_iff_not, ge_iff_le,
        UInt32.le_iff_toNat_le, UInt32.toNat_ofNat_of_lt' hlt,
        UInt32.toNat_ofNat_of_lt' (hgot.trans hlt)]
      omega
    | head got => simp_all [partViews]
    | refused => simp_all [partViews]

/-- The list after a run is the decoder's packets, and at most an unfinished node. -/
theorem Outcome.settled {stream : List UInt8} {r : ReadResult}
    (ho : Outcome h₀ ((decode L stream).1.map messageView) (decode L stream).2 r) :
    ∃ done part, r.handler.m_listMsgs.values = done ++ part ∧
      Settled done (decode L stream).1 ∧ ∀ n ∈ part, n.isReceived = false :=
  settled_of_views ho.views_eq (fun m hm => ((valid_decode L stream).1 m hm).2)
    (fun x hx => ((valid_decode L stream).2 x hx).2) (wf_decode L stream)

/-! ## Accesses to node buffers -/

/-- The reads of the run store inside the node buffers, and so do the copies of a node that has
been received: the first one, and the copies of the copies. -/
def InBounds (L : IntLayout) (connId : UInt64) (bev : Option ℕ) (events : List (List UInt8)) :
    Prop :=
  readEvents L mallocOk (fresh connId bev) events ≠ .error .outOfBounds ∧
    ∀ r, readEvents L mallocOk (fresh connId bev) events = .ok r →
      ∀ n ∈ r.handler.m_listMsgs.values, n.isReceived = true → ∃ c, ∀ node,
        MsgNode.copy .block n = .ok c ∧ MsgNode.assign .block node n = .ok c ∧
          MsgNode.copy .block c = .ok c ∧ MsgNode.assign .block node c = .ok c

/-- **Buffer accesses.** Every access stays inside its buffer if and only if no byte follows an
accepted head that announces `2 ^ 32 - 1` bytes. -/
theorem inBounds_iff (L : IntLayout) (connId : UInt64) (bev : Option ℕ)
    (events : List (List UInt8)) :
    InBounds L connId bev events ↔
      (packetCodec L).Throughout Roomy (.head []) events.flatten := by
  have hrun := readEvents_fresh L connId bev events
  constructor
  · rintro ⟨hne, -⟩
    cases hr : readEvents L mallocOk (fresh connId bev) events with
    | error f =>
      rw [hr] at hrun hne
      exact absurd (congrArg Except.error hrun.1) hne
    | ok r =>
      rw [hr] at hrun
      exact hrun.1
  · intro hroom
    refine ⟨?_, ?_⟩
    · intro herr
      rw [herr] at hrun
      exact hrun.2 hroom
    · intro r hr n hn hrec
      rw [hr] at hrun
      obtain ⟨done, part, hsplit, hdone, hpart⟩ := hrun.2.settled
      rw [hsplit, List.mem_append] at hn
      rcases hn with hn | hn
      · have hcopy := hdone.copyable n hn
        have hagain := MsgNode.copyInto_ok (MsgNode.copyable_copied hcopy)
        rw [MsgNode.copied_copied] at hagain
        exact ⟨n.copied hcopy, fun node =>
          ⟨MsgNode.copyInto_ok hcopy, MsgNode.copyInto_ok hcopy, hagain, hagain⟩⟩
      · rw [hpart n hn] at hrec
        cases hrec

/-- A head with `packetLen = -1`, and one body byte. -/
theorem wrapped_length_outOfBounds :
    ¬ InBounds .little 1 none [[0, 0, 0, 0, 255, 255, 255, 255, 65]] :=
  fun h => h.1 (by decide)

/-! ## Two events are one event -/

/-- Where in its stream a handler stands, read off the handler. -/
def phase (h : TcpHandler) : Phase UInt8 UInt32 :=
  match h.lastNode with
  | .ok (_, n) =>
    if n.m_nMsgLen ≤ n.m_nOffSet then .head []
    else .body n.m_nMsgId n.m_nMsgLen.toNat n.received
  | .error _ => .head []

/-- `m_pLastNode` is `NULL` or the last node of the list, and a node that is being received into
has its buffer. -/
structure CursorLast (h : TcpHandler) : Prop where
  last : ∀ p, h.m_pLastNode = some p → ∃ init n, h.m_listMsgs.cells = init ++ [(p, n)]
  allocated : ∀ p n, h.lastNode = .ok (p, n) → n.m_nOffSet < n.m_nMsgLen → n.m_pMsg ≠ none

/-- Such a handler stands in its phase. -/
theorem CursorLast.tracks {h : TcpHandler} (hc : h.CursorLast)
    (hpend : ∀ x ∈ h.phase.pending, x.2 ≠ MsgNode.wrapLen.toNat) :
    ∃ vs, Tracks h vs h.phase := by
  cases hcur : h.m_pLastNode with
  | none =>
    have hphase : h.phase = .head [] := by simp [phase, lastNode, hcur]
    rw [hphase]
    exact ⟨_, .idle fun p hp => by rw [hcur] at hp; cases hp⟩
  | some p =>
    obtain ⟨init, n, hcells⟩ := hc.last p hcur
    have hlast : h.lastNode = .ok (p, n) := by
      simp [lastNode, hcur, OwnedList.get?_last hcells]
    by_cases hle : n.m_nMsgLen ≤ n.m_nOffSet
    · have hphase : h.phase = .head [] := by simp [phase, hlast, hle]
      rw [hphase]
      refine ⟨_, .idle ?_⟩
      intro q hq
      obtain rfl : p = q := by rw [hcur] at hq; exact Option.some.inj hq
      exact ⟨n, OwnedList.get?_last hcells, hle⟩
    · have hphase : h.phase = .body n.m_nMsgId n.m_nMsgLen.toNat n.received := by
        simp [phase, hlast, hle]
      rw [hphase] at hpend ⊢
      have hlt : n.m_nOffSet < n.m_nMsgLen := UInt32.not_le.mp hle
      have hnat := UInt32.lt_iff_toNat_lt.mp hlt
      obtain ⟨blk, hblk⟩ := Option.ne_none_iff_exists'.mp (hc.allocated p n hlast hlt)
      have hw : n.m_nMsgLen ≠ MsgNode.wrapLen := fun he =>
        hpend (n.m_nMsgId, n.m_nMsgLen.toNat) (by simp [Phase.pending]) (by rw [he])
      have hcap := MsgNode.length_buffer hblk hw
      refine ⟨_, .busy ⟨hcells, hcur, hblk⟩ hlt ?_⟩
      rw [MsgNode.received, hblk, Option.getD_some, List.length_take]
      omega

theorem wf_phase (h : TcpHandler) (L : IntLayout) :
    h.phase.WF (packetCodec L).toFormat := by
  unfold phase
  split
  · rename_i p n _
    split
    · exact (packetCodec L).wf_start
    · rename_i hle
      have hnat := UInt32.lt_iff_toNat_lt.mp (UInt32.not_le.mp hle)
      refine lt_of_le_of_lt ?_ hnat
      rw [MsgNode.received]
      exact List.length_take_le _ _
  · exact (packetCodec L).wf_start

/-- Two results that end in the same place cannot be told apart. -/
theorem Outcome.agree {r r' : ReadResult} (ho : Outcome h₀ vs ph r) (ho' : Outcome h₀ vs ph r') :
    r.success = r'.success ∧ r.handler.views = r'.handler.views ∧
      (r.success ≠ 0 → r.inputBuf = r'.inputBuf) := by
  refine ⟨?_, ho.views_eq.trans ho'.views_eq.symm, ?_⟩
  · cases ph <;> exact ho.2.1.trans ho'.2.1.symm
  · intro hne
    cases ph with
    | head got => exact ho.2.2.1.trans ho'.2.2.1.symm
    | body id len got => exact ho.2.2.1.trans ho'.2.2.1.symm
    | refused => exact absurd ho.2.1 hne

theorem Outcome.refused_iff {r : ReadResult} (ho : Outcome h₀ vs ph r) :
    r.success = 0 ↔ ph = .refused := by
  cases ph with
  | head got => rw [ho.2.1]; simp
  | body id len got => rw [ho.2.1]; simp
  | refused => simp [ho.2.1]

theorem ne_wrapLen_of_lt {len : ℕ} (h : len < 2 ^ 31) : len ≠ MsgNode.wrapLen.toNat := by
  rintro rfl
  exact absurd h (by decide)

/-- Lengths that are not negative as `int`s leave room for every body byte. -/
theorem roomy_of_announced {bs : List UInt8} (hwf : ph.WF (packetCodec L).toFormat)
    (hlen : ∀ x ∈ (packetCodec L).announced ph bs, x.2 < 2 ^ 31) :
    (packetCodec L).Throughout Roomy ph bs :=
  (packetCodec L).throughout_of_announced (P := (· ≠ MsgNode.wrapLen.toNat)) hwf
    fun x hx => ne_wrapLen_of_lt (hlen x hx)

/-- An event over bytes whose announced lengths are not negative ends as the decoder does. -/
theorem dealReadEvent_ok {h : TcpHandler} (ht : Tracks h vs h.phase) (buf : List UInt8)
    (hlen : ∀ x ∈ (packetCodec L).announced h.phase buf, x.2 < 2 ^ 31) :
    ∃ r, dealReadEvent L mallocOk 1 h buf = .ok r ∧
      Outcome h (vs ++ ((packetCodec L).feed h.phase buf).1.map messageView)
        ((packetCodec L).feed h.phase buf).2 r := by
  have hroom := roomy_of_announced (h.wf_phase L) hlen
  have hev := dealReadEvent_spec L ht buf
  cases hrun : dealReadEvent L mallocOk 1 h buf with
  | error f =>
    rw [hrun] at hev
    exact absurd hroom hev.2
  | ok r =>
    rw [hrun] at hev
    exact ⟨r, rfl, hev.2⟩

/-- **Incremental decoding.** A read event over `b₁` and one over `b₂` are one read event over
both: the same list of nodes, the same success, and the same unread bytes. If the first of the
two fails, so does the one over both, with the same nodes. -/
theorem dealReadEvent_append (L : IntLayout) (h : TcpHandler) (hc : h.CursorLast)
    (residue b₁ b₂ : List UInt8)
    (hlen : ∀ x ∈ (packetCodec L).announced h.phase (residue ++ (b₁ ++ b₂)), x.2 < 2 ^ 31) :
    ∃ r₁ r₁₂, dealReadEvent L mallocOk 1 h (residue ++ b₁) = .ok r₁ ∧
      dealReadEvent L mallocOk 1 h (residue ++ (b₁ ++ b₂)) = .ok r₁₂ ∧
      (r₁.success = 0 → r₁₂.success = 0 ∧ r₁₂.handler.views = r₁.handler.views) ∧
      (r₁.success ≠ 0 → ∃ r₂,
        dealReadEvent L mallocOk 1 r₁.handler (r₁.inputBuf ++ b₂) = .ok r₂ ∧
        r₂.success = r₁₂.success ∧ r₂.handler.views = r₁₂.handler.views ∧
        (r₂.success ≠ 0 → r₂.inputBuf = r₁₂.inputBuf)) := by
  have hwf := h.wf_phase L
  rw [← List.append_assoc] at hlen ⊢
  have hpend : ∀ x ∈ h.phase.pending, x.2 ≠ MsgNode.wrapLen.toNat := fun x hx =>
    ne_wrapLen_of_lt (hlen x (((packetCodec L).pending_prefix_announced hwf _).subset hx))
  obtain ⟨vs, ht⟩ := hc.tracks hpend
  obtain ⟨r₁, hrun₁, ho₁⟩ := dealReadEvent_ok (L := L) ht (residue ++ b₁)
    fun x hx => hlen x (((packetCodec L).announced_append hwf _ b₂).subset hx)
  obtain ⟨r₁₂, hrun₁₂, ho₁₂⟩ := dealReadEvent_ok (L := L) ht _ hlen
  rw [Format.feed_append] at ho₁₂
  refine ⟨r₁, r₁₂, hrun₁, hrun₁₂, ?_, ?_⟩
  · intro hzero
    have href := ho₁.refused_iff.mp hzero
    rw [href] at ho₁ ho₁₂
    rw [Format.feed_refused, List.append_nil] at ho₁₂
    exact ⟨ho₁₂.2.1, ho₁₂.2.2.trans ho₁.2.2.symm⟩
  · intro hsucc
    have hne : ((packetCodec L).feed h.phase (residue ++ b₁)).2 ≠ .refused :=
      fun href => hsucc (ho₁.refused_iff.mpr href)
    have hev := ho₁.next ((packetCodec L).wf_feed hwf _) hne b₂
    rw [List.append_assoc, ← List.map_append] at hev
    have hroom := roomy_of_announced hwf hlen
    rw [Format.throughout_append] at hroom
    cases hrun₂ : dealReadEvent L mallocOk 1 r₁.handler (r₁.inputBuf ++ b₂) with
    | error f =>
      rw [hrun₂] at hev
      exact absurd hroom.2 hev.2
    | ok r₂ =>
      rw [hrun₂] at hev
      exact ⟨r₂, rfl, hev.2.agree ho₁₂⟩

/-- In the middle of a body: the first event ends the body and begins a head. -/
theorem dealReadEvent_append_inBody :
    ∃ r₁ r₁₂,
      dealReadEvent .little mallocOk 1 ((TcpHandler.new 1 none).insertNode .block 7 2)
        ([65] ++ [66, 3]) = .ok r₁ ∧
      dealReadEvent .little mallocOk 1 ((TcpHandler.new 1 none).insertNode .block 7 2)
        ([65] ++ ([66, 3] ++ [0, 0, 0, 1, 0, 0, 0])) = .ok r₁₂ ∧
      (r₁.success = 0 → r₁₂.success = 0 ∧ r₁₂.handler.views = r₁.handler.views) ∧
      (r₁.success ≠ 0 → ∃ r₂,
        dealReadEvent .little mallocOk 1 r₁.handler
          (r₁.inputBuf ++ [0, 0, 0, 1, 0, 0, 0]) = .ok r₂ ∧
        r₂.success = r₁₂.success ∧ r₂.handler.views = r₁₂.handler.views ∧
        (r₂.success ≠ 0 → r₂.inputBuf = r₁₂.inputBuf)) := by
  refine dealReadEvent_append .little _ ⟨?_, ?_⟩ _ _ _ (by decide)
  · intro p hp
    obtain rfl : 0 = p := Option.some.inj hp
    exact ⟨[], _, rfl⟩
  · intro p n hn hlt
    obtain ⟨-, rfl⟩ := Prod.mk.inj (Except.ok.inj hn)
    exact Option.some_ne_none _

/-! ## Reading what was written -/

theorem dealWriteEvent_eq (L : IntLayout) (output : List UInt8) (m : Message) :
    dealWriteEvent L true output m.1 m.2 = output ++ (packetCodec L).encodeFrame m := rfl

theorem writeEvents_eq (L : IntLayout) (ms : List Message) :
    writeEvents L ms = (packetCodec L).wire ms := by
  have hfold : ∀ output : List UInt8,
      ms.foldl (fun output m => dealWriteEvent L true output m.1 m.2) output =
        output ++ (packetCodec L).wire ms := by
    induction ms with
    | nil => simp
    | cons m ms ih =>
      intro output
      rw [List.foldl_cons, ih, dealWriteEvent_eq, List.append_assoc]
      rfl
  exact hfold []

/-- What was written is read back, however it is cut. -/
theorem readEvents_writeEvents (L : IntLayout) (connId : UInt64) (bev : Option ℕ)
    {ms : List Message} (hms : ∀ m ∈ ms, m.1 ≤ MAXMESSAGEID ∧ m.2.length < 2 ^ 31)
    {events : List (List UInt8)} (hev : events.flatten = writeEvents L ms) :
    ∃ r, readEvents L mallocOk (fresh connId bev) events = .ok r ∧ r.success = 1 ∧
      r.inputBuf = [] ∧ Settled r.handler.m_listMsgs.values ms := by
  have hvalid : ∀ m ∈ ms, m.1 ≤ MAXMESSAGEID ∧ m.2.length < 2 ^ 32 := fun m hm =>
    ⟨(hms m hm).1, (hms m hm).2.trans (by decide)⟩
  have hfeed : (packetCodec L).feed (.head []) events.flatten = (ms, .head []) := by
    rw [hev, writeEvents_eq, (packetCodec L).feed_wire hvalid]
  have hdecode : decode L events.flatten = (ms, .head []) := hfeed
  have hroom : (packetCodec L).Throughout Roomy (.head []) events.flatten := by
    apply roomy_of_announced (packetCodec L).wf_start
    intro x hx
    simp only [Format.announced, hfeed, Phase.pending, List.append_nil, List.mem_map] at hx
    obtain ⟨m, hm, rfl⟩ := hx
    exact (hms m hm).2
  have hrun := readEvents_fresh L connId bev events
  cases hr : readEvents L mallocOk (fresh connId bev) events with
  | error f =>
    rw [hr] at hrun
    exact absurd hroom hrun.2
  | ok r =>
    rw [hr] at hrun
    obtain ⟨done, part, hsplit, hdone, hpart⟩ := hrun.2.settled
    have hviews := hrun.2.views_eq
    rw [hdecode] at hrun hdone hviews
    obtain ⟨-, hsucc, hbuf, -⟩ := hrun.2
    refine ⟨r, rfl, hsucc, hbuf, ?_⟩
    have hlen := congrArg List.length hviews
    have hdlen := congrArg List.length hdone.message
    simp only [views, hsplit, partViews, List.length_map, List.length_append,
      List.append_nil] at hlen hdlen
    obtain rfl : part = [] := List.eq_nil_of_length_eq_zero (by omega)
    rw [hsplit, List.append_nil]
    exact hdone

/-- What was read can be written again: nothing of the stream is lost. -/
theorem writeEvents_readEvents (L : IntLayout) (connId : UInt64) (bev : Option ℕ)
    {events : List (List UInt8)} {r : ReadResult}
    (hr : readEvents L mallocOk (fresh connId bev) events = .ok r) (hsucc : r.success = 1)
    (hbuf : r.inputBuf = []) (hrec : ∀ n ∈ r.handler.m_listMsgs.values, n.isReceived = true) :
    writeEvents L (r.handler.m_listMsgs.values.map MsgNode.message) = events.flatten := by
  have hrun := readEvents_fresh L connId bev events
  rw [hr] at hrun
  obtain ⟨done, part, hsplit, hdone, hpart⟩ := hrun.2.settled
  have hnone : part = [] := List.eq_nil_iff_forall_not_mem.mpr fun n hn => by
    have := hrec n (by rw [hsplit]; exact List.mem_append_right _ hn)
    rw [hpart n hn] at this
    cases this
  rw [hnone, List.append_nil] at hsplit
  rw [hsplit, hdone.message, writeEvents_eq]
  have hviews := hrun.2.views_eq
  have hwire := (packetCodec L).wire_of_feed (packetCodec L).wf_start events.flatten
  have hphase : (decode L events.flatten).2 = .head [] := by
    cases hph : (decode L events.flatten).2 with
    | head got =>
      rw [hph] at hrun
      rw [← hrun.2.2.2.1, hbuf]
    | body id len got =>
      have hlen := congrArg List.length hviews
      have hdlen := congrArg List.length hdone.message
      simp only [views, hsplit, hph, partViews, List.length_map, List.length_append,
        List.length_singleton] at hlen hdlen
      omega
    | refused =>
      have hzero := hrun.2.refused_iff.mpr hph
      rw [hsucc] at hzero
      cases hzero
  rw [decode] at hphase
  rw [hphase] at hwire
  simpa [Codec.partBytes, decode] using hwire (by simp)

/-- **Encoder and decoder agree.** Messages with ids up to `MAXMESSAGEID` that `dealWriteEvent`
has written are read back by a fresh handler as fully received nodes, one for each, under any
cut into events; and a stream that was read without residue is what `dealWriteEvent` makes of
the nodes. -/
theorem encoder_decoder_agree (L : IntLayout) (connId : UInt64) (bev : Option ℕ) :
    (∀ (ms : List Message) (events : List (List UInt8)),
      (∀ m ∈ ms, m.1 ≤ MAXMESSAGEID ∧ m.2.length < 2 ^ 31) →
      events.flatten = writeEvents L ms →
      ∃ r, readEvents L mallocOk (fresh connId bev) events = .ok r ∧ r.success = 1 ∧
        r.inputBuf = [] ∧
        List.Forall₂ (fun n m => n.isReceived = true ∧ n.m_nMsgId = m.1 ∧
          n.m_nMsgLen.toNat = m.2.length ∧ n.payload = m.2) r.handler.m_listMsgs.values ms) ∧
    ∀ (events : List (List UInt8)) (r : ReadResult),
      readEvents L mallocOk (fresh connId bev) events = .ok r → r.success = 1 →
      r.inputBuf = [] → (∀ n ∈ r.handler.m_listMsgs.values, n.isReceived = true) →
      writeEvents L (r.handler.m_listMsgs.values.map MsgNode.message) = events.flatten := by
  refine ⟨?_, fun events r hr hsucc hbuf hrec =>
    writeEvents_readEvents L connId bev hr hsucc hbuf hrec⟩
  intro ms events hms hev
  obtain ⟨r, hr, hsucc, hbuf, hset⟩ := readEvents_writeEvents L connId bev hms hev
  refine ⟨r, hr, hsucc, hbuf, ?_⟩
  rw [← hset.message, List.forall₂_map_right_iff, List.forall₂_same]
  exact fun n hn =>
    ⟨hset.received n hn, rfl, (MsgNode.length_payload (hset.copyable n hn)).symm, rfl⟩

/-- Two messages, the second one without body, cut inside the first head and the first body. -/
theorem encoder_decoder_agree_cut :
    ∃ r, readEvents .little mallocOk (fresh 1 none)
        [[0, 0, 0, 0, 2], [0, 0, 0, 65], [66, 0, 4, 0, 0, 0, 0, 0, 0]] = .ok r ∧
      r.success = 1 ∧ r.inputBuf = [] ∧
      List.Forall₂ (fun n m => n.isReceived = true ∧ n.m_nMsgId = m.1 ∧
        n.m_nMsgLen.toNat = m.2.length ∧ n.payload = m.2) r.handler.m_listMsgs.values
        [(0, [65, 66]), (1024, [])] :=
  (encoder_decoder_agree .little 1 none).1 [(0, [65, 66]), (1024, [])] _ (by decide) (by decide)

end TcpHandler

end SmartServer
