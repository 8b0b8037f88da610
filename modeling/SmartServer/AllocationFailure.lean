import SmartServer.ListShape
import SmartServer.ReadCounters

/-!
# When `malloc` fails

The constructors and the assignment of `MsgNode` return when `malloc` gives `NULL`, and nobody
looks whether they did. A node that is built like this has no buffer, and in its counters is what
was there before; the read loop, `isReceived`, the copies and the delete go on with it.

**Theorem (`intact_iff`).** Whatever the peer sends, and whatever `malloc` gives, the messages that
are inserted are frames of the stream, received nodes are only removed when they have been copied
intact, nothing is read into a node without buffer, and a failure in a read is reported, if and only
if no constructor fails in a read, and no copy fails in a push, unless it is that of a message with
id `0` and without body, which is what a node holds whose copy has failed.

* A constructor that fails ends its read at once: in a fault, or in `success = 1`
  (`readPass_null`). So a read that reports `success = 0` has had all its blocks.
* A read that gets all its blocks is the read without failures (`dealReadEvent_eq_of_allocates`).
* A copy that fails leaves an empty node, whatever was to be copied (`copyTwice`).
-/

namespace SmartServer

open Framing TcpHandler

namespace TcpHandler

variable {L : IntLayout} {malloc : ℕ → Malloc} {h : TcpHandler} {vs : List NodeView}
  {ph : Phase UInt8 UInt32} {s : ReadState}

/-! ## A pass in which a constructor fails -/

/-- A head is accepted in the pass from `s`, so that a node is built. -/
structure Builds (L : IntLayout) (s : ReadState) : Prop where
  buffered : 0 < s.inputLen
  test : s.handler.expectsHead = .ok true
  whole : PACKETHEADLEN ≤ s.inputLen
  accepted : (headOf L s.inputBuf).refused = false

/-- A pass that gets its block, or does not need one, is the pass without failures. -/
theorem readPass_congr (hok : Builds L s → malloc s.handler.m_listMsgs.next = .block) :
    readPass L malloc 1 s = readPass L mallocOk 1 s := by
  by_cases hpos : s.inputLen > 0
  · rw [readPass, readPass, if_pos hpos, if_pos hpos]
    cases htest : s.handler.expectsHead with
    | error f => rfl
    | ok isHead =>
      cases isHead with
      | false => rfl
      | true =>
        have hhead : readHead L malloc 1 s = readHead L mallocOk 1 s := by
          by_cases hshort : s.inputLen < PACKETHEADLEN
          · rw [readHead_short hshort, readHead_short hshort]
          have hle : PACKETHEADLEN ≤ s.inputLen := not_lt.mp hshort
          cases hacc : (headOf L s.inputBuf).refused with
          | true => rw [readHead_refused hle hacc, readHead_refused hle hacc]
          | false =>
            rw [readHead_accepted hle hacc, readHead_accepted hle hacc,
              hok ⟨hpos, htest, hle, hacc⟩]
            rfl
        simp only [bind, Except.bind, if_true, hhead]
  · rw [readPass, readPass, if_neg hpos, if_neg hpos]

/-- `tcpRead` into a node without buffer: even the terminator has no place. -/
theorem tcpRead_unallocated {p : ℕ} {n : MsgNode} (hl : s.handler.lastNode = .ok (p, n))
    (hnull : n.m_pMsg = none) (hbuf : s.inputBuf ≠ []) :
    tcpRead s = .error .nullDeref ∨ tcpRead s = .error .assertion := by
  by_cases hoff : n.m_nMsgLen ≥ n.m_nOffSet
  · refine .inl ?_
    by_cases hdata : s.inputBuf.take (n.m_nMsgLen - n.m_nOffSet).toNat = []
    · have hzero : (n.m_nMsgLen - n.m_nOffSet).toNat = 0 := by
        rcases List.take_eq_nil_iff.mp hdata with hzero | hnil
        · exact hzero
        · exact absurd hnil hbuf
      have heq : n.m_nMsgLen = n.m_nOffSet := by
        rw [UInt32.toNat_sub_of_le _ _ hoff] at hzero
        have := UInt32.le_iff_toNat_le.mp hoff
        exact UInt32.toNat_inj.mp (by omega)
      have hend : n.m_nOffSet + UInt32.ofNat 0 ≥ n.m_nMsgLen := by
        rw [heq]
        simp
      have hterm : ∀ m : MsgNode, m.m_pMsg = none →
          m.store n.m_nMsgLen.toNat [0] = .error .nullDeref := by
        intro m hm
        rw [MsgNode.store_null hm, if_neg (List.cons_ne_nil _ _)]
      simp only [tcpRead, hl, bind, Except.bind, if_pos hoff, buffereventRead, hdata,
        MsgNode.store_null hnull, if_true, List.length_nil, if_pos hend]
      rw [hterm { n with m_nOffSet := n.m_nOffSet + UInt32.ofNat 0 } hnull]
    · simp only [tcpRead, hl, bind, Except.bind, if_pos hoff, buffereventRead,
        MsgNode.store_null hnull, if_neg hdata]
  · refine .inr ?_
    simp only [tcpRead, hl, bind, Except.bind, if_neg hoff]
    rfl

/-- **A constructor that fails ends the read**, in a fault or in `success = 1`. -/
theorem readPass_null (hlen : s.inputLen = s.inputBuf.length) (hb : Builds L s)
    (hnull : malloc s.handler.m_listMsgs.next ≠ .block) :
    readPass L malloc 1 s = .error .nullDeref ∨ readPass L malloc 1 s = .error .assertion ∨
      ∃ r, readPass L malloc 1 s = .ok (.leave r) ∧ r.success = 1 := by
  obtain ⟨hpos, htest, hle, hacc⟩ := hb
  obtain ⟨junk, hm⟩ : ∃ junk, malloc s.handler.m_listMsgs.next = .null junk := by
    cases hm : malloc s.handler.m_listMsgs.next with
    | block => exact absurd hm hnull
    | null junk => exact ⟨junk, rfl⟩
  set id := (headOf L s.inputBuf).packetID.toUInt32
  set len := (headOf L s.inputBuf).packetLen.toUInt32
  set s' : ReadState := ⟨s.handler.insertNode (.null junk) id len,
    s.inputBuf.drop PACKETHEADLEN, sizeSub s.inputLen PACKETHEADLEN⟩ with hs'
  have hrun : readPass L malloc 1 s = readBody 1 s' := by
    rw [readPass, if_pos hpos, htest]
    simp only [bind, Except.bind, if_true, readHead_accepted hle hacc, hm]
    rfl
  rw [hrun, readBody]
  by_cases hzero : s'.inputLen ≤ 0
  · rw [if_pos hzero]
    exact .inr (.inr ⟨_, rfl, rfl⟩)
  · rw [if_neg hzero]
    have hbuf : s'.inputBuf ≠ [] := by
      intro hnil
      apply hzero
      have hdrop := congrArg List.length hnil
      simp only [hs', List.length_drop, List.length_nil] at hdrop
      rw [hs']
      show sizeSub s.inputLen PACKETHEADLEN ≤ 0
      rw [sizeSub_of_le hle]
      omega
    have hlast : s'.handler.lastNode =
        .ok (s.handler.m_listMsgs.next, MsgNode.new (.null junk) id len) := by
      have hcells : s'.handler.m_listMsgs.cells =
        s.handler.m_listMsgs.cells ++ [(s.handler.m_listMsgs.next, .new (.null junk) id len)] := rfl
      have hcur : s'.handler.m_pLastNode = some s.handler.m_listMsgs.next := rfl
      simp [lastNode, hcur, OwnedList.get?_last hcells]
    rcases tcpRead_unallocated hlast rfl hbuf with h | h
    · exact .inl (by rw [h]; rfl)
    · exact .inr (.inl (by rw [h]; rfl))

/-! ## The nodes of a read -/

/-- Where a handler stands that can read on, read off the handler. -/
theorem Tracks.phase_eq (ht : Tracks h vs ph) : ph = h.phase := by
  cases ht with
  | idle hi =>
    cases hp : h.m_pLastNode with
    | none => simp [phase, lastNode, hp]
    | some p =>
      obtain ⟨n, hn, hle⟩ := hi p hp
      simp [phase, lastNode, hp, hn, hle]
  | busy hf hlt _ =>
    rw [phase, hf.lastNode]
    simp only [if_neg (UInt32.not_le.mpr hlt)]

theorem length_partViews_eq (ph : Phase UInt8 UInt32) :
    (partViews ph).length = ph.pending.length := by
  cases ph <;> rfl

/-- The read of `buf` builds a node at address `p`: one node for each head that is accepted. -/
def Constructs (L : IntLayout) (h : TcpHandler) (buf : List UInt8) (p : ℕ) : Prop :=
  h.m_listMsgs.next ≤ p ∧
    p + h.phase.pending.length <
      h.m_listMsgs.next + ((packetCodec L).announced h.phase buf).length

/-- A handler that can read on gets `NULL` for one of the nodes it builds. -/
def Fails (L : IntLayout) (malloc : ℕ → Malloc) (h : TcpHandler) (buf : List UInt8) : Prop :=
  h.CursorLive ∧ ∃ p, Constructs L h buf p ∧ malloc p ≠ .block

/-- The list has grown by `k` new nodes. -/
structure Grows (k : ℕ) (h h' : TcpHandler) : Prop where
  next : h'.m_listMsgs.next = h.m_listMsgs.next + k
  views : h'.views.length = h.views.length + k

theorem Grows.refl (h : TcpHandler) : Grows 0 h h := ⟨rfl, rfl⟩

theorem Grows.trans {j k : ℕ} {h₁ h₂ h₃ : TcpHandler} (h : Grows j h₁ h₂) (h' : Grows k h₂ h₃) :
    Grows (j + k) h₁ h₃ := by
  obtain ⟨hnext, hviews⟩ := h
  obtain ⟨hnext', hviews'⟩ := h'
  exact ⟨by omega, by omega⟩

theorem length_views (h : TcpHandler) : h.views.length = h.m_listMsgs.cells.length := by
  rw [views, List.length_map, OwnedList.values, List.length_map]

theorem grows_insertNode (h : TcpHandler) (m : Malloc) (id len : UInt32) :
    Grows 1 h (h.insertNode m id len) := by
  refine ⟨rfl, ?_⟩
  rw [length_views, length_views]
  exact List.length_append

theorem grows_set (h : TcpHandler) (p : ℕ) (n : MsgNode) (cursor : Option ℕ) :
    Grows 0 h { h with m_listMsgs := h.m_listMsgs.set p n, m_pLastNode := cursor } := by
  refine ⟨rfl, ?_⟩
  rw [length_views, length_views]
  exact List.length_map _

theorem grows_tcpRead {s' : ReadState} (hrun : tcpRead s = .ok s') :
    Grows 0 s.handler s'.handler := by
  obtain ⟨⟨p, n⟩, -, hrun⟩ := Run.of_bind hrun
  by_cases hge : n.m_nMsgLen ≥ n.m_nOffSet
  · simp only [if_pos hge, buffereventRead] at hrun
    obtain ⟨n₁, -, hrun⟩ := Run.of_bind hrun
    by_cases hend : n₁.m_nOffSet + UInt32.ofNat (s.inputBuf.take
      (n.m_nMsgLen - n.m_nOffSet).toNat).length ≥ n₁.m_nMsgLen
    · simp only [hend, if_true] at hrun
      obtain ⟨n₂, -, hrun⟩ := Run.of_bind hrun
      obtain rfl := Except.ok.inj hrun
      exact grows_set _ _ _ _
    · simp only [hend, if_false] at hrun
      obtain rfl := Except.ok.inj hrun
      exact grows_set _ _ _ _
  · simp only [if_neg hge] at hrun
    cases hrun

/-- The handler after a pass. -/
def passHandler : Pass ReadState ReadResult → TcpHandler
  | .again s => s.handler
  | .leave r => r.handler

theorem grows_readBody {pass : Pass ReadState ReadResult} (hrun : readBody 1 s = .ok pass) :
    Grows 0 s.handler (passHandler pass) := by
  by_cases hzero : s.inputLen ≤ 0
  · rw [readBody, if_pos hzero] at hrun
    obtain rfl := Except.ok.inj hrun
    exact .refl _
  · rw [readBody, if_neg hzero] at hrun
    obtain ⟨s', hread, hrun⟩ := Run.of_bind hrun
    obtain rfl := Except.ok.inj hrun
    exact grows_tcpRead hread

/-- A pass builds a node when a head is accepted in it, and no other. -/
theorem grows_readPass {pass : Pass ReadState ReadResult}
    (hrun : readPass L malloc 1 s = .ok pass) :
    Grows 0 s.handler (passHandler pass) ∨
      Builds L s ∧ Grows 1 s.handler (passHandler pass) := by
  by_cases hpos : s.inputLen > 0
  · rw [readPass, if_pos hpos] at hrun
    obtain ⟨isHead, htest, hrun⟩ := Run.of_bind hrun
    cases isHead with
    | false => exact .inl (grows_readBody hrun)
    | true =>
      simp only [if_true] at hrun
      by_cases hshort : s.inputLen < PACKETHEADLEN
      · rw [readHead_short hshort] at hrun
        obtain rfl := Except.ok.inj hrun
        exact .inl (.refl _)
      have hle : PACKETHEADLEN ≤ s.inputLen := not_lt.mp hshort
      cases hacc : (headOf L s.inputBuf).refused with
      | true =>
        rw [readHead_refused hle hacc] at hrun
        obtain rfl := Except.ok.inj hrun
        exact .inl (.refl _)
      | false =>
        rw [readHead_accepted hle hacc] at hrun
        exact .inr ⟨⟨hpos, htest, hle, hacc⟩,
          (grows_insertNode _ _ _ _).trans (grows_readBody hrun)⟩
  · rw [readPass, if_neg hpos] at hrun
    obtain rfl := Except.ok.inj hrun
    exact .inl (.refl _)

/-- What the loop keeps: the handler stands where the decoder has to go on from, and as many nodes
have been built as the list has grown. -/
structure Reads (L : IntLayout) (h : TcpHandler) (vs : List NodeView) (ph : Phase UInt8 UInt32)
    (room : Prop) (s : ReadState) : Prop where
  sim : Sim L h vs ph room s
  grown : ∃ k, Grows k h s.handler

/-- A node that is built is one of those that were announced. -/
theorem Reads.constructs {buf : List UInt8} {room : Prop} (ht : Tracks h vs ph)
    (hs : Reads L h (vs ++ ((packetCodec L).feed ph buf).1.map messageView)
      ((packetCodec L).feed ph buf).2 room s) (hb : Builds L s) :
    Constructs L h buf s.handler.m_listMsgs.next := by
  obtain ⟨⟨hlen, -, vs₁, ph₁, ht₁, hr⟩, hgrown⟩ := hs
  have hviews := congrArg List.length ht.views_eq
  rw [List.length_append, length_partViews_eq] at hviews
  cases ht₁ with
  | busy hf hlt _ =>
    have htest := hb.test
    rw [hf.expectsHead, decide_eq_false (UInt32.not_le.mpr hlt)] at htest
    cases htest
  | idle _ =>
    -- what is left of the buffer begins with a head, which announces a message
    obtain ⟨hd, rest, hbuf, hhd⟩ :
        ∃ hd rest, s.inputBuf = hd ++ rest ∧ hd.length = PACKETHEADLEN := by
      refine ⟨s.inputBuf.take PACKETHEADLEN, s.inputBuf.drop _,
        (List.take_append_drop _ _).symm, ?_⟩
      rw [List.length_take, ← hlen]
      exact min_eq_left hb.whole
    have hone : 1 ≤ ((packetCodec L).announced (.head []) s.inputBuf).length := by
      have hprefix := ((packetCodec L).announced_append (packetCodec L).wf_start hd rest).length_le
      have hacc : (PacketHead.ofBytes L hd).refused = false := by
        have := hb.accepted
        rwa [headOf, hbuf, List.take_left' hhd, readHead_bytes hhd] at this
      rw [← hbuf, Format.announced, feed_packetHead L hhd, hacc] at hprefix
      refine le_trans ?_ hprefix
      simp only [Bool.false_eq_true, if_false, Format.accept]
      split <;> simp [Phase.pending]
    have hfinal := congrArg List.length hr.views
    simp only [List.length_append, List.length_map] at hfinal
    rw [Format.announced, hr.phase, List.length_append, List.length_map] at hone
    rw [Constructs, ← ht.phase_eq, Format.announced, List.length_append, List.length_map]
    obtain ⟨k, hnext, hlist⟩ := hgrown
    exact ⟨by omega, by omega⟩

/-- The pass without failures keeps this. -/
theorem Reads.again {room : Prop} {vs' : List NodeView} {ph' : Phase UInt8 UInt32}
    {s' : ReadState} (hs : Reads L h vs' ph' room s)
    (hrun : readPass L mallocOk 1 s = .ok (.again s')) : Reads L h vs' ph' room s' := by
  have hpass := readPass_establishes hs.sim
  rw [hrun] at hpass
  obtain ⟨k, hk⟩ := hs.grown
  refine ⟨hpass.1, ?_⟩
  rcases grows_readPass hrun with hg | ⟨-, hg⟩
  · exact ⟨_, hk.trans hg⟩
  · exact ⟨_, hk.trans hg⟩

theorem reads_start (L : IntLayout) (ht : Tracks h vs ph) (buf : List UInt8) :
    Reads L h (vs ++ ((packetCodec L).feed ph buf).1.map messageView)
      ((packetCodec L).feed ph buf).2 ((packetCodec L).Throughout Roomy ph buf)
      ⟨h, buf, buf.length⟩ :=
  ⟨⟨rfl, .refl h, vs, ph, ht, rfl, rfl, Iff.rfl⟩, 0, .refl h⟩

/-- **A read that gets all its blocks is the read without failures.** -/
theorem dealReadEvent_eq_of_allocates (ht : Tracks h vs ph) {buf : List UInt8}
    (hok : ∀ p, Constructs L h buf p → malloc p = .block) :
    dealReadEvent L malloc 1 h buf = dealReadEvent L mallocOk 1 h buf := by
  rw [dealReadEvent, dealReadEvent, Loop.run_congr ?_ ?_ (reads_start L ht buf)]
  · intro s hs
    exact readPass_congr fun hb => hok _ (hs.constructs ht hb)
  · intro s s' hs hrun
    exact hs.again hrun

/-- A pass before the node at address `q` is built, for which `malloc` gives `NULL`: the loop ends
with `success = 1`, or the pass is the one without failures and does not build the node yet. -/
theorem readPass_before {room : Prop} {vs' : List NodeView} {ph' : Phase UInt8 UInt32}
    (hs : Reads L h vs' ph' room s) {q : ℕ} (hq : s.handler.m_listMsgs.next ≤ q)
    (hnull : malloc q ≠ .block) {pass : Pass ReadState ReadResult}
    (hrun : readPass L malloc 1 s = .ok pass) :
    (∃ r, pass = .leave r ∧ r.success = 1) ∨
      readPass L mallocOk 1 s = .ok pass ∧ (passHandler pass).m_listMsgs.next ≤ q := by
  by_cases hok : Builds L s → malloc s.handler.m_listMsgs.next = .block
  · rw [readPass_congr hok] at hrun
    refine .inr ⟨hrun, ?_⟩
    rcases grows_readPass hrun with hg | ⟨hb, hg⟩
    · rw [hg.next]
      omega
    · have hne : s.handler.m_listMsgs.next ≠ q := by
        rintro rfl
        exact hnull (hok hb)
      rw [hg.next]
      omega
  · push Not at hok
    obtain ⟨hb, hnull⟩ := hok
    rcases readPass_null hs.sim.inputLen hb hnull with h | h | ⟨r, h, hr⟩
    · rw [h] at hrun
      cases hrun
    · rw [h] at hrun
      cases hrun
    · exact .inl ⟨r, Except.ok.inj (hrun.symm.trans h), hr⟩

/-- **A read in which a constructor fails does not report it.** -/
theorem success_ne_zero_of_null (ht : Tracks h vs ph) {buf : List UInt8} {q : ℕ}
    (hq : Constructs L h buf q) (hnull : malloc q ≠ .block) {r : ReadResult}
    (hrun : dealReadEvent L malloc 1 h buf = .ok r) : r.success ≠ 0 := by
  have hagain : ∀ s s', Reads L h (vs ++ ((packetCodec L).feed ph buf).1.map messageView)
        ((packetCodec L).feed ph buf).2 ((packetCodec L).Throughout Roomy ph buf) s ∧
        s.handler.m_listMsgs.next ≤ q →
      readPass L malloc 1 s = .ok (.again s') →
      Reads L h (vs ++ ((packetCodec L).feed ph buf).1.map messageView)
        ((packetCodec L).feed ph buf).2 ((packetCodec L).Throughout Roomy ph buf) s' ∧
        s'.handler.m_listMsgs.next ≤ q := by
    rintro s s' ⟨hs, hle⟩ hpass
    rcases readPass_before hs hle hnull hpass with ⟨r, hr, -⟩ | ⟨hpass', hle'⟩
    · cases hr
    · exact ⟨hs.again hpass', hle'⟩
  have hleave : ∀ s r, Reads L h (vs ++ ((packetCodec L).feed ph buf).1.map messageView)
        ((packetCodec L).feed ph buf).2 ((packetCodec L).Throughout Roomy ph buf) s ∧
        s.handler.m_listMsgs.next ≤ q →
      readPass L malloc 1 s = .ok (.leave r) → r.success ≠ 0 := by
    rintro s r ⟨hs, hle⟩ hpass
    rcases readPass_before hs hle hnull hpass with ⟨r', hr', hone⟩ | ⟨hpass', hle'⟩
    · obtain rfl := Pass.leave.inj hr'
      rw [hone]
      exact one_ne_zero
    · -- the decoder has refused a head, and all heads before it have their nodes
      intro hzero
      have hends := readPass_establishes hs.sim
      rw [hpass'] at hends
      obtain ⟨-, ho⟩ := hends
      have href := ho.refused_iff.mp hzero
      have hviews := congrArg List.length ho.views_eq
      have hviews₀ := congrArg List.length ht.views_eq
      obtain ⟨-, hlt⟩ := hq
      obtain ⟨j, hj⟩ := hs.grown
      obtain ⟨k, hk⟩ : ∃ k, Grows k h r.handler := by
        rcases grows_readPass hpass' with hg | ⟨-, hg⟩
        · exact ⟨_, hj.trans hg⟩
        · exact ⟨_, hj.trans hg⟩
      have hnone : (Phase.refused : Phase UInt8 UInt32).pending.length = 0 := rfl
      rw [← ht.phase_eq, Format.announced, href, List.length_append, List.length_map] at hlt
      rw [List.length_append, length_partViews_eq, href, List.length_append, List.length_map]
        at hviews
      rw [List.length_append, length_partViews_eq] at hviews₀
      have hnext := hk.next
      have hlist := hk.views
      simp only [passHandler] at hle'
      omega
  unfold dealReadEvent at hrun
  split at hrun
  · rename_i x hloop
    rw [hrun] at hloop
    exact Loop.run_ok hagain hleave ⟨reads_start L ht buf, hq.1⟩ hloop
  · cases hrun

/-- What the read of `buf` promises about allocations: no byte goes into a node without buffer, and
a failure is reported. -/
structure ReadSafe (L : IntLayout) (malloc : ℕ → Malloc) (h : TcpHandler) (buf : List UInt8) :
    Prop where
  buffer : dealReadEvent L malloc 1 h buf ≠ .error .nullDeref
  reported : Fails L malloc h buf →
    ∃ r, dealReadEvent L malloc 1 h buf = .ok r ∧ r.success = 0

/-- A read with a dangling cursor does not come to a constructor. -/
theorem dealReadEvent_of_dangling (hd : ¬ h.CursorLive) (buf : List UInt8) :
    dealReadEvent L malloc 1 h buf =
      if buf = [] then .ok ⟨h, [], 1⟩ else .error .useAfterFree := by
  cases buf with
  | nil => rfl
  | cons b bs =>
    obtain ⟨p, hp, hdead⟩ : ∃ p, h.m_pLastNode = some p ∧ h.m_listMsgs.get? p = none := by
      simpa [CursorLive] using hd
    have hhead : h.expectsHead = .error .useAfterFree := by
      simp [expectsHead, lastNode, hp, hdead, bind, Except.bind]
    have hpass : readPass L malloc 1 ⟨h, b :: bs, (b :: bs).length⟩ = .error .useAfterFree := by
      rw [readPass, if_pos (by simp), hhead]
      rfl
    rw [dealReadEvent, Loop.run, hpass, if_neg (List.cons_ne_nil _ _)]

theorem dealReadEvent_eq_of_not_fails {buf : List UInt8}
    (ht : h.CursorLive → ∃ vs ph, Tracks h vs ph) (hok : ¬ Fails L malloc h buf) :
    dealReadEvent L malloc 1 h buf = dealReadEvent L mallocOk 1 h buf := by
  by_cases hlive : h.CursorLive
  · obtain ⟨vs, ph, ht⟩ := ht hlive
    apply dealReadEvent_eq_of_allocates ht
    intro p hp
    by_contra hnull
    exact hok ⟨hlive, p, hp, hnull⟩
  · rw [dealReadEvent_of_dangling hlive, dealReadEvent_of_dangling hlive]

/-- **A read is safe if and only if none of its constructors fails.** -/
theorem readSafe_iff {buf : List UInt8} (ht : h.CursorLive → ∃ vs ph, Tracks h vs ph) :
    ReadSafe L malloc h buf ↔ ¬ Fails L malloc h buf := by
  by_cases hlive : h.CursorLive
  · constructor
    · rintro ⟨-, hreported⟩ hfails
      obtain ⟨vs, ph, ht⟩ := ht hlive
      obtain ⟨r, hr, hzero⟩ := hreported hfails
      obtain ⟨-, q, hq, hnull⟩ := hfails
      exact success_ne_zero_of_null ht hq hnull hr hzero
    · intro hok
      refine ⟨?_, fun hfails => absurd hfails hok⟩
      rw [dealReadEvent_eq_of_not_fails ht hok]
      obtain ⟨vs, ph, ht⟩ := ht hlive
      intro he
      have hends := dealReadEvent_spec L ht buf
      rw [he] at hends
      cases hends.1
  · refine iff_of_true ⟨?_, fun hfails => absurd hfails.1 hlive⟩ fun hfails => hlive hfails.1
    rw [dealReadEvent_of_dangling hlive]
    split <;> exact fun he => by cases he

end TcpHandler

/-! ## Copies that fail -/

/-- `x` is an intact copy of the node `n` of connection `connId`. -/
structure Intact (connId : UInt64) (n : MsgNode) (x : ConMsgNode) : Prop where
  connId : x.mConnId = connId
  id : x.mMsgNode.m_nMsgId = n.m_nMsgId
  len : x.mMsgNode.m_nMsgLen = n.m_nMsgLen
  payload : x.mMsgNode.payload = n.payload

theorem intact_copied {n : MsgNode} (hn : n.Copyable) (connId : UInt64) :
    Intact connId n ⟨connId, n.copied hn⟩ :=
  ⟨rfl, rfl, rfl, MsgNode.payload_copied hn⟩

/-- An empty node is an intact copy of an empty message only. -/
theorem intact_empty_iff {n : MsgNode} (hn : n.Copyable) {connId : UInt64} {x : MsgNode}
    (hid : x.m_nMsgId = 0) (hlen : x.m_nMsgLen = 0) (hpay : x.payload = []) :
    Intact connId n ⟨connId, x⟩ ↔ n.message = (0, []) := by
  constructor
  · rintro ⟨-, hid', -, hpay'⟩
    rw [MsgNode.message, ← hid', ← hpay', hid, hpay]
  · intro hm
    obtain ⟨hid', hpay'⟩ := Prod.mk.inj hm
    have hzero : n.m_nMsgLen = 0 := by
      have := MsgNode.length_payload hn
      rw [hpay'] at this
      exact UInt32.toNat_inj.mp this.symm
    exact ⟨rfl, hid.trans hid'.symm, hlen.trans hzero.symm, hpay.trans hpay'.symm⟩

/-- **The two copies of a push.** They do not fault, and give an intact copy if and only if both get
their blocks, or the message is empty. -/
theorem copyTwice {n : MsgNode} (hn : n.Copyable) (m m' : Malloc) (connId : UInt64) :
    ∃ n₁ x, MsgNode.assign m .empty n = .ok n₁ ∧ ConMsgNode.copy m' ⟨connId, n₁⟩ = .ok x ∧
      (Intact connId n x ↔ m = .block ∧ m' = .block ∨ n.message = (0, [])) := by
  have hempty : MsgNode.empty.Copyable := ⟨by decide, fun _ => rfl⟩
  have hfailed : ∀ {x : ConMsgNode}, (m ≠ .block ∨ m' ≠ .block) →
      x = ⟨connId, .empty⟩ ∨ x = ⟨connId, MsgNode.empty.copied hempty⟩ →
      (Intact connId n x ↔ m = .block ∧ m' = .block ∨ n.message = (0, [])) := by
    intro x hnull hx
    have hno : ¬ (m = .block ∧ m' = .block) := by
      rintro ⟨hm, hm'⟩
      exact hnull.elim (· hm) (· hm')
    rw [or_iff_right hno]
    rcases hx with rfl | rfl
    · exact intact_empty_iff hn rfl rfl rfl
    · exact intact_empty_iff hn rfl rfl (MsgNode.payload_copied hempty)
  cases m with
  | null junk =>
    cases m' with
    | null junk' => exact ⟨.empty, _, rfl, rfl, hfailed (.inl (by simp)) (.inl rfl)⟩
    | block =>
      refine ⟨.empty, ⟨connId, MsgNode.empty.copied hempty⟩, rfl, ?_,
        hfailed (.inl (by simp)) (.inr rfl)⟩
      simp only [ConMsgNode.copy, ConMsgNode.assign, MsgNode.assign, MsgNode.copyInto_ok hempty,
        bind, Except.bind, pure, Except.pure]
  | block =>
    have hassign : MsgNode.assign .block .empty n = .ok (n.copied hn) := MsgNode.copyInto_ok hn
    cases m' with
    | null junk' =>
      exact ⟨n.copied hn, _, hassign, rfl, hfailed (.inr (by simp)) (.inl rfl)⟩
    | block =>
      refine ⟨n.copied hn, ⟨connId, n.copied hn⟩, hassign, ?_,
        iff_of_true (intact_copied hn connId) (.inl ⟨rfl, rfl⟩)⟩
      simp only [ConMsgNode.copy, ConMsgNode.assign, MsgNode.assign,
        (MsgNode.isCopy_copied hn).copyInto, bind, Except.bind, pure, Except.pure]

/-- The two copies that `pushNodeInStream` makes of each node it moves get their blocks, or the
message is empty. The indices of `malloc` are those of `pushLoop`. -/
def CopiesOk (malloc : ℕ → Malloc) : ℕ → List MsgNode → Prop
  | k + 1, n :: ns => n.isReceived = true →
    (malloc (2 * k + 1) = .block ∧ malloc (2 * k) = .block ∨ n.message = (0, [])) ∧
      CopiesOk malloc k ns
  | _, _ => True

namespace NetWorker

variable {malloc : ℕ → Malloc}

/-- **The loop of a push**, whatever `malloc` gives: the nodes `drained` are moved, and their copies
are intact if and only if none of them fails. -/
theorem pushLoop_intact {k : ℕ} {h : TcpHandler} {s : MsgStream}
    (hk : k ≤ h.m_listMsgs.values.length)
    (hcopy : ∀ n ∈ drained k h.m_listMsgs.values, n.Copyable) :
    ∃ h' s' copies, pushLoop malloc k (h, s) = .ok (h', s') ∧
      Drained h h' (drained k h.m_listMsgs.values).length ∧
      s'.m_listConMsg = s.m_listConMsg ++ copies ∧
      copies.length = (drained k h.m_listMsgs.values).length ∧
      (List.Forall₂ (Intact h.m_nConnId) (drained k h.m_listMsgs.values) copies ↔
        CopiesOk malloc k h.m_listMsgs.values) := by
  induction k generalizing h s with
  | zero =>
    refine ⟨h, s, [], rfl, ⟨by simp [drained], rfl, rfl, rfl⟩, by simp, by simp [drained], ?_⟩
    simp [drained, CopiesOk]
  | succ k ih =>
    cases hvals : h.m_listMsgs.values with
    | nil => rw [hvals] at hk; cases hk
    | cons n ns =>
      rw [hvals] at hk hcopy
      by_cases hrec : n.isReceived = true
      · have hdrain : drained (k + 1) (n :: ns) = n :: drained k ns := by simp [drained, hrec]
        rw [hdrain] at hcopy ⊢
        have hn : n.Copyable := hcopy n (by simp)
        obtain ⟨n₁, x, hassign, hx, hintact⟩ :=
          copyTwice hn (malloc (2 * k + 1)) (malloc (2 * k)) h.m_nConnId
        have htail : h.m_listMsgs.popFront.values = ns := by simp [hvals]
        obtain ⟨h', s', copies, hrun, hd, hlist, hlen, hall⟩ := ih
          (h := { h with m_listMsgs := h.m_listMsgs.popFront })
          (s := ⟨s.m_nCount + 1, s.m_listConMsg ++ [x]⟩)
          (by rw [htail]; simpa using hk)
          (by rw [htail]; exact fun n' hn' => hcopy n' (by simp [hn']))
        rw [htail] at hd hlen hall
        refine ⟨h', s', x :: copies, ?_, ⟨?_, hd.connId, hd.bufferevent, hd.lastNode⟩, ?_, ?_, ?_⟩
        · simpa only [pushLoop, hvals, hrec, if_true, hassign, MsgStream.insertMsgToList, hx, bind,
            Except.bind, pure, Except.pure] using hrun
        · rw [hd.cells]
          simp [List.drop_tail]
        · rw [hlist]
          simp
        · simp [hlen]
        · rw [List.forall₂_cons, hintact, CopiesOk, hall]
          simp [hrec]
      · have hdrain : drained (k + 1) (n :: ns) = [] := by simp [drained, hrec]
        rw [hdrain]
        refine ⟨h, s, [], ?_, ⟨by simp, rfl, rfl, rfl⟩, by simp, rfl, ?_⟩
        · simp only [pushLoop, hvals, if_neg hrec]
        · simp [CopiesOk, hrec]

/-- **A push**, whatever `malloc` gives. -/
theorem pushNodeInStream_copies (malloc : ℕ → Malloc) {w : NetWorker} {h : TcpHandler}
    (hlock : w.m_mutexLock = true)
    (hcopy : ∀ n ∈ h.drained, n.Copyable) :
    ∃ w' h' copies, pushNodeInStream malloc w h = .ok (w', h') ∧
      w' = { w with m_msgInStream := w'.m_msgInStream } ∧ Drained h h' h.drained.length ∧
      w'.m_msgInStream.m_listConMsg = w.m_msgInStream.m_listConMsg ++ copies ∧
      copies.length = h.drained.length ∧
      (List.Forall₂ (Intact h.m_nConnId) h.drained copies ↔
        CopiesOk malloc h.pushCount h.m_listMsgs.values) := by
  have hk : (UInt32.ofNat h.m_listMsgs.values.length).toNat ≤ h.m_listMsgs.values.length := by
    rw [UInt32.toNat_ofNat']
    exact Nat.mod_le _ _
  obtain ⟨h', s', copies, hrun, hd, hlist, hlen, hall⟩ :=
    pushLoop_intact (s := w.m_msgInStream) hk hcopy
  refine ⟨{ w with m_msgInStream := s' }, h', copies, ?_, rfl, hd, hlist, hlen, hall⟩
  simp only [pushNodeInStream, lock, hlock, if_true, hrun, bind, Except.bind, pure, Except.pure]

/-- What a push promises about allocations: the nodes it takes off the list have been copied intact,
in their order. -/
def PushSafe (malloc : ℕ → Malloc) (w : NetWorker) (h : TcpHandler) : Prop :=
  ∃ w' h' k copies, w.pushNodeInStream malloc h = .ok (w', h') ∧
    h'.m_listMsgs.cells = h.m_listMsgs.cells.drop k ∧
    w'.m_msgInStream.m_listConMsg = w.m_msgInStream.m_listConMsg ++ copies ∧
    List.Forall₂ (Intact h.m_nConnId) (h.m_listMsgs.values.take k) copies

/-- **A push is safe if and only if its copies succeed.** -/
theorem pushSafe_iff {w : NetWorker} {h : TcpHandler} (hlock : w.m_mutexLock = true)
    (hcopy : ∀ n ∈ h.drained, n.Copyable) :
    PushSafe malloc w h ↔ CopiesOk malloc h.pushCount h.m_listMsgs.values := by
  obtain ⟨w', h', copies, hrun, -, hd, hlist, hlen, hall⟩ :=
    pushNodeInStream_copies malloc hlock hcopy
  have hprefix : h.drained <+: h.m_listMsgs.values :=
    (List.takeWhile_prefix _).trans (List.take_prefix _ _)
  have htake := List.prefix_iff_eq_take.mp hprefix
  rw [← hall]
  constructor
  · rintro ⟨w'', h'', k, copies', hrun', -, hlist', hall'⟩
    obtain ⟨rfl, rfl⟩ := Prod.mk.inj (Except.ok.inj (hrun.symm.trans hrun'))
    obtain rfl := List.append_cancel_left (hlist.symm.trans hlist')
    have hk := List.prefix_iff_eq_take.mp (List.take_prefix k h.m_listMsgs.values)
    rw [hall'.length_eq, hlen, ← htake] at hk
    rwa [hk] at hall'
  · intro hintact
    exact ⟨w', h', _, copies, hrun, hd.cells, hlist, htake ▸ hintact⟩

end NetWorker

/-! ## Runs -/

namespace Connection

variable {L : IntLayout} {connId : UInt64} {bev : Option ℕ} {c c' : Connection}
  {stream : List UInt8}

/-- What a call promises about allocations. -/
def Safe (L : IntLayout) (c : Connection) : Call → Prop
  | .read bytes malloc => ∀ h, c.tcpHandler = some h → ReadSafe L malloc h (c.inputBuf ++ bytes)
  | .push malloc => ∀ h, c.tcpHandler = some h → NetWorker.PushSafe malloc c.worker h

/-- The allocations of a call succeed: all constructors of a read, and all copies of a push but
those of empty messages. -/
def Allocates (L : IntLayout) (c : Connection) : Call → Prop
  | .read bytes malloc => ∀ h, c.tcpHandler = some h → ¬ Fails L malloc h (c.inputBuf ++ bytes)
  | .push malloc => ∀ h, c.tcpHandler = some h → CopiesOk malloc h.pushCount h.m_listMsgs.values

/-- `x` is the message `m` of connection `connId`. -/
structure IsFrame (connId : UInt64) (x : ConMsgNode) (m : Message) : Prop where
  connId : x.mConnId = connId
  id : x.mMsgNode.m_nMsgId = m.1
  len : x.mMsgNode.m_nMsgLen.toNat = m.2.length
  payload : x.mMsgNode.payload = m.2

/-- Where a run stands that has met with no failure. -/
structure Sound (L : IntLayout) (connId : UInt64) (bev : Option ℕ) (stream : List UInt8)
    (c : Connection) : Prop where
  lock : c.worker.m_mutexLock = true
  inserted : ∃ ins, ins <+: (decode L stream).1 ∧
    List.Forall₂ (IsFrame connId) c.worker.m_msgInStream.m_listConMsg ins ∧
    ∀ h, c.tcpHandler = some h → Follows L (.new connId bev) stream ins h c.inputBuf

theorem sound_accept : Sound L connId bev [] (accept connId bev) := by
  refine ⟨rfl, [], List.nil_prefix, .nil, ?_⟩
  intro h hh
  obtain rfl := Option.some.inj hh
  exact follows_new L connId bev

/-- **Where nothing has failed, a call is safe if and only if its allocations succeed.** -/
theorem Sound.safe_iff (hs : Sound L connId bev stream c) (x : Call) :
    c.Allocates L x ↔ c.Safe L x := by
  obtain ⟨hlock, ins, -, -, hf⟩ := hs
  cases x with
  | read bytes malloc =>
    refine forall_congr' fun h => forall_congr' fun hh => (readSafe_iff ?_).symm
    intro hlive
    obtain ⟨ms, -, ho⟩ := (hf h hh).read hlive
    exact ⟨_, ho.tracks one_ne_zero⟩
  | push malloc =>
    refine forall_congr' fun h => forall_congr' fun hh => (NetWorker.pushSafe_iff hlock ?_).symm
    obtain ⟨ms, hshows⟩ := (hf h hh).shows
    exact hshows.drained.2

theorem isFrame_of_intact {ns : List MsgNode} {copies : List ConMsgNode}
    (h : List.Forall₂ (Intact connId) ns copies) (hn : ∀ n ∈ ns, n.Copyable) :
    List.Forall₂ (IsFrame connId) copies (ns.map MsgNode.message) := by
  induction h with
  | nil => exact .nil
  | @cons n x ns copies hx _ ih =>
    refine .cons ⟨hx.connId, hx.id, ?_, hx.payload⟩ (ih fun n' hn' => hn n' (by simp [hn']))
    rw [hx.len]
    exact (MsgNode.length_payload (hn n (by simp))).symm

theorem Sound.read (hs : Sound L connId bev stream c) {bytes : List UInt8} {malloc : ℕ → Malloc}
    (hok : c.Allocates L (.read bytes malloc)) (hstep : c.read L malloc bytes = .ok c') :
    Sound L connId bev (stream ++ bytes) c' := by
  obtain ⟨hlock, ins, hins, hframes, hf⟩ := hs
  have hins' := hins.trans (decode_le L stream bytes)
  cases hc : c.tcpHandler with
  | none =>
    simp only [Connection.read, hc] at hstep
    obtain rfl := Except.ok.inj hstep
    exact ⟨hlock, ins, hins', hframes, fun h hh => by cases hh⟩
  | some h =>
    have hfollows := hf h hc
    simp only [Connection.read, hc] at hstep
    obtain ⟨r, hr, hstep⟩ := Run.of_bind hstep
    obtain rfl := Except.ok.inj hstep
    have htracks : h.CursorLive → ∃ vs ph, Tracks h vs ph := by
      intro hlive
      obtain ⟨ms, -, ho⟩ := hfollows.read hlive
      exact ⟨_, ho.tracks one_ne_zero⟩
    rw [dealReadEvent_eq_of_not_fails htracks (hok h hc)] at hr
    refine ⟨hlock, ins, hins', hframes, ?_⟩
    intro h' hh'
    by_cases hzero : r.success = 0
    · simp [hzero] at hh'
    · simp only [if_neg hzero] at hh'
      obtain rfl := Option.some.inj hh'
      exact (hfollows.dealReadEvent hr).2 hzero

theorem Sound.push (hs : Sound L connId bev stream c) {malloc : ℕ → Malloc}
    (hok : c.Allocates L (.push malloc)) (hstep : c.push malloc = .ok c') :
    Sound L connId bev stream c' := by
  obtain ⟨hlock, ins, hins, hframes, hf⟩ := hs
  cases hc : c.tcpHandler with
  | none =>
    simp only [Connection.push, hc] at hstep
    obtain rfl := Except.ok.inj hstep
    exact ⟨hlock, ins, hins, hframes, hf⟩
  | some h =>
    have hfollows := hf h hc
    obtain ⟨ms, hshows⟩ := hfollows.shows
    obtain ⟨hmsgs, hcopy⟩ := hshows.drained
    obtain ⟨w', h', copies, hpush, hw, hd, hlist, -, hall⟩ :=
      NetWorker.pushNodeInStream_copies malloc hlock hcopy
    simp only [Connection.push, hc, hpush, bind, Except.bind, pure, Except.pure] at hstep
    obtain rfl := Except.ok.inj hstep
    have hintact := isFrame_of_intact (hall.mpr (hok h hc)) hcopy
    rw [hmsgs, hfollows.conn.1] at hintact
    refine ⟨?_, ins ++ ms.take h.pushCount, ?_, ?_, ?_⟩
    · rw [hw]
      exact hlock
    · rw [hshows.frames]
      exact (List.prefix_append_right_inj _).mpr (List.take_prefix _ _)
    · rw [hlist]
      exact List.rel_append hframes hintact
    · intro h'' hh''
      obtain rfl := Option.some.inj hh''
      exact hfollows.drained hshows hd

theorem Sound.call (hs : Sound L connId bev stream c) {x : Call} (hok : c.Allocates L x)
    (hstep : call L c x = .ok c') : Sound L connId bev (stream ++ x.bytes) c' := by
  cases x with
  | read bytes malloc => exact hs.read hok hstep
  | push malloc =>
    rw [Call.bytes, List.append_nil]
    exact hs.push hok hstep

/-- A run whose allocations succeed is sound. -/
theorem calls_sound {cs : List Call} (hrun : calls L connId bev cs = .ok c)
    (hok : Run.EachStep (calls L connId bev) (Allocates L) cs) :
    Sound L connId bev (arrived cs) c := by
  induction cs using List.reverseRecOn generalizing c with
  | nil =>
    obtain rfl := Except.ok.inj hrun
    exact sound_accept
  | append_singleton cs x ih =>
    obtain ⟨c₁, hrun₁, hstep⟩ := Run.of_concat hrun
    obtain ⟨hcs, hx⟩ := Run.eachStep_concat.mp hok
    rw [arrived_concat]
    exact (ih hrun₁ hcs).call (hx c₁ hrun₁) hstep

/-- Every message in the worker's stream is one of the frames that have arrived. -/
def OnlyFrames (L : IntLayout) (connId : UInt64) (stream : List UInt8) (c : Connection) : Prop :=
  ∀ x ∈ c.worker.m_msgInStream.m_listConMsg, ∃ m ∈ (decode L stream).1, IsFrame connId x m

theorem Sound.onlyFrames (hs : Sound L connId bev stream c) : OnlyFrames L connId stream c := by
  obtain ⟨-, ins, hins, hframes, -⟩ := hs
  intro x hx
  obtain ⟨i, hi, rfl⟩ := List.mem_iff_getElem.mp hx
  have hi' : i < ins.length := hframes.length_eq ▸ hi
  exact ⟨ins[i], hins.subset (List.getElem_mem hi'), hframes.get hi hi'⟩

/-- **Allocation failures.** In a run of reads and pushes all calls are safe, and all messages that
are inserted are frames that have arrived, if and only if the allocations of all calls succeed. -/
theorem intact_iff (L : IntLayout) (connId : UInt64) (bev : Option ℕ) (cs : List Call) :
    (Run.EachStep (calls L connId bev) (Safe L) cs ∧
        ∀ before c, before <+: cs → calls L connId bev before = .ok c →
          OnlyFrames L connId (arrived before) c) ↔
      Run.EachStep (calls L connId bev) (Allocates L) cs := by
  have hiff : Run.EachStep (calls L connId bev) (Allocates L) cs ↔
      Run.EachStep (calls L connId bev) (Safe L) cs :=
    Run.eachStep_congr fun es c x hrun hok => (calls_sound hrun hok).safe_iff x
  rw [← hiff, and_iff_left_iff_imp]
  rintro hok before c ⟨after, rfl⟩ hrun
  exact (calls_sound hrun hok.of_append).onlyFrames

/-- There is no memory left. In what the constructors leave unset there is a length of `1`. -/
def noMemory : ℕ → Malloc := fun _ => .null (1, 0, 0)

/-- The message with id `0` whose body is the byte `65`. -/
def letterA : List UInt8 := [0, 0, 0, 0, 1, 0, 0, 0, 65]

/-- A constructor that fails is not reported, the body of the message is read into a node without
buffer, and a received node is removed while what is inserted is empty. -/
theorem letterA_lost :
    (∃ r, (TcpHandler.new 1 none).dealReadEvent .little noMemory 1 (letterA.take 8) = .ok r ∧
        r.success = 1) ∧
      (TcpHandler.new 1 none).dealReadEvent .little noMemory 1 letterA = .error .nullDeref ∧
      (∃ c h, calls .little 1 none [.read letterA mallocOk, .push noMemory] = .ok c ∧
        c.tcpHandler = some h ∧ h.m_listMsgs.values = [] ∧
        c.worker.m_msgInStream.m_listConMsg = [⟨1, .empty⟩] ∧ ¬ OnlyFrames .little 1 letterA c) ∧
      ¬ Run.EachStep (calls .little 1 none) (Safe .little) [.read letterA noMemory] ∧
      ¬ Run.EachStep (calls .little 1 none) (Safe .little)
        [.read letterA mallocOk, .push noMemory] := by
  have hread : (TcpHandler.new 1 none).dealReadEvent .little noMemory 1 letterA =
      .error .nullDeref := rfl
  have hlast : ∃ c h, calls .little 1 none [.read letterA mallocOk, .push noMemory] = .ok c ∧
      c.tcpHandler = some h ∧ h.m_listMsgs.values = [] ∧
      c.worker.m_msgInStream.m_listConMsg = [⟨1, .empty⟩] := ⟨_, _, rfl, rfl, rfl, rfl⟩
  refine ⟨⟨_, rfl, rfl⟩, hread, ?_, ?_, ?_⟩
  · obtain ⟨c, h, hrun, hh, hnil, hlist⟩ := hlast
    refine ⟨c, h, hrun, hh, hnil, hlist, ?_⟩
    intro honly
    obtain ⟨m, hm, hframe⟩ := honly ⟨1, .empty⟩ (by simp [hlist])
    obtain rfl : m = (0, [65]) := List.mem_singleton.mp hm
    exact absurd hframe.len (by decide)
  · intro hsafe
    exact (hsafe [] _ [] (accept 1 none) rfl rfl _ rfl).buffer hread
  · intro hsafe
    obtain ⟨c, h, n, hrun, hh, hone, hlen, hnil, w, h', hpush, hlist⟩ :
        ∃ c h n, calls .little 1 none [.read letterA mallocOk] = .ok c ∧ c.tcpHandler = some h ∧
          h.m_listMsgs.values = [n] ∧ n.m_nMsgLen = 1 ∧
          c.worker.m_msgInStream.m_listConMsg = [] ∧
          ∃ w h', c.worker.pushNodeInStream noMemory h = .ok (w, h') ∧
            w.m_msgInStream.m_listConMsg = [⟨1, .empty⟩] :=
      ⟨_, _, _, rfl, rfl, rfl, rfl, rfl, _, _, rfl, rfl⟩
    obtain ⟨w', h'', k, copies, hpush', -, hlist', hall⟩ :=
      hsafe [.read letterA mallocOk] (.push noMemory) [] c rfl hrun h hh
    obtain ⟨rfl, rfl⟩ := Prod.mk.inj (Except.ok.inj (hpush.symm.trans hpush'))
    rw [hnil, hlist, List.nil_append] at hlist'
    rw [← hlist', hone] at hall
    cases k with
    | zero => cases hall
    | succ k =>
      obtain ⟨hintact, -⟩ := List.forall₂_cons.mp hall
      have hzero := hintact.len
      rw [hlen] at hzero
      exact absurd hzero (by decide)

end Connection

end SmartServer
