import SmartServer.Cursor

/-!
# The counters of the read loop

`dealReadEvent` counts the bytes that are left in the buffer beside the buffer (`inputLen`, a
`size_t`), and the bytes a node has received in the node (`m_nOffSet`, 32 bits), while the peer
chooses every length that is involved.

**Theorem (`counters_exact`).** From every handler whose cursor is `NULL` or on a live node that
has not received too much, and for every content of the buffer, the loop ends, and in every pass
the counters are what they should be: `inputLen` is the number of bytes left, no subtraction
underflows, no sum wraps, and the assertion of `tcpRead` holds. When no head was refused, the
bytes left at the end are none, or less than a head.

What the counters do does not depend on where the bytes received are put. The loop is therefore
taken with its stores as a parameter: with the stores of a node, which are the only operations
that can fault, and with stores that never do.
-/

namespace SmartServer

namespace TcpHandler

/-! ## The loop, with its stores as a parameter -/

/-- Store `data` at `m_pMsg + off`. -/
abbrev Store := MsgNode → ℕ → List UInt8 → Exec MsgNode

/-- A store that never faults; where the bytes go is not looked at. -/
def blindStore : Store := fun n _ _ => .ok n

/-- `tcpRead`. -/
def tcpReadWith (store : Store) (s : ReadState) : Exec ReadState := do
  let (p, node) ← s.handler.lastNode
  if node.m_nMsgLen ≥ node.m_nOffSet then
    let remainLen := node.m_nMsgLen - node.m_nOffSet
    let (data, inputBuf) := buffereventRead s.inputBuf remainLen.toNat
    let node ← store node node.m_nOffSet.toNat data
    let readLen := UInt32.ofNat data.length
    let inputLen := sizeSub s.inputLen readLen.toNat
    let node := { node with m_nOffSet := node.m_nOffSet + readLen }
    if node.m_nOffSet ≥ node.m_nMsgLen then
      let node ← store node node.m_nMsgLen.toNat [0]
      let m_listMsgs := s.handler.m_listMsgs.set p node
      pure ⟨{ s.handler with m_listMsgs, m_pLastNode := none }, inputBuf, inputLen⟩
    else
      pure ⟨{ s.handler with m_listMsgs := s.handler.m_listMsgs.set p node }, inputBuf, inputLen⟩
  else
    throw .assertion

variable (store : Store) (L : IntLayout) (success : ℤ)

def readBodyWith (s : ReadState) : Exec (Pass ReadState ReadResult) :=
  if s.inputLen ≤ 0 then .ok (.leave ⟨s.handler, s.inputBuf, success⟩)
  else do pure (.again (← tcpReadWith store s))

def readPassWith (s : ReadState) : Exec (Pass ReadState ReadResult) :=
  if s.inputLen > 0 then do
    if ← s.handler.expectsHead then
      match readHead L mallocOk success s with
      | .leave r => pure (.leave r)
      | .again s => readBodyWith store success s
    else readBodyWith store success s
  else pure (.leave ⟨s.handler, s.inputBuf, success⟩)

/-- The loop, with one pass for each byte of the buffer and one more. -/
def readLoop (h : TcpHandler) (inputBuf : List UInt8) : Option (Exec ReadResult) :=
  Loop.run (readPassWith store L success) (inputBuf.length + 1) ⟨h, inputBuf, inputBuf.length⟩

theorem readPassWith_store : readPassWith MsgNode.store L success = readPass L mallocOk success :=
  rfl

/-- With the stores of a node it is the loop of `dealReadEvent`. -/
theorem dealReadEvent_of_readLoop {h : TcpHandler} {buf : List UInt8} {x : Exec ReadResult}
    (hrun : readLoop MsgNode.store L success h buf = some x) :
    dealReadEvent L mallocOk success h buf = x := by
  rw [readLoop, readPassWith_store] at hrun
  rw [dealReadEvent, hrun]

/-! ## What is exact in a pass -/

/-- The cursor is `NULL`, or on a live node that has received at most its length. -/
def CursorOk (h : TcpHandler) : Prop :=
  ∀ p, h.m_pLastNode = some p → ∃ n, h.m_listMsgs.get? p = some n ∧ n.m_nOffSet ≤ n.m_nMsgLen

/-- The bytes `tcpRead` takes for the node `n`. -/
def bite (s : ReadState) (n : MsgNode) : List UInt8 :=
  (buffereventRead s.inputBuf (n.m_nMsgLen - n.m_nOffSet).toNat).1

/-- The arithmetic of `tcpRead` in state `s`: the cursor is on a live node, for which the assertion
holds; the number of bytes taken fits into `readLen`; it can be subtracted from `inputLen` and added
to `m_nOffSet`. -/
structure ReadExact (s : ReadState) (p : ℕ) (n : MsgNode) : Prop where
  cursor : s.handler.lastNode = .ok (p, n)
  assertion : n.m_nOffSet ≤ n.m_nMsgLen
  readLen : (UInt32.ofNat (bite s n).length).toNat = (bite s n).length
  inputLen : (bite s n).length ≤ s.inputLen
  offset : (n.m_nOffSet + UInt32.ofNat (bite s n).length).toNat =
    n.m_nOffSet.toNat + (bite s n).length

/-- The pass from `s` enters `tcpRead` in state `s'`. -/
def EntersRead (s s' : ReadState) : Prop :=
  0 < s.inputLen ∧ 0 < s'.inputLen ∧
    (s.handler.expectsHead = .ok false ∧ s' = s ∨
      s.handler.expectsHead = .ok true ∧ readHead L mallocOk success s = .again s')

/-- The counters at the beginning of a pass. -/
structure Exact (s : ReadState) : Prop where
  inputLen : s.inputLen = s.inputBuf.length
  cursor : s.handler.CursorOk

/-- The counters in the pass from `s`. -/
structure PassExact (s : ReadState) : Prop where
  exact : Exact s
  -- the test of the cursor reads a live node
  test : ∃ isHead, s.handler.expectsHead = .ok isHead
  head : ∀ s', readHead L mallocOk success s = .again s' → PACKETHEADLEN ≤ s.inputLen
  read : ∀ s', EntersRead L success s s' → ∃ p n, ReadExact s' p n

/-- The loop over `buf` ends, and its counters are exact. -/
structure CountersExact (h : TcpHandler) (buf : List UInt8) : Prop where
  ends : ∃ x, readLoop store L success h buf = some x
  passes : ∀ s, Loop.Reached (readPassWith store L success) ⟨h, buf, buf.length⟩ s →
    PassExact L success s
  faults : ∀ f, readLoop store L success h buf = some (.error f) →
    ∃ n off data, store n off data = .error f
  exit : ∀ r, readLoop store L success h buf = some (.ok r) → r.success ≠ 0 →
    r.success = success ∧ (r.inputBuf = [] ∨ r.inputBuf.length < PACKETHEADLEN ∧ r.handler.Idle)

variable {store L success} {h : TcpHandler} {s s' : ReadState}

/-! ## The pieces of a pass -/

/-- The test at the top of a pass: there is nothing to receive into, or a live node that needs
more. -/
theorem CursorOk.expectsHead (hc : h.CursorOk) :
    h.expectsHead = .ok true ∧ h.Idle ∨
      h.expectsHead = .ok false ∧ ∃ p n, h.lastNode = .ok (p, n) ∧ n.m_nOffSet < n.m_nMsgLen := by
  cases hp : h.m_pLastNode with
  | none => exact .inl ⟨by simp [TcpHandler.expectsHead, hp], fun p hp' => by simp [hp] at hp'⟩
  | some p =>
    obtain ⟨n, hn, -⟩ := hc p hp
    have hlast : h.lastNode = .ok (p, n) := by simp [lastNode, hp, hn]
    have htest : h.expectsHead = .ok (decide (n.m_nMsgLen ≤ n.m_nOffSet)) := by
      simp [TcpHandler.expectsHead, hp, hlast, bind, Except.bind, pure, Except.pure]
    by_cases hle : n.m_nMsgLen ≤ n.m_nOffSet
    · refine .inl ⟨by rw [htest, decide_eq_true hle], ?_⟩
      intro q hq
      obtain rfl : p = q := Option.some.inj (hp.symm.trans hq)
      exact ⟨n, hn, hle⟩
    · exact .inr ⟨by rw [htest, decide_eq_false hle], p, n, hlast, UInt32.not_le.mp hle⟩

/-- A cursor that is on a node makes the arithmetic of `tcpRead` exact. -/
theorem Exact.read (hs : Exact s) {p : ℕ} {n : MsgNode} (hl : s.handler.lastNode = .ok (p, n)) :
    ReadExact s p n := by
  obtain ⟨hlen, hcursor⟩ := hs
  obtain ⟨hp, hn⟩ := lastNode_inv hl
  obtain ⟨n', hn', hoff⟩ := hcursor p hp
  obtain rfl : n = n' := Option.some.inj (hn.symm.trans hn')
  have hnat := UInt32.le_iff_toNat_le.mp hoff
  have hbound := n.m_nMsgLen.toNat_lt
  have hsub : (n.m_nMsgLen - n.m_nOffSet).toNat = n.m_nMsgLen.toNat - n.m_nOffSet.toNat :=
    UInt32.toNat_sub_of_le _ _ hoff
  have hbite : (bite s n).length =
      min (n.m_nMsgLen.toNat - n.m_nOffSet.toNat) s.inputBuf.length := by
    rw [bite, buffereventRead, List.length_take, hsub]
  have hread : (UInt32.ofNat (bite s n).length).toNat = (bite s n).length :=
    UInt32.toNat_ofNat_of_lt' (show _ < 2 ^ 32 by omega)
  refine ⟨hl, hoff, hread, by omega, ?_⟩
  rw [UInt32.toNat_add, hread]
  omega

/-- What `tcpRead` does to the counters, when its stores do not fault. -/
theorem tcpReadWith_cases (hlen : s.inputLen = s.inputBuf.length) {p : ℕ} {n : MsgNode}
    (hr : ReadExact s p n) :
    (∃ f, tcpReadWith store s = .error f ∧ ∃ n off data, store n off data = .error f) ∨
      ∃ s', tcpReadWith store s = .ok s' ∧ Exact s' ∧
        s'.inputBuf.length + (bite s n).length = s.inputBuf.length := by
  obtain ⟨hl, hoff, hread, hle, hsum⟩ := hr
  obtain ⟨hp, hn⟩ := lastNode_inv hl
  set data := bite s n with hdata
  set rest := s.inputBuf.drop (n.m_nMsgLen - n.m_nOffSet).toNat with hrest
  have hsplit : rest.length + data.length = s.inputBuf.length := by
    rw [hrest, hdata, bite, buffereventRead, List.length_drop, List.length_take]
    omega
  have hleft : sizeSub s.inputLen (UInt32.ofNat data.length).toNat = rest.length := by
    rw [hread, sizeSub_of_le hle]
    omega
  have hrun : tcpReadWith store s = (do
      let node ← store n n.m_nOffSet.toNat data
      let node := { node with m_nOffSet := node.m_nOffSet + UInt32.ofNat data.length }
      if node.m_nOffSet ≥ node.m_nMsgLen then
        let node ← store node node.m_nMsgLen.toNat [0]
        pure ⟨{ s.handler with
          m_listMsgs := s.handler.m_listMsgs.set p node, m_pLastNode := none }, rest, rest.length⟩
      else
        pure ⟨{ s.handler with m_listMsgs := s.handler.m_listMsgs.set p node }, rest,
          rest.length⟩) := by
    simp only [tcpReadWith, hl, bind, Except.bind, ge_iff_le, if_pos hoff, ← hleft]
    rfl
  rw [hrun]
  cases hs₁ : store n n.m_nOffSet.toNat data with
  | error f => exact .inl ⟨f, rfl, _, _, _, hs₁⟩
  | ok n₁ =>
    simp only [bind, Except.bind]
    by_cases hend : n₁.m_nOffSet + UInt32.ofNat data.length ≥ n₁.m_nMsgLen
    · rw [if_pos hend]
      cases hs₂ : store { n₁ with m_nOffSet := n₁.m_nOffSet + UInt32.ofNat data.length }
        n₁.m_nMsgLen.toNat [0] with
      | error f => exact .inl ⟨f, rfl, _, _, _, hs₂⟩
      | ok n₂ => exact .inr ⟨_, rfl, ⟨rfl, fun q hq => by cases hq⟩, hsplit⟩
    · rw [if_neg hend]
      refine .inr ⟨_, rfl, ⟨rfl, ?_⟩, hsplit⟩
      intro q hq
      obtain rfl : p = q := Option.some.inj (hp.symm.trans hq)
      refine ⟨_, OwnedList.get?_set_self hn _, ?_⟩
      exact UInt32.le_iff_toNat_le.mpr (UInt32.lt_iff_toNat_lt.mp (UInt32.not_le.mp hend)).le

/-- The head at the front of the buffer. -/
def headOf (L : IntLayout) (inputBuf : List UInt8) : PacketHead :=
  .ofBytes L (Block.overwrite (List.replicate PACKETHEADLEN 0) 0 (inputBuf.take PACKETHEADLEN))

section Heads

variable {malloc : ℕ → Malloc}

theorem readHead_short (hshort : s.inputLen < PACKETHEADLEN) :
    readHead L malloc success s = .leave ⟨s.handler, s.inputBuf, success⟩ := by
  rw [readHead, if_pos hshort]

theorem readHead_refused (hle : PACKETHEADLEN ≤ s.inputLen)
    (href : (headOf L s.inputBuf).refused = true) :
    readHead L malloc success s = .leave ⟨s.handler, s.inputBuf.drop PACKETHEADLEN, 0⟩ := by
  rw [readHead, if_neg (not_lt.mpr hle)]
  exact if_pos href

theorem readHead_accepted (hle : PACKETHEADLEN ≤ s.inputLen)
    (hacc : (headOf L s.inputBuf).refused = false) :
    readHead L malloc success s = .again
      ⟨s.handler.insertNode (malloc s.handler.m_listMsgs.next)
        (headOf L s.inputBuf).packetID.toUInt32 (headOf L s.inputBuf).packetLen.toUInt32,
        s.inputBuf.drop PACKETHEADLEN, sizeSub s.inputLen PACKETHEADLEN⟩ := by
  rw [readHead, if_neg (not_lt.mpr hle)]
  exact if_neg (by rw [← headOf, hacc]; exact Bool.false_ne_true)

end Heads

/-- A head that is accepted is taken off the buffer, and the cursor is on its node. -/
theorem readHead_again (hs : Exact s) (hrun : readHead L mallocOk success s = .again s') :
    PACKETHEADLEN ≤ s.inputLen ∧ Exact s' ∧ (∃ p n, s'.handler.lastNode = .ok (p, n)) ∧
      s'.inputBuf.length + PACKETHEADLEN = s.inputBuf.length := by
  obtain ⟨hlen, -⟩ := hs
  by_cases hshort : s.inputLen < PACKETHEADLEN
  · rw [readHead_short hshort] at hrun
    cases hrun
  have hle : PACKETHEADLEN ≤ s.inputLen := not_lt.mp hshort
  cases hacc : (headOf L s.inputBuf).refused with
  | true =>
    rw [readHead_refused hle hacc] at hrun
    cases hrun
  | false =>
    rw [readHead_accepted hle hacc] at hrun
    obtain rfl := Pass.again.inj hrun
    have hf := filling_insertNode s.handler (headOf L s.inputBuf).packetID.toUInt32
      (headOf L s.inputBuf).packetLen.toUInt32
    refine ⟨hle, ⟨?_, ?_⟩, ⟨_, _, hf.lastNode⟩, ?_⟩
    · show sizeSub s.inputLen PACKETHEADLEN = (s.inputBuf.drop PACKETHEADLEN).length
      rw [sizeSub_of_le hle, hlen, List.length_drop]
    · intro p hp
      obtain rfl := Option.some.inj (hf.cursor.symm.trans hp)
      exact ⟨_, OwnedList.get?_last hf.cells, UInt32.zero_le⟩
    · show (s.inputBuf.drop PACKETHEADLEN).length + PACKETHEADLEN = _
      rw [List.length_drop]
      omega

/-- A head that ends the loop is refused, or is not there yet. -/
theorem readHead_leave {r : ReadResult} (hrun : readHead L mallocOk success s = .leave r) :
    r.success = 0 ∨ r = ⟨s.handler, s.inputBuf, success⟩ ∧ s.inputLen < PACKETHEADLEN := by
  by_cases hshort : s.inputLen < PACKETHEADLEN
  · rw [readHead_short hshort] at hrun
    exact .inr ⟨(Pass.leave.inj hrun).symm, hshort⟩
  have hle : PACKETHEADLEN ≤ s.inputLen := not_lt.mp hshort
  cases hacc : (headOf L s.inputBuf).refused with
  | true =>
    rw [readHead_refused hle hacc] at hrun
    obtain rfl := Pass.leave.inj hrun
    exact .inl rfl
  | false =>
    rw [readHead_accepted hle hacc] at hrun
    cases hrun

/-! ## One pass -/

theorem passExact (hs : Exact s) : PassExact L success s := by
  refine ⟨hs, ?_, fun s' hrun => (readHead_again hs hrun).1, ?_⟩
  · rcases hs.cursor.expectsHead with ⟨h, -⟩ | ⟨h, -⟩
    · exact ⟨_, h⟩
    · exact ⟨_, h⟩
  · rintro s' ⟨-, -, ⟨hhead, rfl⟩ | ⟨-, hrun⟩⟩
    · rcases hs.cursor.expectsHead with ⟨h, -⟩ | ⟨-, p, n, hl, -⟩
      · rw [h] at hhead
        cases hhead
      · exact ⟨p, n, hs.read hl⟩
    · obtain ⟨-, hs', ⟨p, n, hl⟩, -⟩ := readHead_again hs hrun
      exact ⟨p, n, hs'.read hl⟩

/-- How the loop ends. -/
def Exits (store : Store) (success : ℤ) : Exec ReadResult → Prop
  | .error f => ∃ n off data, store n off data = .error f
  | .ok r => r.success ≠ 0 → r.success = success ∧
      (r.inputBuf = [] ∨ r.inputBuf.length < PACKETHEADLEN ∧ r.handler.Idle)

/-- The rest of a pass takes the bite. -/
theorem readBodyWith_establishes (hs : Exact s) {p : ℕ}
    {n : MsgNode} (hl : s.handler.lastNode = .ok (p, n)) {v : ℕ}
    (hv : s.inputBuf.length < v + (bite s n).length) :
    Loop.Establishes Exact (·.inputBuf.length) (Exits store success) v
      (readBodyWith store success s) := by
  by_cases hzero : s.inputLen ≤ 0
  · rw [readBodyWith, if_pos hzero]
    intro _
    have hnil : s.inputBuf = [] := by
      apply List.eq_nil_of_length_eq_zero
      have := hs.inputLen
      omega
    exact ⟨rfl, .inl hnil⟩
  · rw [readBodyWith, if_neg hzero]
    rcases tcpReadWith_cases hs.inputLen (hs.read hl) with
      ⟨f, hrun, hfault⟩ | ⟨s', hrun, hs', hlen⟩
    · rw [hrun]
      exact hfault
    · rw [hrun]
      refine ⟨hs', ?_⟩
      show s'.inputBuf.length < v
      omega

theorem readPassWith_establishes (hs : Exact s) :
    Loop.Establishes Exact (·.inputBuf.length) (Exits store success) s.inputBuf.length
      (readPassWith store L success s) := by
  by_cases hpos : s.inputLen > 0
  · rw [readPassWith, if_pos hpos]
    rcases hs.cursor.expectsHead with ⟨hhead, hidle⟩ | ⟨hhead, p, n, hl, hlt⟩
    · simp only [hhead, bind, Except.bind, if_true]
      cases hrun : readHead L mallocOk success s with
      | leave r =>
        intro hsucc
        rcases readHead_leave hrun with hzero | ⟨rfl, hshort⟩
        · exact absurd hzero hsucc
        · exact ⟨rfl, .inr ⟨hs.inputLen ▸ hshort, hidle⟩⟩
      | again s' =>
        obtain ⟨-, hs', ⟨p, n, hl⟩, hlen⟩ := readHead_again hs hrun
        refine readBodyWith_establishes hs' hl ?_
        simp only [PACKETHEADLEN] at hlen
        omega
    · simp only [hhead, bind, Except.bind, Bool.false_eq_true, if_false]
      refine readBodyWith_establishes hs hl ?_
      -- the node needs a byte at least, and there is one
      have hnat := UInt32.lt_iff_toNat_lt.mp hlt
      have hsub : (n.m_nMsgLen - n.m_nOffSet).toNat = n.m_nMsgLen.toNat - n.m_nOffSet.toNat :=
        UInt32.toNat_sub_of_le _ _ (UInt32.le_iff_toNat_le.mpr hnat.le)
      rw [bite, buffereventRead, List.length_take, hsub]
      have := hs.inputLen
      omega
  · rw [readPassWith, if_neg hpos]
    intro _
    have hnil : s.inputBuf = [] := by
      apply List.eq_nil_of_length_eq_zero
      have := hs.inputLen
      omega
    exact ⟨rfl, .inl hnil⟩

/-! ## The loop -/

theorem readLoop_exits (hc : h.CursorOk) (buf : List UInt8) :
    ∃ x, readLoop store L success h buf = some x ∧ Exits store success x :=
  Loop.run_of_variant (readPassWith store L success) (·.inputBuf.length)
    (fun _ hs => readPassWith_establishes hs) (buf.length + 1)
    ⟨rfl, hc⟩ (Nat.lt_succ_self _)

theorem countersExact (hc : h.CursorOk) (buf : List UInt8) :
    CountersExact store L success h buf := by
  obtain ⟨x, hrun, hexits⟩ : ∃ x, readLoop store L success h buf = some x ∧
    Exits store success x := readLoop_exits hc buf
  refine ⟨⟨x, hrun⟩, ?_, ?_, ?_⟩
  · intro s hs
    apply passExact
    refine hs.inv ?_ (⟨rfl, hc⟩ : Exact _)
    intro s s' hs hb
    have hpass : Loop.Establishes Exact (·.inputBuf.length) (Exits store success)
      s.inputBuf.length (readPassWith store L success s) := readPassWith_establishes hs
    rw [hb] at hpass
    exact hpass.1
  · intro f hf
    obtain rfl := Option.some.inj (hrun.symm.trans hf)
    exact hexits
  · intro r hr
    obtain rfl := Option.some.inj (hrun.symm.trans hr)
    exact hexits

/-- **The read loop ends, and its counters are exact**: with stores that never fault it ends
without a fault, and `dealReadEvent` can only fault in a store. -/
theorem counters_exact (L : IntLayout) (success : ℤ) (h : TcpHandler) (hc : h.CursorOk)
    (buf : List UInt8) :
    CountersExact MsgNode.store L success h buf ∧ CountersExact blindStore L success h buf ∧
      (∃ r, readLoop blindStore L success h buf = some (.ok r)) ∧
      readLoop MsgNode.store L success h buf = some (dealReadEvent L mallocOk success h buf) := by
  have hfaithful : CountersExact MsgNode.store L success h buf := countersExact hc buf
  have hblind : CountersExact blindStore L success h buf := countersExact hc buf
  refine ⟨hfaithful, hblind, ?_, ?_⟩
  · obtain ⟨x, hx⟩ := hblind.ends
    cases x with
    | error f =>
      obtain ⟨n, off, data, hfault⟩ := hblind.faults f hx
      cases hfault
    | ok r => exact ⟨r, hx⟩
  · obtain ⟨x, hx⟩ := hfaithful.ends
    rw [hx, dealReadEvent_of_readLoop L success hx]

/-- In the middle of a body of which the buffer has the rest, with three bytes behind it. -/
theorem counters_exact_inBody :
    CountersExact MsgNode.store .little 1 ((TcpHandler.new 1 none).insertNode .block 7 2)
        [65, 66, 3, 0, 0] ∧
      ∃ r, dealReadEvent .little mallocOk 1 ((TcpHandler.new 1 none).insertNode .block 7 2)
        [65, 66, 3, 0, 0] = .ok r ∧ r.inputBuf = [3, 0, 0] := by
  have hc : ((TcpHandler.new 1 none).insertNode .block 7 2).CursorOk := by
    intro p hp
    obtain rfl : 0 = p := Option.some.inj hp
    exact ⟨_, rfl, by decide⟩
  exact ⟨(counters_exact .little 1 _ hc [65, 66, 3, 0, 0]).1, _, rfl, rfl⟩

end TcpHandler

end SmartServer
