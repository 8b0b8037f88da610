import SmartServer.Stands

/-!
# One connection: reading and pushing

`NetWorkSystem::dealReadEvent` reads a connection's bytes with its handler and then either erases
the connection, when a head was refused, or pushes the received nodes into the worker's stream.
This file follows one connection through its read events.

* `cursorLive_of_noEmptyEnd`: the cursor is never on a deleted node as long as no event ends
  right behind the head of a message without body. When one does (`cursor_dangling`), the push
  deletes the node the cursor is on.
* `inserted_of_split`: which messages are inserted does not depend on how the stream is cut, up
  to the event that completes a refused head: the messages completed in that event are lost
  (`inserted_depends_on_split`).
-/

namespace SmartServer

open Framing TcpHandler

/-! ## The connection -/

/-- A connection as the network thread sees it: the handler, until it is erased, the bytes
libevent has buffered, and the worker the messages go to. -/
structure Connection where
  tcpHandler : Option TcpHandler
  inputBuf : List UInt8
  worker : NetWorker
deriving DecidableEq

namespace Connection

def accept (connId : UInt64) (bev : Option ℕ) : Connection := ⟨some (.new connId bev), [], .new⟩

/-- `NetWorkSystem::dealReadEvent`, when `bytes` have arrived. A connection that has been erased
is not found any more, and nobody reads its bytes. -/
def dealReadEvent (L : IntLayout) (mallocNew mallocCopy : ℕ → Malloc) (c : Connection)
    (bytes : List UInt8) : Exec Connection :=
  match c.tcpHandler with
  | none => .ok { c with inputBuf := c.inputBuf ++ bytes }
  | some tcpHandler => do
    let r ← tcpHandler.dealReadEvent L mallocNew 1 (c.inputBuf ++ bytes)
    if r.success = 0 then pure { c with tcpHandler := none, inputBuf := r.inputBuf }
    else
      let (worker, tcpHandler) ← c.worker.pushNodeInStream mallocCopy r.handler
      pure ⟨some tcpHandler, r.inputBuf, worker⟩

/-- The read events of a connection, with all allocations succeeding. -/
def run (L : IntLayout) (connId : UInt64) (bev : Option ℕ) (events : List (List UInt8)) :
    Exec Connection :=
  events.foldlM (dealReadEvent L mallocOk mallocOk) (accept connId bev)

/-- The messages in the worker's stream. -/
def inserted (c : Connection) : List Message :=
  c.worker.m_msgInStream.m_listConMsg.map fun x => x.mMsgNode.message

end Connection

namespace Connection

variable {L : IntLayout} {connId : UInt64} {bev : Option ℕ}

/-! ## The cursor -/

theorem dealReadEvent_erased {mallocNew mallocCopy : ℕ → Malloc} {c : Connection}
    (hc : c.tcpHandler = none) (bytes : List UInt8) :
    c.dealReadEvent L mallocNew mallocCopy bytes =
      .ok { c with inputBuf := c.inputBuf ++ bytes } := by
  rw [dealReadEvent, hc]

/-- An event that completes a refused head erases the connection. -/
theorem dealReadEvent_refused {c : Connection} {h h₀ : TcpHandler} {stream bytes : List UInt8}
    {ins : List Message} (hc : c.tcpHandler = some h) (hs : Stands L h₀ stream ins h c.inputBuf)
    (hlen : ∀ x ∈ announcedLengths L (stream ++ bytes), x.2 < 2 ^ 31)
    (href : (decode L (stream ++ bytes)).2 = .refused) :
    ∃ c', c.dealReadEvent L mallocOk mallocOk bytes = .ok c' ∧ c'.tcpHandler = none ∧
      c'.worker = c.worker := by
  obtain ⟨r, hr, ⟨ms, -, ho⟩, -⟩ := hs.dealReadEvent hlen
  have hzero : r.success = 0 := ho.refused_iff.mpr href
  refine ⟨{ c with tcpHandler := none, inputBuf := r.inputBuf }, ?_, rfl, rfl⟩
  simp only [dealReadEvent, hc, hr, bind, Except.bind, if_pos hzero]
  rfl

/-- Any other event, unless it ends with an empty message, leaves a handler that is ready for the
next one. -/
theorem dealReadEvent_accepted {c : Connection} {h h₀ : TcpHandler} {stream bytes : List UInt8}
    {ins : List Message} (hc : c.tcpHandler = some h) (hs : Stands L h₀ stream ins h c.inputBuf)
    (hlock : c.worker.m_mutexLock = true)
    (hlen : ∀ x ∈ announcedLengths L (stream ++ bytes), x.2 < 2 ^ 31)
    (hend : ¬ EndsEmpty L (stream ++ bytes)) (hacc : (decode L (stream ++ bytes)).2 ≠ .refused) :
    ∃ c' h' ms k, c.dealReadEvent L mallocOk mallocOk bytes = .ok c' ∧ c'.tcpHandler = some h' ∧
      c'.worker.m_mutexLock = true ∧ (decode L (stream ++ bytes)).1 = ins ++ ms ∧
      k = (UInt32.ofNat (ms.length + (partViews (decode L (stream ++ bytes)).2).length)).toNat ∧
      c'.worker.m_msgInStream.tagged MsgNode.message =
        c.worker.m_msgInStream.tagged MsgNode.message ++
          (ms.take k).map (fun m => (h₀.m_nConnId, m)) ∧
      Stands L h₀ (stream ++ bytes) (ins ++ ms.take k) h' c'.inputBuf := by
  obtain ⟨r, hr, hread, hpost⟩ := hs.dealReadEvent hlen
  have hsucc : r.success ≠ 0 := by
    obtain ⟨ms, -, ho⟩ := hread
    exact fun hzero => hacc (ho.refused_iff.mp hzero)
  have hst : Stands L h₀ (stream ++ bytes) ins r.handler r.inputBuf :=
    ⟨hread.follows hsucc, hread.receiving hpost hsucc hend⟩
  obtain ⟨ms, hshows⟩ := hst.follows.shows
  obtain ⟨w', h', hpush⟩ := hst.follows.push_ok hlock
  obtain ⟨-, -, -, hw⟩ := NetWorker.pushNodeInStream_inv keeps_message hpush
  have hcount : r.handler.pushCount =
      (UInt32.ofNat (ms.length + (partViews (decode L (stream ++ bytes)).2).length)).toNat := by
    rw [pushCount, ← List.length_map (f := MsgNode.view), ← views, hshows.views, List.length_append,
      List.length_map]
  refine ⟨⟨some h', r.inputBuf, w'⟩, h', ms, _, ?_, rfl, ?_, hshows.frames, hcount,
    (hst.follows.push hshows hpush).1, hst.push hshows hpush⟩
  · simp only [dealReadEvent, hc, hr, bind, Except.bind, if_neg hsucc, hpush]
    rfl
  · rw [hw]
    exact hlock

/-- As long as no event ends with an empty message, no event faults, and the handler that is left
stands where its bytes take it. -/
theorem run_stands (connId : UInt64) (bev : Option ℕ) {events : List (List UInt8)}
    (hlen : ∀ x ∈ announcedLengths L events.flatten, x.2 < 2 ^ 31)
    (hend : ∀ before, before <+: events → ¬ EndsEmpty L before.flatten) :
    ∃ c, run L connId bev events = .ok c ∧ c.worker.m_mutexLock = true ∧
      ∀ h, c.tcpHandler = some h →
        ∃ ins, Stands L (.new connId bev) events.flatten ins h c.inputBuf := by
  refine Run.progress (fun before (c : Connection) => c.worker.m_mutexLock = true ∧
    ∀ h, c.tcpHandler = some h →
      ∃ ins, Stands L (.new connId bev) before.flatten ins h c.inputBuf) ⟨rfl, ?_⟩ ?_
  · intro h hh
    obtain rfl := Option.some.inj hh
    exact ⟨[], stands_new L connId bev⟩
  · intro before bytes after c hsplit ⟨hlock, hinv⟩
    have hflat : events.flatten = (before.flatten ++ bytes) ++ after.flatten := by
      simp [hsplit]
    have hlen' : ∀ x ∈ announcedLengths L (before.flatten ++ bytes), x.2 < 2 ^ 31 := fun x hx =>
      hlen x (hflat ▸ (announcedLengths_append L _ after.flatten).subset hx)
    have hend' : ¬ EndsEmpty L (before.flatten ++ bytes) := by
      have := hend (before ++ [bytes]) ⟨after, by simp [hsplit]⟩
      simpa using this
    have hconcat : (before ++ [bytes]).flatten = before.flatten ++ bytes := by simp
    rw [hconcat]
    cases hc : c.tcpHandler with
    | none =>
      exact ⟨_, dealReadEvent_erased hc bytes, hlock, fun h hh => by
        rw [show c.tcpHandler = some h from hh] at hc
        cases hc⟩
    | some h =>
      obtain ⟨ins, hs⟩ := hinv h hc
      by_cases href : (decode L (before.flatten ++ bytes)).2 = .refused
      · obtain ⟨c', hstep, hnone, hw⟩ := dealReadEvent_refused hc hs hlen' href
        exact ⟨c', hstep, hw ▸ hlock, fun h' hh' => by rw [hnone] at hh'; cases hh'⟩
      · obtain ⟨c', h', ms, k, hstep, hh', hlock', -, -, -, hs'⟩ :=
          dealReadEvent_accepted hc hs hlock hlen' hend' href
        refine ⟨c', hstep, hlock', fun h'' hh'' => ⟨ins ++ ms.take k, ?_⟩⟩
        obtain rfl : h' = h'' := Option.some.inj (hh'.symm.trans hh'')
        exact hs'

/-- **The cursor is live.** When announced lengths are not negative and no event ends right behind
the head of a message without body, then in every state of the run `m_pLastNode` is `NULL` or on a
node of the list: between two events, and between the read and the push of an event. No event
faults. -/
theorem cursorLive_of_noEmptyEnd (L : IntLayout) (connId : UInt64) (bev : Option ℕ)
    (events : List (List UInt8)) (hlen : ∀ x ∈ announcedLengths L events.flatten, x.2 < 2 ^ 31)
    (hend : ∀ before, before <+: events → ¬ EndsEmpty L before.flatten) :
    ∀ before, before <+: events → ∃ c, run L connId bev before = .ok c ∧
      ∀ h, c.tcpHandler = some h → h.CursorLive ∧
        ∀ bytes, before ++ [bytes] <+: events →
          ∃ r, h.dealReadEvent L mallocOk 1 (c.inputBuf ++ bytes) = .ok r ∧
            r.handler.CursorLive := by
  intro before hbefore
  have hbytesOf : ∀ {es : List (List UInt8)}, es <+: events →
      ∀ x ∈ announcedLengths L es.flatten, x.2 < 2 ^ 31 := by
    rintro es ⟨after, rfl⟩ x hx
    apply hlen x
    rw [List.flatten_append]
    exact (announcedLengths_append L _ _).subset hx
  obtain ⟨c, hrun, -, hstands⟩ := run_stands connId bev (hbytesOf hbefore)
    fun b hb => hend b (hb.trans hbefore)
  refine ⟨c, hrun, ?_⟩
  intro h hh
  obtain ⟨ins, hs⟩ := hstands h hh
  refine ⟨hs.receiving.cursorLive, ?_⟩
  intro bytes hbytes
  have hlen' := hbytesOf hbytes
  rw [List.flatten_append, List.flatten_singleton] at hlen'
  obtain ⟨r, hr, -, hpost⟩ := hs.dealReadEvent hlen'
  exact ⟨r, hr, hpost.cursorLive⟩

/-- A message without body arrives alone, and then the next byte: the push has deleted the node
the cursor is on, and the next event reads it. -/
theorem cursor_dangling :
    ∃ c h, run .little 1 none [[0, 0, 0, 0, 0, 0, 0, 0]] = .ok c ∧ c.tcpHandler = some h ∧
      ¬ h.CursorLive ∧
      run .little 1 none [[0, 0, 0, 0, 0, 0, 0, 0], [0]] = .error .useAfterFree :=
  ⟨_, _, rfl, rfl, fun hlive => absurd (hlive 0 rfl) (by decide), by decide⟩

/-- A message without body, with the head of the next one in the same event. -/
theorem cursorLive_example :
    ∃ c h, run .little 1 none [[0, 0, 0, 0, 0, 0, 0, 0, 0], [0, 0, 0, 1, 0, 0, 0]] = .ok c ∧
      c.tcpHandler = some h ∧ h.CursorLive ∧
      ∃ r, h.dealReadEvent .little mallocOk 1 (c.inputBuf ++ [65]) = .ok r ∧
        r.handler.CursorLive := by
  obtain ⟨c, hc, hsome⟩ :
      ∃ c, run .little 1 none [[0, 0, 0, 0, 0, 0, 0, 0, 0], [0, 0, 0, 1, 0, 0, 0]] = .ok c ∧
        c.tcpHandler.isSome = true := ⟨_, rfl, rfl⟩
  obtain ⟨h, hh⟩ := Option.isSome_iff_exists.mp hsome
  obtain ⟨c', hc', hlive⟩ := cursorLive_of_noEmptyEnd .little 1 none
    [[0, 0, 0, 0, 0, 0, 0, 0, 0], [0, 0, 0, 1, 0, 0, 0], [65]] (by decide) (by
      intro before hb
      rw [← List.mem_inits] at hb
      revert before
      decide) [[0, 0, 0, 0, 0, 0, 0, 0, 0], [0, 0, 0, 1, 0, 0, 0]] (by decide)
  obtain rfl := Except.ok.inj (hc'.symm.trans hc)
  obtain ⟨hcursor, hnext⟩ := hlive h hh
  exact ⟨c', h, hc, hh, hcursor, hnext [65] (by decide)⟩

/-! ## Segmentation -/

/-- The bytes of the events before the one that completes a refused head. -/
def acceptedBytes (L : IntLayout) : List UInt8 → List (List UInt8) → List UInt8
  | seen, [] => seen
  | seen, bytes :: events =>
    if (decode L (seen ++ bytes)).2 = .refused then seen
    else acceptedBytes L (seen ++ bytes) events

/-- No event completes so many messages that their number does not fit into a `UInt32`. -/
def FewPerEvent (L : IntLayout) (seen : List UInt8) (events : List (List UInt8)) : Prop :=
  ∀ before bytes, before ++ [bytes] <+: events →
    (decode L (seen ++ before.flatten ++ bytes)).1.length <
      (decode L (seen ++ before.flatten)).1.length + (2 ^ 32 - 1)

theorem decode_refused_append {stream : List UInt8} (h : (decode L stream).2 = .refused)
    (bytes : List UInt8) : (decode L (stream ++ bytes)).2 = .refused := by
  rw [decode_append, h, Format.feed_refused]

/-- Without a refused head all bytes are accepted. -/
theorem acceptedBytes_of_accepted {seen : List UInt8} {events : List (List UInt8)}
    (h : (decode L (seen ++ events.flatten)).2 ≠ .refused) :
    acceptedBytes L seen events = seen ++ events.flatten := by
  induction events generalizing seen with
  | nil => simp [acceptedBytes]
  | cons bytes events ih =>
    rw [List.flatten_cons, ← List.append_assoc] at h ⊢
    have hne : (decode L (seen ++ bytes)).2 ≠ .refused := fun href =>
      h (decode_refused_append href _)
    rw [acceptedBytes, if_neg hne, ih h]

theorem length_partViews (ph : Phase UInt8 UInt32) : (partViews ph).length ≤ 1 := by
  cases ph <;> simp [partViews]

theorem run_erased {c : Connection} (hc : c.tcpHandler = none) (events : List (List UInt8)) :
    ∃ c', events.foldlM (dealReadEvent L mallocOk mallocOk) c = .ok c' ∧
      c'.worker = c.worker := by
  induction events generalizing c with
  | nil => exact ⟨c, rfl, rfl⟩
  | cons bytes events ih =>
    obtain ⟨c', hrun, hw⟩ := ih (c := { c with inputBuf := c.inputBuf ++ bytes }) hc
    exact ⟨c', by rw [List.foldlM_cons, dealReadEvent_erased hc]; exact hrun, hw⟩

/-- From a state in which all messages so far are inserted: the run inserts the messages of the
accepted bytes. -/
theorem run_inserted {events : List (List UInt8)} {c : Connection} {h h₀ : TcpHandler}
    {stream : List UInt8} (hc : c.tcpHandler = some h)
    (hs : Stands L h₀ stream (decode L stream).1 h c.inputBuf)
    (hlock : c.worker.m_mutexLock = true)
    (htag : c.worker.m_msgInStream.tagged MsgNode.message =
      (decode L stream).1.map (fun m => (h₀.m_nConnId, m)))
    (hlen : ∀ x ∈ announcedLengths L (stream ++ events.flatten), 1 ≤ x.2 ∧ x.2 < 2 ^ 31)
    (hfew : FewPerEvent L stream events) :
    ∃ c', events.foldlM (dealReadEvent L mallocOk mallocOk) c = .ok c' ∧
      c'.worker.m_msgInStream.tagged MsgNode.message =
        (decode L (acceptedBytes L stream events)).1.map (fun m => (h₀.m_nConnId, m)) := by
  induction events generalizing c h stream with
  | nil => exact ⟨c, rfl, htag⟩
  | cons bytes events ih =>
    rw [List.flatten_cons, ← List.append_assoc] at hlen
    have hlen' : ∀ x ∈ announcedLengths L (stream ++ bytes), 1 ≤ x.2 ∧ x.2 < 2 ^ 31 :=
      fun x hx => hlen x ((announcedLengths_append L _ _).subset hx)
    rw [List.foldlM_cons]
    by_cases href : (decode L (stream ++ bytes)).2 = .refused
    · obtain ⟨c₁, hstep, hnone, hw⟩ :=
        dealReadEvent_refused hc hs (fun x hx => (hlen' x hx).2) href
      obtain ⟨c', hrun, hw'⟩ := run_erased (L := L) hnone events
      refine ⟨c', by rw [hstep]; exact hrun, ?_⟩
      rw [hw', hw, htag, acceptedBytes, if_pos href]
    · obtain ⟨c₁, h₁, ms, k, hstep, hc₁, hlock₁, hms, hk, htag₁, hs₁⟩ :=
        dealReadEvent_accepted hc hs hlock (fun x hx => (hlen' x hx).2)
          (not_endsEmpty fun x hx => (hlen' x hx).1) href
      have hfirst := hfew [] bytes ⟨events, rfl⟩
      rw [List.flatten_nil, List.append_nil, hms, List.length_append] at hfirst
      have hpart := length_partViews (decode L (stream ++ bytes)).2
      have hall : ms.take k = ms := by
        rw [hk, UInt32.toNat_ofNat_of_lt' (show _ < 2 ^ 32 by omega)]
        exact List.take_of_length_le (by omega)
      rw [hall] at htag₁ hs₁
      rw [← hms] at hs₁
      obtain ⟨c', hrun, htag'⟩ := ih hc₁ hs₁ hlock₁
        (by rw [htag₁, htag, hms, List.map_append]) hlen
        (fun before bs hb => by
          have := hfew (bytes :: before) bs (by simpa using hb)
          simpa [List.append_assoc] using this)
      refine ⟨c', by rw [hstep]; exact hrun, ?_⟩
      rw [htag', acceptedBytes, if_neg href]

theorem inserted_eq (c : Connection) :
    c.inserted = (c.worker.m_msgInStream.tagged MsgNode.message).map Prod.snd := by
  simp [inserted, MsgStream.tagged, ConMsgNode.tagged, Function.comp_def]

theorem run_accept_inserted (connId : UInt64) (bev : Option ℕ) {events : List (List UInt8)}
    (hlen : ∀ x ∈ announcedLengths L events.flatten, 1 ≤ x.2 ∧ x.2 < 2 ^ 31)
    (hfew : FewPerEvent L [] events) :
    ∃ c, run L connId bev events = .ok c ∧
      c.inserted = (decode L (acceptedBytes L [] events)).1 := by
  obtain ⟨c, hrun, htag⟩ := run_inserted (L := L) (c := accept connId bev) rfl
    (stands_new L connId bev) rfl rfl hlen hfew
  refine ⟨c, hrun, ?_⟩
  rw [inserted_eq, htag, List.map_map]
  exact List.map_id _

/-- **Segmentation.** Cut into events in whatever way, a stream inserts the messages that are
complete before the event in which the first refused head is completed. Two cuts of a stream
without a refused head insert the same messages. -/
theorem inserted_of_split (L : IntLayout) (connId : UInt64) (bev : Option ℕ)
    (events₁ events₂ : List (List UInt8)) (hsame : events₁.flatten = events₂.flatten)
    (hlen : ∀ x ∈ announcedLengths L events₁.flatten, 1 ≤ x.2 ∧ x.2 < 2 ^ 31)
    (hfew₁ : FewPerEvent L [] events₁) (hfew₂ : FewPerEvent L [] events₂) :
    ∃ c₁ c₂, run L connId bev events₁ = .ok c₁ ∧ run L connId bev events₂ = .ok c₂ ∧
      c₁.inserted = (decode L (acceptedBytes L [] events₁)).1 ∧
      c₂.inserted = (decode L (acceptedBytes L [] events₂)).1 ∧
      ((decode L events₁.flatten).2 ≠ .refused → c₁.inserted = c₂.inserted) := by
  obtain ⟨c₁, hrun₁, hins₁⟩ := run_accept_inserted connId bev hlen hfew₁
  obtain ⟨c₂, hrun₂, hins₂⟩ :=
    run_accept_inserted connId bev (hsame ▸ hlen) hfew₂
  refine ⟨c₁, c₂, hrun₁, hrun₂, hins₁, hins₂, ?_⟩
  intro hacc
  have h₁ : acceptedBytes L [] events₁ = events₁.flatten := acceptedBytes_of_accepted hacc
  have h₂ : acceptedBytes L [] events₂ = events₂.flatten :=
    acceptedBytes_of_accepted (by rw [List.nil_append, ← hsame]; exact hacc)
  rw [hins₁, hins₂, h₁, h₂, hsame]

/-- So it is for a stream of fewer messages. -/
theorem fewPerEvent_of_length {seen : List UInt8} {events : List (List UInt8)}
    (h : (decode L (seen ++ events.flatten)).1.length < 2 ^ 32 - 1) :
    FewPerEvent L seen events := by
  rintro before bytes ⟨after, rfl⟩
  have hframes := (packetCodec L).frames_append (.head []) (seen ++ before.flatten ++ bytes)
    after.flatten
  have hlen : (decode L (seen ++ before.flatten ++ bytes)).1.length ≤
      (decode L (seen ++ (before ++ [bytes] ++ after).flatten)).1.length := by
    simpa [decode, List.append_assoc] using hframes.length_le
  omega

/-- The second message begins in the first event or in the second one; a refused head ends both
streams. -/
theorem inserted_of_split_example :
    ∃ c₁ c₂,
      run .little 1 none [[0, 0, 0, 0, 1, 0, 0, 0, 65, 2, 0], [0, 0, 1, 0, 0, 0, 66],
        [255, 255, 255, 255, 0, 0, 0, 0]] = .ok c₁ ∧
      run .little 1 none [[0, 0, 0, 0], [1, 0, 0, 0, 65], [2, 0, 0, 0, 1, 0, 0, 0, 66, 255],
        [255, 255, 255, 0, 0, 0, 0]] = .ok c₂ ∧
      c₁.inserted = (decode .little (acceptedBytes .little [] [[0, 0, 0, 0, 1, 0, 0, 0, 65, 2, 0],
        [0, 0, 1, 0, 0, 0, 66], [255, 255, 255, 255, 0, 0, 0, 0]])).1 ∧
      c₂.inserted = (decode .little (acceptedBytes .little [] [[0, 0, 0, 0], [1, 0, 0, 0, 65],
        [2, 0, 0, 0, 1, 0, 0, 0, 66, 255], [255, 255, 255, 0, 0, 0, 0]])).1 ∧
      ((decode .little [[0, 0, 0, 0, 1, 0, 0, 0, 65, 2, 0], [0, 0, 1, 0, 0, 0, 66],
        [255, 255, 255, 255, 0, 0, 0, 0]].flatten).2 ≠ .refused → c₁.inserted = c₂.inserted) :=
  inserted_of_split .little 1 none _ _ (by decide) (by decide)
    (fewPerEvent_of_length (by decide)) (fewPerEvent_of_length (by decide))

/-! ## Cuts that make a difference -/

/-- `n` messages of one byte, on the wire. -/
def oneByteFrames (n : ℕ) : List (List UInt8) := List.replicate n [0, 0, 0, 0, 1, 0, 0, 0, 65]

theorem decode_oneByteFrames (n : ℕ) :
    decode .little (oneByteFrames n).flatten = (List.replicate n (0, [65]), .head []) := by
  have hwire : (packetCodec .little).wire (List.replicate n (0, [65])) =
      (oneByteFrames n).flatten := by
    rw [Codec.wire, List.flatMap_def, List.map_replicate, oneByteFrames]
    congr 1
  rw [decode, ← hwire]
  apply (packetCodec .little).feed_wire
  intro m hm
  obtain rfl := List.eq_of_mem_replicate hm
  exact (by decide : (0 : UInt32) ≤ MAXMESSAGEID ∧ 1 < 2 ^ 32)

theorem announcedLengths_oneByteFrames (n : ℕ) :
    ∀ x ∈ announcedLengths .little (oneByteFrames n).flatten, 1 ≤ x.2 ∧ x.2 < 2 ^ 31 := by
  intro x hx
  have hdecode := decode_oneByteFrames n
  rw [decode] at hdecode
  rw [announcedLengths, Format.announced, hdecode, Phase.pending, List.append_nil,
    List.map_replicate] at hx
  obtain rfl := List.eq_of_mem_replicate hx
  exact ⟨le_rfl, by decide⟩

/-- `2 ^ 32` messages in one event are none: their number is cut down to a `UInt32`. -/
theorem inserted_one_event {n : ℕ} (hn : n % 2 ^ 32 = 0) :
    ∃ c, run .little 1 none [(oneByteFrames n).flatten] = .ok c ∧ c.inserted = [] := by
  have hlen := announcedLengths_oneByteFrames n
  have hacc : (decode .little (oneByteFrames n).flatten).2 ≠ .refused := by
    rw [decode_oneByteFrames]
    exact fun h => by cases h
  obtain ⟨c, h, ms, k, hstep, -, -, hms, hk, htag, -⟩ :=
    dealReadEvent_accepted (c := accept 1 none) rfl (stands_new .little 1 none) rfl
      (fun x hx => (hlen x hx).2) (not_endsEmpty fun x hx => (hlen x hx).1) hacc
  rw [List.nil_append, decode_oneByteFrames] at hms hk
  have hzero : k = 0 := by
    rw [hk, ← show _ = ms from hms, List.length_replicate]
    rw [UInt32.toNat_ofNat']
    simpa [partViews] using hn
  refine ⟨c, by rw [run, List.foldlM_cons, hstep]; rfl, ?_⟩
  rw [inserted_eq, htag, hzero]
  rfl

theorem fewPerEvent_oneByteFrames (n : ℕ) : FewPerEvent .little [] (oneByteFrames n) := by
  intro before bytes hb
  have hbytes : bytes = [0, 0, 0, 0, 1, 0, 0, 0, 65] :=
    List.eq_of_mem_replicate (hb.subset (by simp))
  have hbefore : before = oneByteFrames before.length := by
    refine List.eq_replicate_iff.mpr ⟨rfl, ?_⟩
    intro b hb'
    exact List.eq_of_mem_replicate (hb.subset (by simp [hb']))
  have hnext : before.flatten ++ bytes = (oneByteFrames (before.length + 1)).flatten := by
    rw [oneByteFrames, List.replicate_succ', ← oneByteFrames, ← hbefore, hbytes]
    simp
  rw [List.nil_append, hnext, decode_oneByteFrames, hbefore, decode_oneByteFrames,
    List.length_replicate, List.length_replicate, oneByteFrames, List.length_replicate]
  omega

theorem inserted_one_by_one (n : ℕ) :
    ∃ c, run .little 1 none (oneByteFrames n) = .ok c ∧
      c.inserted = List.replicate n (0, [65]) := by
  obtain ⟨c, hrun, hins⟩ := run_accept_inserted 1 none
    (announcedLengths_oneByteFrames n) (fewPerEvent_oneByteFrames n)
  refine ⟨c, hrun, ?_⟩
  have hacc : (decode .little ([] ++ (oneByteFrames n).flatten)).2 ≠ .refused := by
    rw [List.nil_append, decode_oneByteFrames]
    exact fun h => by cases h
  rw [hins, acceptedBytes_of_accepted hacc, List.nil_append, decode_oneByteFrames]

/-- The messages inserted depend on the cut: a refused head in the same event loses the message
before it, and `2 ^ 32` messages in the same event are not seen. -/
theorem inserted_depends_on_split :
    (∃ c₁ c₂,
      run .little 1 none [[0, 0, 0, 0, 1, 0, 0, 0, 65, 255, 255, 255, 255, 0, 0, 0, 0]] = .ok c₁ ∧
      run .little 1 none [[0, 0, 0, 0, 1, 0, 0, 0, 65], [255, 255, 255, 255, 0, 0, 0, 0]] =
        .ok c₂ ∧
      c₁.inserted = [] ∧ c₂.inserted = [(0, [65])]) ∧
    ∃ c₁ c₂, run .little 1 none [(oneByteFrames (2 ^ 32)).flatten] = .ok c₁ ∧
      run .little 1 none (oneByteFrames (2 ^ 32)) = .ok c₂ ∧ c₁.inserted ≠ c₂.inserted := by
  refine ⟨⟨_, _, rfl, rfl, rfl, rfl⟩, ?_⟩
  obtain ⟨c₁, hrun₁, hins₁⟩ := inserted_one_event (n := 2 ^ 32) rfl
  obtain ⟨c₂, hrun₂, hins₂⟩ := inserted_one_by_one (2 ^ 32)
  refine ⟨c₁, c₂, hrun₁, hrun₂, ?_⟩
  intro he
  have hlen := congrArg List.length (hins₁.symm.trans (he.trans hins₂))
  rw [List.length_replicate] at hlen
  exact absurd hlen (by decide)

end Connection

end SmartServer
