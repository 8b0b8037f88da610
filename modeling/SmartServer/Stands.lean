import SmartServer.Cursor
import SmartServer.WorkerQueue

/-!
# Where a handler stands between two events

A read event of a connection has two halves: the handler reads, and then `pushNodeInStream` takes
the received nodes off its list. This file follows a handler through both, in two strengths.

* `Follows`: what is true of a handler that has got this far, whatever has arrived. Its list shows
  the messages of the stream that have not been inserted, and unless its cursor is dangling it
  will read on as the decoder does. Both halves keep it when they do not fault
  (`Follows.dealReadEvent`, `Follows.push`).
* `Stands`: the cursor is also `NULL` or on an unfinished node. Then neither half faults
  (`Stands.dealReadEvent`, `Follows.push_ok`), and as long as the event does not end right behind
  the head of a message without body, the handler stands again (`Read.receiving`,
  `Stands.drained`).
-/

namespace SmartServer

open Framing TcpHandler

/-! ## Pushing settled nodes -/

theorem drained_settled {done part : List MsgNode} (hdone : ∀ n ∈ done, n.isReceived = true)
    (hpart : ∀ n ∈ part, n.isReceived = false) (k : ℕ) :
    drained k (done ++ part) = done.take k := by
  induction done generalizing k with
  | nil =>
    cases part with
    | nil => simp [drained]
    | cons n part =>
      cases k with
      | zero => rfl
      | succ k => simp [drained, hpart n (by simp)]
  | cons n done ih =>
    cases k with
    | zero => rfl
    | succ k =>
      have hrest := ih (fun n' hn' => hdone n' (by simp [hn'])) k
      simp only [drained] at hrest
      simp [drained, hdone n (by simp), hrest]

namespace NetWorker

/-- Nodes that can be copied are pushed without a fault. -/
theorem pushLoop_ok {k : ℕ} {h : TcpHandler} {s : MsgStream}
    (hk : k ≤ h.m_listMsgs.values.length)
    (hcopy : ∀ n ∈ drained k h.m_listMsgs.values, n.Copyable) :
    ∃ r, pushLoop mallocOk k (h, s) = .ok r := by
  induction k generalizing h s with
  | zero => exact ⟨_, rfl⟩
  | succ k ih =>
    cases hvals : h.m_listMsgs.values with
    | nil => rw [hvals] at hk; cases hk
    | cons n ns =>
      rw [hvals] at hk hcopy
      by_cases hrec : n.isReceived = true
      · have hn : n.Copyable := hcopy n (by simp [drained, hrec])
        have hassign : MsgNode.assign (mallocOk (2 * k + 1)) .empty n = .ok (n.copied hn) :=
          MsgNode.copyInto_ok hn
        have hcopy' : ConMsgNode.copy (mallocOk (2 * k)) ⟨h.m_nConnId, n.copied hn⟩ =
            .ok ⟨h.m_nConnId, n.copied hn⟩ := by
          have hagain := (MsgNode.isCopy_copied hn).copyInto
          simp [ConMsgNode.copy, ConMsgNode.assign, MsgNode.assign, mallocOk, hagain, bind,
            Except.bind, pure, Except.pure]
        have htail : h.m_listMsgs.popFront.values = ns := by simp [hvals]
        have hrest : ∀ n' ∈ drained k ns, n'.Copyable := fun n' hn' =>
          hcopy n' (by simpa [drained, hrec] using Or.inr hn')
        obtain ⟨r, hr⟩ := ih (h := { h with m_listMsgs := h.m_listMsgs.popFront })
          (s := ⟨s.m_nCount + 1, s.m_listConMsg ++ [⟨h.m_nConnId, n.copied hn⟩]⟩)
          (by rw [htail]; simpa using hk) (by rw [htail]; exact hrest)
        refine ⟨r, ?_⟩
        simpa only [pushLoop, hvals, hrec, if_true, hassign, MsgStream.insertMsgToList, hcopy',
          bind, Except.bind, pure, Except.pure] using hr
      · exact ⟨(h, s), by simp only [pushLoop, hvals, if_neg hrec]⟩

theorem pushNodeInStream_ok {w : NetWorker} {h : TcpHandler} (hlock : w.m_mutexLock = true)
    (hcopy : ∀ n ∈ h.drained, n.Copyable) : ∃ r, pushNodeInStream mallocOk w h = .ok r := by
  have hk : (UInt32.ofNat h.m_listMsgs.values.length).toNat ≤ h.m_listMsgs.values.length := by
    rw [UInt32.toNat_ofNat']
    exact Nat.mod_le _ _
  obtain ⟨⟨h', s⟩, hloop⟩ := pushLoop_ok (s := w.m_msgInStream) hk hcopy
  refine ⟨({ w with m_msgInStream := s }, h'), ?_⟩
  simp only [pushNodeInStream, lock, hlock, if_true, hloop, bind, Except.bind, pure, Except.pure]

end NetWorker
namespace TcpHandler

variable {L : IntLayout} {h₀ h h' : TcpHandler} {vs : List NodeView} {ph : Phase UInt8 UInt32}

/-! ## Where a handler stands -/

/-- The stream ends right behind the head of a message without body. -/
def EndsEmpty (L : IntLayout) (stream : List UInt8) : Prop :=
  (decode L stream).2 = .head [] ∧ ∃ m ∈ (decode L stream).1.getLast?, m.2 = []

instance (L : IntLayout) (stream : List UInt8) : Decidable (EndsEmpty L stream) :=
  inferInstanceAs (Decidable (_ ∧ _))

/-- Without empty messages there is no such end. -/
theorem not_endsEmpty {stream : List UInt8} (hlen : ∀ x ∈ announcedLengths L stream, 1 ≤ x.2) :
    ¬ EndsEmpty L stream := by
  rintro ⟨-, m, hm, hempty⟩
  have hmem : (m.1, m.2.length) ∈ announcedLengths L stream :=
    List.mem_append_left _ (List.mem_map_of_mem (List.mem_of_mem_getLast? hm))
  have := hlen _ hmem
  rw [hempty] at this
  exact absurd this (by simp)

/-- The cursor is `NULL` or on a node that is still in the list. -/
def CursorLive (h : TcpHandler) : Prop :=
  ∀ p, h.m_pLastNode = some p → (h.m_listMsgs.get? p).isSome

/-- After `stream` the handler of `h₀`'s connection, with the unread bytes of `r`, has the
messages of the stream in its list, but for those that have been inserted. -/
structure Read (L : IntLayout) (h₀ : TcpHandler) (stream : List UInt8) (inserted : List Message)
    (r : ReadResult) : Prop where
  frames : ∃ ms, (decode L stream).1 = inserted ++ ms ∧
    Outcome h₀ (ms.map messageView) (decode L stream).2 r

/-- The messages `ms` of the stream are in the list and not inserted yet. -/
structure Shows (L : IntLayout) (stream : List UInt8) (inserted : List Message) (h : TcpHandler)
    (ms : List Message) : Prop where
  frames : (decode L stream).1 = inserted ++ ms
  views : h.views = ms.map messageView ++ partViews (decode L stream).2

/-- Where a handler is after the events that brought `stream`, when none has faulted and no head
was refused. Only with a cursor that is not dangling can it read on. -/
structure Follows (L : IntLayout) (h₀ : TcpHandler) (stream : List UInt8)
    (inserted : List Message) (h : TcpHandler) (inputBuf : List UInt8) : Prop where
  accepted : (decode L stream).2 ≠ .refused
  conn : SameConn h₀ h
  shows : ∃ ms, Shows L stream inserted h ms
  read : h.CursorLive → Read L h₀ stream inserted ⟨h, inputBuf, 1⟩

/-- It is also ready for the next event: the cursor is `NULL` or on the unfinished node. -/
structure Stands (L : IntLayout) (h₀ : TcpHandler) (stream : List UInt8)
    (inserted : List Message) (h : TcpHandler) (inputBuf : List UInt8) : Prop where
  follows : Follows L h₀ stream inserted h inputBuf
  receiving : h.Receiving

/-- A read that has accepted all heads goes on. -/
theorem Read.follows {stream : List UInt8} {inserted : List Message} {r : ReadResult}
    (hread : Read L h₀ stream inserted r) (hsucc : r.success ≠ 0) :
    Follows L h₀ stream inserted r.handler r.inputBuf := by
  obtain ⟨ms, hms, ho⟩ := hread
  have hacc : (decode L stream).2 ≠ .refused := fun h => hsucc (ho.refused_iff.mpr h)
  have hone : r.success = 1 := by
    obtain ⟨-, ho⟩ := ho
    cases hph : (decode L stream).2 with
    | head got => rw [hph] at ho; exact ho.1
    | body id len got => rw [hph] at ho; exact ho.1
    | refused => exact absurd hph hacc
  obtain ⟨handler, inputBuf, success⟩ := r
  obtain rfl : success = 1 := hone
  exact ⟨hacc, ho.1, ⟨ms, hms, ho.views_eq⟩, fun _ => ⟨ms, hms, ho⟩⟩

theorem follows_new (L : IntLayout) (connId : UInt64) (bev : Option ℕ) :
    Follows L (.new connId bev) [] [] (.new connId bev) [] := by
  exact Read.follows (r := fresh connId bev) ⟨[], rfl, outcome_fresh connId bev⟩ one_ne_zero

theorem stands_new (L : IntLayout) (connId : UInt64) (bev : Option ℕ) :
    Stands L (.new connId bev) [] [] (.new connId bev) [] :=
  ⟨follows_new L connId bev, receiving_of_none rfl⟩

theorem Receiving.cursorLive (hr : h.Receiving) : h.CursorLive := by
  intro p hp
  obtain ⟨n, hn, -⟩ := hr p hp
  rw [hn]
  rfl

/-! ## The first half: reading -/

/-- A dangling cursor is only looked at when there are bytes. -/
theorem dealReadEvent_dangling {buf : List UInt8} {r : ReadResult} (hd : ¬ h.CursorLive)
    (hrun : TcpHandler.dealReadEvent L mallocOk 1 h buf = .ok r) : buf = [] ∧ r = ⟨h, [], 1⟩ := by
  cases buf with
  | nil => exact ⟨rfl, (Except.ok.inj hrun).symm⟩
  | cons b bs =>
    exfalso
    obtain ⟨p, hp, hdead⟩ : ∃ p, h.m_pLastNode = some p ∧ h.m_listMsgs.get? p = none := by
      simpa [CursorLive] using hd
    have hhead : h.expectsHead = .error .useAfterFree := by
      simp [expectsHead, lastNode, hp, hdead, bind, Except.bind]
    have hpass : readPass L mallocOk 1 ⟨h, b :: bs, (b :: bs).length⟩ = .error .useAfterFree := by
      rw [readPass, if_pos (by simp), hhead]
      rfl
    rw [TcpHandler.dealReadEvent, Loop.run, hpass] at hrun
    cases hrun

/-- Read on with a cursor that is live. -/
theorem Read.next {stream inputBuf : List UInt8} {inserted : List Message}
    (hread : Read L h₀ stream inserted ⟨h, inputBuf, 1⟩)
    (hacc : (decode L stream).2 ≠ .refused) (bytes : List UInt8) :
    match TcpHandler.dealReadEvent L mallocOk 1 h (inputBuf ++ bytes) with
    | .error _ => ¬ (packetCodec L).Throughout Roomy (decode L stream).2 bytes
    | .ok r => Read L h₀ (stream ++ bytes) inserted r := by
  obtain ⟨ms, hms, ho⟩ := hread
  have hev := ho.next (wf_decode L stream) hacc bytes
  cases hrun : TcpHandler.dealReadEvent L mallocOk 1 h (inputBuf ++ bytes) with
  | error f =>
    rw [hrun] at hev
    exact hev.2
  | ok r =>
    rw [hrun] at hev
    refine ⟨ms ++ ((packetCodec L).feed (decode L stream).2 bytes).1, ?_, ?_⟩
    · rw [decode_append, hms, List.append_assoc]
    · rw [decode_append, List.map_append]
      exact hev.2

/-- **Reading keeps `Follows`**, unless a head is refused. -/
theorem Follows.dealReadEvent {stream bytes inputBuf : List UInt8} {inserted : List Message}
    {r : ReadResult} (hf : Follows L h₀ stream inserted h inputBuf)
    (hrun : TcpHandler.dealReadEvent L mallocOk 1 h (inputBuf ++ bytes) = .ok r) :
    SameConn h₀ r.handler ∧
      (r.success ≠ 0 → Follows L h₀ (stream ++ bytes) inserted r.handler r.inputBuf) := by
  by_cases hlive : h.CursorLive
  · have hread := (hf.read hlive).next hf.accepted bytes
    rw [hrun] at hread
    exact ⟨hread.frames.choose_spec.2.1, hread.follows⟩
  · obtain ⟨hnil, rfl⟩ := dealReadEvent_dangling hlive hrun
    obtain ⟨rfl, rfl⟩ := List.append_eq_nil_iff.mp hnil
    rw [List.append_nil]
    exact ⟨hf.conn, fun _ => hf⟩

/-- **A handler that stands reads without a fault.** -/
theorem Stands.dealReadEvent {stream bytes inputBuf : List UInt8} {inserted : List Message}
    (hs : Stands L h₀ stream inserted h inputBuf)
    (hlen : ∀ x ∈ announcedLengths L (stream ++ bytes), x.2 < 2 ^ 31) :
    ∃ r, TcpHandler.dealReadEvent L mallocOk 1 h (inputBuf ++ bytes) = .ok r ∧
      Read L h₀ (stream ++ bytes) inserted r ∧ CursorPost r := by
  obtain ⟨hf, hrecv⟩ := hs
  have hroom := roomy_of_announced (packetCodec L).wf_start hlen
  rw [Format.throughout_append] at hroom
  have hread := (hf.read hrecv.cursorLive).next hf.accepted bytes
  cases hrun : TcpHandler.dealReadEvent L mallocOk 1 h (inputBuf ++ bytes) with
  | error f =>
    rw [hrun] at hread
    exact absurd hroom.2 hread
  | ok r =>
    rw [hrun] at hread
    exact ⟨r, rfl, hread, dealReadEvent_cursor hrecv hrun⟩

/-- The cursor is live after the read, whatever the event ended with. -/
theorem CursorPost.cursorLive {r : ReadResult} (hc : CursorPost r) : r.handler.CursorLive := by
  rcases hc with hr | ⟨-, init, p, n, hcells, hp, -⟩
  · exact hr.cursorLive
  · intro q hq
    obtain rfl : p = q := Option.some.inj (hp.symm.trans hq)
    rw [OwnedList.get?_last hcells]
    rfl

/-- Unless the stream ends with an empty message, the handler is receiving after the read. -/
theorem Read.receiving {stream : List UInt8} {inserted : List Message} {r : ReadResult}
    (hread : Read L h₀ stream inserted r) (hc : CursorPost r) (hsucc : r.success ≠ 0)
    (hend : ¬ EndsEmpty L stream) : r.handler.Receiving := by
  rcases hc with hr | ⟨hbuf, init, p, n, hcells, hp, hzero⟩
  · exact hr
  obtain ⟨ms, hms, ho⟩ := hread
  exfalso
  have hviews := ho.views_eq
  rw [views_of_cells hcells, cellViews, List.map_append] at hviews
  cases hph : (decode L stream).2 with
  | head got =>
    rw [hph] at ho hviews
    rw [partViews, List.append_nil] at hviews
    obtain ⟨ms', mlast, rfl⟩ : ∃ ms' mlast, ms = ms' ++ [mlast] := by
      rcases List.eq_nil_or_concat ms with rfl | ⟨ms', mlast, rfl⟩
      · simp at hviews
      · exact ⟨ms', mlast, List.concat_eq_append⟩
    rw [List.map_append] at hviews
    have hlast := (List.append_inj' hviews rfl).2
    have hlen : mlast.2.length < 2 ^ 32 :=
      ((valid_decode L stream).1 mlast (by rw [hms]; simp)).2
    have hempty : mlast.2 = [] := by
      apply List.eq_nil_of_length_eq_zero
      simp only [List.map_cons, List.map_nil, List.cons.injEq, MsgNode.view, messageView,
        Prod.mk.injEq, hzero] at hlast
      have := congrArg UInt32.toNat hlast.1.2.1
      rw [UInt32.toNat_ofNat_of_lt' hlen] at this
      exact this.symm
    refine hend ⟨?_, mlast, by simp [hms], hempty⟩
    rw [hph, ← ho.2.2.1, hbuf]
  | body id len got =>
    rw [hph] at ho
    obtain ⟨-, -, -, ht⟩ := ho
    generalize ms.map messageView = vs at ht
    cases ht with
    | busy hf hlt hrec =>
      obtain ⟨rfl, rfl⟩ : p = _ ∧ n = _ := by
        have := (List.append_inj' (hcells.symm.trans hf.cells) rfl).2
        simpa using this
      rw [hzero] at hlt
      exact absurd hlt (by simp)
  | refused => exact hsucc (ho.refused_iff.mpr hph)

/-! ## The second half: pushing -/

/-- Taking nodes off the front of the list leaves the handler where it was, unless the cursor was
on one of them. -/
theorem Tracks.drained (ht : Tracks h vs ph) {j : ℕ} (hd : NetWorker.Drained h h' j)
    (hj : j ≤ vs.length) (hlive : h'.CursorLive) : Tracks h' (vs.drop j) ph := by
  obtain ⟨hcells, -, -, hlast⟩ := hd
  cases ht with
  | idle hi =>
    have hviews : h'.views = h.views.drop j := by
      rw [views_of_cells hcells, views_of_cells rfl, cellViews, cellViews, List.map_drop]
    rw [← hviews]
    refine .idle ?_
    intro p hp
    obtain ⟨n', hn'⟩ := Option.isSome_iff_exists.mp (hlive p hp)
    obtain ⟨n, hn, hle⟩ := hi p (hlast ▸ hp)
    obtain rfl : n' = n :=
      Option.some.inj ((OwnedList.get?_of_drop hcells hn').symm.trans hn)
    exact ⟨n', hn', hle⟩
  | @busy init p n blk hf hlt hrec =>
    have hlen : j ≤ init.length := by simpa [cellViews] using hj
    have hf' : h'.Filling (init.drop j) p n blk :=
      ⟨by rw [hcells, hf.cells, List.drop_append_of_le_length hlen], by rw [hlast, hf.cursor],
        hf.buffer⟩
    have hviews : cellViews (init.drop j) = (cellViews init).drop j := by
      rw [cellViews, cellViews, List.map_drop]
    exact hviews ▸ .busy hf' hlt hrec

/-- A receiving handler keeps its cursor: the node it is on is not one of those taken. -/
theorem Tracks.drained_receiving (ht : Tracks h vs ph) (hr : h.Receiving) {j : ℕ}
    (hd : NetWorker.Drained h h' j) (hj : j ≤ vs.length) : h'.Receiving := by
  obtain ⟨hcells, -, -, hlast⟩ := hd
  cases ht with
  | idle hi => exact receiving_of_none (hlast.trans (hr.cursor_eq_none hi))
  | @busy init p n blk hf hlt hrec =>
    have hlen : j ≤ init.length := by simpa [cellViews] using hj
    intro q hq
    obtain rfl : p = q := Option.some.inj (hf.cursor.symm.trans (hlast ▸ hq))
    have hrest : h'.m_listMsgs.cells = init.drop j ++ [(p, n)] := by
      rw [hcells, hf.cells, List.drop_append_of_le_length hlen]
    exact ⟨n, OwnedList.get?_last hrest, hlt⟩

theorem Outcome.tracks {r : ReadResult} (ho : Outcome h₀ vs ph r) (hsucc : r.success ≠ 0) :
    ∃ ph', Tracks r.handler vs ph' := by
  obtain ⟨-, ho⟩ := ho
  cases ph with
  | head got => exact ⟨_, ho.2.2⟩
  | body id len got => exact ⟨_, ho.2.2⟩
  | refused => exact absurd ho.1 hsucc

theorem Outcome.drained {inputBuf : List UInt8} (ho : Outcome h₀ vs ph ⟨h, inputBuf, 1⟩) {j : ℕ}
    (hd : NetWorker.Drained h h' j) (hj : j ≤ vs.length) (hlive : h'.CursorLive) :
    Outcome h₀ (vs.drop j) ph ⟨h', inputBuf, 1⟩ := by
  obtain ⟨hconn, ho⟩ := ho
  refine ⟨⟨hd.connId.trans hconn.1, hd.bufferevent.trans hconn.2⟩, ?_⟩
  cases ph with
  | head got => exact ⟨rfl, ho.2.1, ho.2.2.drained hd hj hlive⟩
  | body id len got => exact ⟨rfl, ho.2.1, ho.2.2.drained hd hj hlive⟩
  | refused => exact absurd ho.1 one_ne_zero

/-- How many nodes `pushNodeInStream` looks at. -/
def pushCount (h : TcpHandler) : ℕ := (UInt32.ofNat h.m_listMsgs.values.length).toNat

/-- The nodes pushed are the first messages shown, and they can be copied. -/
theorem Shows.drained {stream : List UInt8} {inserted ms : List Message}
    (hs : Shows L stream inserted h ms) :
    h.drained.map MsgNode.message = ms.take h.pushCount ∧ ∀ n ∈ h.drained, n.Copyable := by
  obtain ⟨hms, hviews⟩ := hs
  obtain ⟨done, part, hvals, hdone, hpart⟩ := settled_of_views (L := L) hviews
    (fun m hm => ((valid_decode L stream).1 m (by rw [hms]; simp [hm])).2)
    (fun x hx => ((valid_decode L stream).2 x hx).2) (wf_decode L stream)
  have hdrained : h.drained = done.take h.pushCount := by
    rw [TcpHandler.drained, ← pushCount, hvals, drained_settled hdone.received hpart]
  rw [hdrained]
  refine ⟨by rw [List.map_take, hdone.message], ?_⟩
  intro n hn
  exact hdone.copyable n (List.mem_of_mem_take hn)

theorem Shows.length_drained {stream : List UInt8} {inserted ms : List Message}
    (hs : Shows L stream inserted h ms) : h.drained.length = min h.pushCount ms.length := by
  rw [← List.length_map (f := MsgNode.message), hs.drained.1, List.length_take]

theorem Shows.length_drained_le {stream : List UInt8} {inserted ms : List Message}
    (hs : Shows L stream inserted h ms) : h.drained.length ≤ (ms.map messageView).length := by
  rw [List.length_map, hs.length_drained]
  exact min_le_right _ _

theorem Shows.drop_drained {stream : List UInt8} {inserted ms : List Message}
    (hs : Shows L stream inserted h ms) : ms.drop h.drained.length = ms.drop h.pushCount := by
  rw [hs.length_drained]
  rcases le_total h.pushCount ms.length with hle | hle
  · rw [min_eq_left hle]
  · rw [min_eq_right hle, List.drop_length, List.drop_eq_nil_of_le hle]

/-- The others stay. -/
theorem Shows.rest {stream : List UInt8} {inserted ms : List Message}
    (hs : Shows L stream inserted h ms) (hd : NetWorker.Drained h h' h.drained.length) :
    Shows L stream (inserted ++ ms.take h.pushCount) h' (ms.drop h.pushCount) := by
  refine ⟨by rw [List.append_assoc, List.take_append_drop, hs.frames], ?_⟩
  have hviews : h'.views = h.views.drop h.drained.length := by
    rw [views_of_cells hd.cells, views_of_cells rfl, cellViews, cellViews, List.map_drop]
  rw [hviews, hs.views, List.drop_append_of_le_length hs.length_drained_le, ← List.map_drop,
    hs.drop_drained]

/-- Taking nodes off the list keeps `Follows`, whatever has become of the copies. -/
theorem Follows.drained {stream inputBuf : List UInt8} {inserted ms : List Message}
    (hf : Follows L h₀ stream inserted h inputBuf) (hs : Shows L stream inserted h ms)
    (hd : NetWorker.Drained h h' h.drained.length) :
    Follows L h₀ stream (inserted ++ ms.take h.pushCount) h' inputBuf := by
  have hrest := hs.rest hd
  refine ⟨hf.accepted, ⟨hd.connId.trans hf.conn.1, hd.bufferevent.trans hf.conn.2⟩,
    ⟨_, hrest⟩, fun hlive => ⟨_, hrest.frames, ?_⟩⟩
  have hlive₀ : h.CursorLive := fun p hp => by
    obtain ⟨n, hn⟩ := Option.isSome_iff_exists.mp (hlive p (hd.lastNode ▸ hp))
    rw [OwnedList.get?_of_drop hd.cells hn]
    rfl
  obtain ⟨ms', hms', ho⟩ := hf.read hlive₀
  obtain rfl : ms = ms' := List.append_cancel_left (hs.frames.symm.trans hms')
  have ho' := ho.drained hd hs.length_drained_le hlive
  rwa [← List.map_drop, hs.drop_drained] at ho'

/-- **Pushing keeps `Follows`.** The worker gets the first messages of the list, as many of them
as `pushNodeInStream` counts. -/
theorem Follows.push {stream inputBuf : List UInt8} {inserted ms : List Message}
    {w w' : NetWorker} (hf : Follows L h₀ stream inserted h inputBuf)
    (hs : Shows L stream inserted h ms)
    (hpush : w.pushNodeInStream mallocOk h = .ok (w', h')) :
    w'.m_msgInStream.tagged MsgNode.message = w.m_msgInStream.tagged MsgNode.message ++
        (ms.take h.pushCount).map (fun m => (h₀.m_nConnId, m)) ∧
      Follows L h₀ stream (inserted ++ ms.take h.pushCount) h' inputBuf := by
  obtain ⟨htagged, -, hd, -⟩ := NetWorker.pushNodeInStream_inv keeps_message hpush
  refine ⟨?_, hf.drained hs hd⟩
  rw [htagged, ← hs.drained.1, List.map_map, hf.conn.1]
  rfl

/-- Nothing that follows its stream faults in the push. -/
theorem Follows.push_ok {stream inputBuf : List UInt8} {inserted : List Message} {w : NetWorker}
    (hf : Follows L h₀ stream inserted h inputBuf) (hlock : w.m_mutexLock = true) :
    ∃ w' h', w.pushNodeInStream mallocOk h = .ok (w', h') := by
  obtain ⟨ms, hs⟩ := hf.shows
  obtain ⟨⟨w', h'⟩, hpush⟩ := NetWorker.pushNodeInStream_ok hlock hs.drained.2
  exact ⟨w', h', hpush⟩

/-- A handler that stands also stands after the push. -/
theorem Stands.push {stream inputBuf : List UInt8} {inserted ms : List Message}
    {w w' : NetWorker} (hst : Stands L h₀ stream inserted h inputBuf)
    (hs : Shows L stream inserted h ms)
    (hpush : w.pushNodeInStream mallocOk h = .ok (w', h')) :
    Stands L h₀ stream (inserted ++ ms.take h.pushCount) h' inputBuf := by
  obtain ⟨hf, hrecv⟩ := hst
  obtain ⟨-, -, hd, -⟩ := NetWorker.pushNodeInStream_inv keeps_message hpush
  refine ⟨(hf.push hs hpush).2, ?_⟩
  obtain ⟨ms', hms', ho⟩ := hf.read hrecv.cursorLive
  obtain rfl : ms = ms' := List.append_cancel_left (hs.frames.symm.trans hms')
  obtain ⟨ph', ht⟩ := ho.tracks one_ne_zero
  exact ht.drained_receiving hrecv hd hs.length_drained_le

end TcpHandler

end SmartServer
