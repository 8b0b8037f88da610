import SmartServer.NetWorker
import SmartServer.Lib.Run

/-!
# The queue of a worker is a FIFO

**Theorem (`worker_fifo`).** However the steps of the worker's thread, calls of
`pushNodeInStream` and the setting of `m_nShutDown` follow each other, the messages handed to
`handleMsg`, then those left in the batch, then those in `m_msgInStream`, are the messages pushed
so far, in the order they were pushed.

The proof follows one element: a push appends to the stream, a batch takes elements off its front,
the loop over the batch takes them off the front of the batch, and an element is only ever thrown
away together with a stream that is empty. The last point is what the counts are needed for:
a batch has fewer than `2 ^ 32` elements, so that its count is its length, even when that of
`m_msgInStream` has wrapped.

An allocation that fails in a copy changes what an element holds but not where it is, so the
argument is made for any part `φ` of a node that the copies keep.
-/

namespace SmartServer

/-! ## Streams -/

section Streams

variable {τ : Type*} {φ : MsgNode → τ} {m : Malloc} {malloc : ℕ → Malloc}

/-- The copies made with these allocations keep the part `φ` of a node. -/
def Keeps (φ : MsgNode → τ) (malloc : ℕ → Malloc) : Prop :=
  ∀ i n c c', MsgNode.assign (malloc i) n c = .ok c' → φ c' = φ c

theorem keeps_message : Keeps MsgNode.message mallocOk :=
  fun _ _ _ _ h => (MsgNode.assign_block h).2

/-- The connection of an element, and the part of its node that the copies keep. -/
def ConMsgNode.tagged (φ : MsgNode → τ) (c : ConMsgNode) : UInt64 × τ := (c.mConnId, φ c.mMsgNode)

theorem ConMsgNode.tagged_assign
    (hφ : ∀ n c c', MsgNode.assign m n c = .ok c' → φ c' = φ c) {node c c' : ConMsgNode}
    (h : ConMsgNode.assign m node c = .ok c') : c'.tagged φ = c.tagged φ := by
  obtain ⟨n, hn, hc⟩ := Run.of_bind h
  obtain rfl : ⟨c.mConnId, n⟩ = c' := Except.ok.inj hc
  simp only [tagged, hφ _ _ _ hn]

namespace MsgStream

/-- The elements of a stream. -/
def tagged (φ : MsgNode → τ) (s : MsgStream) : List (UInt64 × τ) :=
  s.m_listConMsg.map (ConMsgNode.tagged φ)

/-- The count is the length, as far as 32 bits can tell. -/
def Counted (s : MsgStream) : Prop := s.m_nCount = UInt32.ofNat s.m_listConMsg.length

theorem counted_new : MsgStream.new.Counted := rfl

@[simp] theorem tagged_new : MsgStream.new.tagged φ = [] := rfl

theorem insertMsgToList_inv {s s' : MsgStream} {c : ConMsgNode}
    (h : s.insertMsgToList m c = .ok s') :
    ∃ c', c.copy m = .ok c' ∧ s' = ⟨s.m_nCount + 1, s.m_listConMsg ++ [c']⟩ := by
  obtain ⟨c', hc, hs⟩ := Run.of_bind h
  exact ⟨c', hc, (Except.ok.inj hs).symm⟩

theorem Counted.insert {s : MsgStream} (hs : s.Counted) (c : ConMsgNode) :
    Counted ⟨s.m_nCount + 1, s.m_listConMsg ++ [c]⟩ := by
  rw [Counted, hs, List.length_append, List.length_singleton, UInt32.ofNat_add]
  rfl

/-- `popMsgFromList` either does nothing, or takes the front. -/
theorem popMsgFromList_inv {s s' : MsgStream} {node c : ConMsgNode} {flag : Bool}
    (h : s.popMsgFromList m node = .ok (s', c, flag)) :
    (flag = false ∧ s.m_nCount = 0 ∧ s' = s) ∨
      (flag = true ∧ s.m_nCount ≠ 0 ∧ ∃ front rest, s.m_listConMsg = front :: rest ∧
        node.assign m front = .ok c ∧ s' = ⟨s.m_nCount - 1, rest⟩) := by
  unfold popMsgFromList at h
  split at h
  · rename_i hcount
    obtain ⟨rfl, -, rfl⟩ : s = s' ∧ node = c ∧ false = flag := by simpa using h
    exact .inl ⟨rfl, hcount, rfl⟩
  · rename_i hcount
    split at h
    · cases h
    · rename_i front rest hlist
      obtain ⟨c', hc, hr⟩ := Run.of_bind h
      obtain ⟨rfl, rfl, rfl⟩ : ⟨s.m_nCount - 1, rest⟩ = s' ∧ c' = c ∧ true = flag := by
        simpa [pure, Except.pure] using hr
      exact .inr ⟨rfl, hcount, front, rest, hlist, hc, rfl⟩

theorem Counted.pop {s : MsgStream} (hs : s.Counted) {front : ConMsgNode}
    {rest : List ConMsgNode} (hlist : s.m_listConMsg = front :: rest) :
    Counted ⟨s.m_nCount - 1, rest⟩ := by
  rw [Counted, hs, hlist, List.length_cons, UInt32.ofNat_add]
  exact UInt32.add_sub_cancel _ _

end MsgStream

/-! ## The two loops under the lock -/

/-- The received nodes at the front of a list, at most `k` of them. -/
def drained (k : ℕ) (ns : List MsgNode) : List MsgNode :=
  (ns.take k).takeWhile MsgNode.isReceived

/-- The nodes `pushNodeInStream` takes off the list of a handler. -/
def TcpHandler.drained (h : TcpHandler) : List MsgNode :=
  SmartServer.drained (UInt32.ofNat h.m_listMsgs.values.length).toNat h.m_listMsgs.values

namespace NetWorker

/-- What `pushNodeInStream` leaves of the handler: the rest of the list; the cursor is not
looked at. -/
structure Drained (h h' : TcpHandler) (k : ℕ) : Prop where
  cells : h'.m_listMsgs.cells = h.m_listMsgs.cells.drop k
  connId : h'.m_nConnId = h.m_nConnId
  bufferevent : h'.m_pBufferevent = h.m_pBufferevent
  lastNode : h'.m_pLastNode = h.m_pLastNode

theorem pushLoop_inv (hφ : Keeps φ malloc) {k : ℕ} {h h' : TcpHandler} {s s' : MsgStream}
    (hrun : pushLoop malloc k (h, s) = .ok (h', s')) :
    s'.tagged φ = s.tagged φ ++
        (drained k h.m_listMsgs.values).map (fun n => (h.m_nConnId, φ n)) ∧
      (s.Counted → s'.Counted) ∧ Drained h h' (drained k h.m_listMsgs.values).length := by
  induction k generalizing h s with
  | zero =>
    obtain ⟨rfl, rfl⟩ : h = h' ∧ s = s' := by simpa [pushLoop] using hrun
    exact ⟨by simp [drained], id, ⟨by simp [drained], rfl, rfl, rfl⟩⟩
  | succ k ih =>
    simp only [pushLoop] at hrun
    cases hvals : h.m_listMsgs.values with
    | nil => rw [hvals] at hrun; cases hrun
    | cons n ns =>
      rw [hvals] at hrun
      simp only at hrun
      by_cases hrec : n.isReceived = true
      · rw [if_pos hrec] at hrun
        obtain ⟨n', hn, hrun⟩ := Run.of_bind hrun
        obtain ⟨s₁, hs, hrun⟩ := Run.of_bind hrun
        obtain ⟨c, hc, rfl⟩ := MsgStream.insertMsgToList_inv hs
        have htag : c.tagged φ = (h.m_nConnId, φ n) :=
          (ConMsgNode.tagged_assign (hφ _) hc).trans (by rw [ConMsgNode.tagged, hφ _ _ _ _ hn])
        obtain ⟨htagged, hcounted, hcells, hid, hbev, hlast⟩ := ih hrun
        have htail : h.m_listMsgs.popFront.values = ns := by simp [hvals]
        rw [htail] at htagged hcells
        have hdrain : drained (k + 1) (n :: ns) = n :: drained k ns := by simp [drained, hrec]
        rw [hdrain]
        refine ⟨?_, fun hs => hcounted (hs.insert c), ?_, hid, hbev, hlast⟩
        · rw [htagged]
          simp [MsgStream.tagged, htag]
        · rw [hcells]
          simp [List.drop_tail]
      · rw [if_neg hrec] at hrun
        obtain ⟨rfl, rfl⟩ : h = h' ∧ s = s' := by simpa using hrun
        have hdrain : drained (k + 1) (n :: ns) = [] := by simp [drained, hrec]
        rw [hdrain]
        exact ⟨by simp, id, ⟨by simp, rfl, rfl, rfl⟩⟩

/-- Elements only move from the front of the stream to the end of the batch. -/
theorem popLoop_inv (hφ : Keeps φ malloc) {k : ℕ} {s t s' t' : MsgStream}
    (hrun : popLoop malloc k (s, t) = .ok (s', t')) :
    t'.tagged φ ++ s'.tagged φ = t.tagged φ ++ s.tagged φ ∧
      (s.Counted → s'.Counted) ∧ (t.Counted → t'.Counted) ∧
      t'.m_listConMsg.length ≤ t.m_listConMsg.length + k := by
  induction k generalizing s t with
  | zero =>
    obtain ⟨rfl, rfl⟩ : s = s' ∧ t = t' := by simpa [popLoop] using hrun
    exact ⟨rfl, id, id, le_rfl⟩
  | succ k ih =>
    simp only [popLoop] at hrun
    obtain ⟨⟨s₁, c, flag⟩, hp, hnext⟩ := Run.of_bind hrun
    simp only at hnext
    rcases MsgStream.popMsgFromList_inv hp with
      ⟨rfl, -, rfl⟩ | ⟨rfl, -, front, rest, hlist, hc, rfl⟩
    · obtain ⟨htagged, hs, ht, hlen⟩ := ih (by simpa using hnext)
      exact ⟨htagged, hs, ht, by omega⟩
    · rw [if_pos rfl] at hnext
      obtain ⟨t₁, hi, hlast⟩ := Run.of_bind hnext
      obtain ⟨c', hc', rfl⟩ := MsgStream.insertMsgToList_inv hi
      have htag : c'.tagged φ = front.tagged φ :=
        (ConMsgNode.tagged_assign (hφ _) hc').trans (ConMsgNode.tagged_assign (hφ _) hc)
      obtain ⟨htagged, hs, ht, hlen⟩ := ih hlast
      refine ⟨?_, fun h => hs (h.pop hlist), fun h => ht (h.insert c'), ?_⟩
      · rw [htagged]
        simp [MsgStream.tagged, hlist, htag]
      · simp only [List.length_append, List.length_singleton] at hlen
        omega

/-! ## Steps of a worker -/

theorem pushNodeInStream_inv (hφ : Keeps φ malloc) {w w' : NetWorker} {h h' : TcpHandler}
    (hrun : pushNodeInStream malloc w h = .ok (w', h')) :
    w'.m_msgInStream.tagged φ = w.m_msgInStream.tagged φ ++
        h.drained.map (fun n => (h.m_nConnId, φ n)) ∧
      (w.m_msgInStream.Counted → w'.m_msgInStream.Counted) ∧
      Drained h h' h.drained.length ∧ w' = { w with m_msgInStream := w'.m_msgInStream } := by
  obtain ⟨_, _, hrun⟩ := Run.of_bind hrun
  obtain ⟨⟨h₁, s⟩, hloop, hend⟩ := Run.of_bind hrun
  obtain ⟨rfl, rfl⟩ : { w with m_msgInStream := s } = w' ∧ h₁ = h' := by
    simpa [pure, Except.pure] using hend
  obtain ⟨htagged, hcounted, hdrained⟩ := pushLoop_inv hφ hloop
  exact ⟨htagged, hcounted, hdrained, rfl⟩

/-- The count of a batch is the number of passes its loop has left. -/
def BatchCounted (w : NetWorker) : Prop :=
  match w.pc with
  | .handling i count msgStream =>
    msgStream.Counted ∧ msgStream.m_listConMsg.length + i.toNat = count.toNat
  | _ => True

/-- What one step of the thread does: the message it hands on is the first of those in the batch
and in the stream. -/
structure ThreadStep (φ : MsgNode → τ) (w w' : NetWorker) (out : Option ConMsgNode) : Prop where
  moved : out.toList.map (ConMsgNode.tagged φ) ++
      (w'.batch.map (ConMsgNode.tagged φ) ++ w'.m_msgInStream.tagged φ) =
    w.batch.map (ConMsgNode.tagged φ) ++ w.m_msgInStream.tagged φ
  counted : w.m_msgInStream.Counted → w'.m_msgInStream.Counted
  batch : w'.BatchCounted
  shutDown : w'.m_nShutDown = w.m_nShutDown

theorem popMsgFromInStream_inv (hφ : Keeps φ malloc) {w w' : NetWorker} {t : MsgStream}
    {flag : Bool}
    (hrun : popMsgFromInStream malloc w .new = .ok (w', t, flag)) :
    t.tagged φ ++ w'.m_msgInStream.tagged φ = w.m_msgInStream.tagged φ ∧
      (w.m_msgInStream.Counted → w'.m_msgInStream.Counted) ∧ t.Counted ∧
      t.m_listConMsg.length = t.m_nCount.toNat ∧ (flag = false → t.m_nCount = 0) ∧
      w' = { w with m_msgInStream := w'.m_msgInStream } := by
  obtain ⟨_, _, hrun⟩ := Run.of_bind hrun
  simp only at hrun
  split at hrun
  · obtain ⟨rfl, rfl, rfl⟩ : w = w' ∧ MsgStream.new = t ∧ false = flag := by
      simpa [pure, Except.pure] using hrun
    exact ⟨rfl, id, MsgStream.counted_new, rfl, fun _ => rfl, rfl⟩
  · obtain ⟨⟨s, t₁⟩, hloop, hend⟩ := Run.of_bind hrun
    obtain ⟨rfl, rfl, rfl⟩ : { w with m_msgInStream := s } = w' ∧ t₁ = t ∧ true = flag := by
      simpa [pure, Except.pure] using hend
    obtain ⟨htagged, hs, ht, hlen⟩ := popLoop_inv hφ hloop
    have hcounted := ht MsgStream.counted_new
    refine ⟨by simpa using htagged, hs, hcounted, ?_, by simp, rfl⟩
    have hbound := w.m_msgInStream.getCount.toNat_lt
    have hnil : MsgStream.new.m_listConMsg.length = 0 := rfl
    rw [hcounted, UInt32.toNat_ofNat_of_lt' (show _ < 2 ^ 32 by omega)]

theorem threadStep_inv (hφ : Keeps φ malloc) {w w' : NetWorker} {out : Option ConMsgNode}
    (hb : w.BatchCounted) (hrun : threadStep malloc w = .ok (w', out)) :
    ThreadStep φ w w' out := by
  unfold threadStep at hrun
  cases hpc : w.pc with
  | loopTest =>
    simp only [hpc] at hrun
    split at hrun <;>
    · obtain ⟨rfl, rfl⟩ := Prod.mk.inj (Except.ok.inj hrun)
      exact ⟨by simp [NetWorker.batch, hpc], id, trivial, rfl⟩
  | popTest =>
    simp only [hpc] at hrun
    split at hrun <;>
    · obtain ⟨rfl, rfl⟩ := Prod.mk.inj (Except.ok.inj hrun)
      exact ⟨by simp [NetWorker.batch, hpc], id, trivial, rfl⟩
  | popLock =>
    simp only [hpc] at hrun
    obtain ⟨⟨w₁, t, flag⟩, hpop, hend⟩ := Run.of_bind hrun
    obtain ⟨htagged, hs, ht, hlen, hflag, hw₁⟩ := popMsgFromInStream_inv hφ hpop
    have hshut : w₁.m_nShutDown = w.m_nShutDown := by rw [hw₁]
    by_cases hempty : t.getCount = 0 ∨ flag = false
    · simp only [if_pos hempty] at hend
      have hzero : t.m_nCount = 0 := hempty.elim id hflag
      have hnil : t.m_listConMsg = [] := by
        apply List.eq_nil_of_length_eq_zero
        rw [hlen, hzero]
        rfl
      obtain ⟨rfl, rfl⟩ := Prod.mk.inj (Except.ok.inj hend)
      refine ⟨?_, hs, trivial, hshut⟩
      rw [← htagged]
      simp [NetWorker.batch, hpc, MsgStream.tagged, hnil]
    · simp only [if_neg hempty] at hend
      obtain ⟨rfl, rfl⟩ := Prod.mk.inj (Except.ok.inj hend)
      refine ⟨?_, hs, ⟨ht, by simpa [MsgStream.getCount] using hlen⟩, hshut⟩
      rw [← htagged]
      simp [NetWorker.batch, hpc, MsgStream.tagged]
  | handling i count t =>
    simp only [hpc] at hrun
    obtain ⟨ht, hlen⟩ : t.Counted ∧ t.m_listConMsg.length + i.toNat = count.toNat := by
      simpa [BatchCounted, hpc] using hb
    split at hrun
    · rename_i hlt
      have hnat := UInt32.lt_iff_toNat_lt.mp hlt
      have hbound := count.toNat_lt
      obtain ⟨⟨t₁, c, flag⟩, hpop, hend⟩ := Run.of_bind hrun
      obtain ⟨rfl, rfl⟩ := Prod.mk.inj (Except.ok.inj hend)
      rcases MsgStream.popMsgFromList_inv hpop with
        ⟨-, hzero, -⟩ | ⟨rfl, -, front, rest, hlist, hc, rfl⟩
      · have hcontra := congrArg UInt32.toNat (ht.symm.trans hzero)
        rw [UInt32.toNat_ofNat_of_lt' (show _ < 2 ^ 32 by omega), UInt32.toNat_zero] at hcontra
        omega
      · have htag : c.tagged φ = front.tagged φ := ConMsgNode.tagged_assign (hφ 0) hc
        refine ⟨?_, id, ⟨ht.pop hlist, ?_⟩, rfl⟩
        · simp [NetWorker.batch, hpc, hlist, htag]
        · rw [hlist, List.length_cons] at hlen
          rw [UInt32.toNat_add, UInt32.toNat_one]
          show rest.length + _ = _
          omega
    · rename_i hge
      have hle := UInt32.le_iff_toNat_le.mp (UInt32.not_lt.mp hge)
      have hnil : t.m_listConMsg = [] := List.eq_nil_of_length_eq_zero (by omega)
      obtain ⟨rfl, rfl⟩ := Prod.mk.inj (Except.ok.inj hrun)
      exact ⟨by simp [NetWorker.batch, hpc, hnil], id, trivial, rfl⟩
  | exited =>
    simp only [hpc] at hrun
    obtain ⟨rfl, rfl⟩ := Prod.mk.inj (Except.ok.inj hrun)
    exact ⟨by simp, id, by simp [BatchCounted, hpc], rfl⟩

end NetWorker

end Streams

/-! ## Runs of a worker -/

/-- A worker, with what its thread has handed to `handleMsg` so far. -/
structure WorkerRun where
  worker : NetWorker
  handled : List ConMsgNode

/-- What can happen to a worker: a connection's list is pushed, its thread takes a step, or
`m_nShutDown` is set. The first two may allocate. -/
inductive WorkerEvent
  | push (malloc : ℕ → Malloc) (tcpHandler : TcpHandler)
  | thread (malloc : ℕ → Malloc)
  | shutDown

namespace WorkerEvent

/-- No allocation of the event fails. -/
def Allocates : WorkerEvent → Prop
  | .push malloc _ => malloc = mallocOk
  | .thread malloc => malloc = mallocOk
  | .shutDown => True

/-- The copies the event makes keep the part `φ` of a node. -/
def Keeps {τ : Type*} (φ : MsgNode → τ) : WorkerEvent → Prop
  | .push malloc _ => SmartServer.Keeps φ malloc
  | .thread malloc => SmartServer.Keeps φ malloc
  | .shutDown => True

theorem Allocates.keeps {e : WorkerEvent} (h : e.Allocates) : e.Keeps MsgNode.message := by
  cases e with
  | push malloc _ => obtain rfl : malloc = mallocOk := h; exact keeps_message
  | thread malloc => obtain rfl : malloc = mallocOk := h; exact keeps_message
  | shutDown => trivial

/-- The nodes the event pushes, with their connection. -/
def pushed : WorkerEvent → List (UInt64 × MsgNode)
  | .push _ tcpHandler => tcpHandler.drained.map fun n => (tcpHandler.m_nConnId, n)
  | _ => []

end WorkerEvent

namespace WorkerRun

def new : WorkerRun := ⟨.new, []⟩

def step (r : WorkerRun) : WorkerEvent → Exec WorkerRun
  | .push malloc tcpHandler => do
    let (worker, _) ← r.worker.pushNodeInStream malloc tcpHandler
    pure { r with worker }
  | .thread malloc => do
    let (worker, msgNode) ← r.worker.threadStep malloc
    pure ⟨worker, r.handled ++ msgNode.toList⟩
  | .shutDown => .ok { r with worker := { r.worker with m_nShutDown := 1 } }

/-- All elements there are: those handled, those in the batch, those in the stream. -/
def elements (r : WorkerRun) : List ConMsgNode :=
  r.handled ++ (r.worker.batch ++ r.worker.m_msgInStream.m_listConMsg)

variable {τ : Type*} {φ : MsgNode → τ}

/-- One event: the elements pushed are behind those there were. -/
theorem step_elements {r r' : WorkerRun} {e : WorkerEvent} (hb : r.worker.BatchCounted)
    (hφ : e.Keeps φ) (hstep : r.step e = .ok r') :
    r'.worker.BatchCounted ∧
      r'.elements.map (ConMsgNode.tagged φ) =
        r.elements.map (ConMsgNode.tagged φ) ++ e.pushed.map (fun x => (x.1, φ x.2)) := by
  cases e with
  | push malloc h =>
    obtain ⟨⟨w, h'⟩, hpush, hend⟩ := Run.of_bind hstep
    obtain rfl : { r with worker := w } = r' := Except.ok.inj hend
    obtain ⟨htagged, -, -, hw⟩ := NetWorker.pushNodeInStream_inv hφ hpush
    have hpc : w.pc = r.worker.pc := by rw [hw]
    have hbatch : w.batch = r.worker.batch := by simp only [NetWorker.batch, hpc]
    refine ⟨by simpa only [NetWorker.BatchCounted, hpc] using hb, ?_⟩
    simp only [MsgStream.tagged] at htagged
    simp [elements, hbatch, htagged, WorkerEvent.pushed, Function.comp_def]
  | thread malloc =>
    obtain ⟨⟨w, out⟩, hthread, hend⟩ := Run.of_bind hstep
    obtain rfl : ⟨w, r.handled ++ out.toList⟩ = r' := Except.ok.inj hend
    obtain ⟨hmoved, -, hbatch, -⟩ := NetWorker.threadStep_inv hφ hb hthread
    refine ⟨hbatch, ?_⟩
    simp only [MsgStream.tagged] at hmoved
    simp [elements, WorkerEvent.pushed, hmoved]
  | shutDown =>
    obtain rfl := Except.ok.inj hstep
    exact ⟨hb, by simp [elements, WorkerEvent.pushed, NetWorker.batch]⟩

/-- The FIFO, for any part of a node that the copies of the run keep. -/
theorem run_elements {es : List WorkerEvent} {r : WorkerRun} (hφ : ∀ e ∈ es, e.Keeps φ)
    (hrun : es.foldlM step new = .ok r) :
    r.elements.map (ConMsgNode.tagged φ) =
      (es.flatMap WorkerEvent.pushed).map (fun x => (x.1, φ x.2)) := by
  refine (Run.induction (fun es r => (∀ e ∈ es, e.Keeps φ) → r.worker.BatchCounted ∧
    r.elements.map (ConMsgNode.tagged φ) =
      (es.flatMap WorkerEvent.pushed).map (fun x => (x.1, φ x.2))) ?_ ?_ hrun hφ).2
  · exact fun _ => ⟨trivial, rfl⟩
  · intro es r e r' ih hstep hφ
    obtain ⟨hb, helems⟩ := ih fun e' he' => hφ e' (List.mem_append_left _ he')
    obtain ⟨hb', helems'⟩ := step_elements hb (hφ e (by simp)) hstep
    exact ⟨hb', by rw [helems', helems]; simp⟩

/-- **The queue of a worker is a lossless FIFO.** In every state that is reached, the elements
handled, then those in the batch, then those in the stream belong to the nodes pushed so far, one
for each and in the order they were pushed. When no allocation has failed they also hold the
messages pushed, and the messages handled are a prefix of those pushed. -/
theorem worker_fifo (es : List WorkerEvent) (r : WorkerRun) (hrun : es.foldlM step new = .ok r) :
    r.elements.map ConMsgNode.mConnId = (es.flatMap WorkerEvent.pushed).map Prod.fst ∧
      ((∀ e ∈ es, e.Allocates) →
        r.elements.map ConMsgNode.message =
            (es.flatMap WorkerEvent.pushed).map (fun x => (x.1, x.2.message)) ∧
          r.handled.map ConMsgNode.message <+:
            (es.flatMap WorkerEvent.pushed).map (fun x => (x.1, x.2.message))) := by
  refine ⟨?_, ?_⟩
  · have hkeeps : ∀ e ∈ es, e.Keeps fun _ => () := by
      rintro (⟨malloc, h⟩ | malloc | _) -
      · exact fun _ _ _ _ _ => rfl
      · exact fun _ _ _ _ _ => rfl
      · trivial
    have hids := congrArg (List.map Prod.fst) (run_elements hkeeps hrun)
    simpa [ConMsgNode.tagged, Function.comp_def] using hids
  · intro halloc
    have hmsgs := run_elements (fun e he => (halloc e he).keeps) hrun
    refine ⟨hmsgs, ?_⟩
    rw [← show _ = _ from hmsgs, elements, List.map_append]
    exact List.prefix_append _ _

/-- A message is pushed and taken as a batch, and the shutdown comes before it is handled. -/
def pushThenShutDown : List WorkerEvent :=
  [.push mallocOk { TcpHandler.new 7 none with
      m_listMsgs := OwnedList.empty.pushBack ⟨1, 3, 1, some [65, 0], by simp⟩ },
    .thread mallocOk, .thread mallocOk, .thread mallocOk, .shutDown, .thread mallocOk]

theorem worker_fifo_shutDown :
    ∃ r, pushThenShutDown.foldlM step new = .ok r ∧
      r.elements.map ConMsgNode.message = [(7, 3, [65])] ∧
      r.handled.map ConMsgNode.message <+: [(7, 3, [65])] :=
  ⟨_, rfl, (worker_fifo pushThenShutDown _ rfl).2
    (by simp [pushThenShutDown, WorkerEvent.Allocates])⟩

end WorkerRun

end SmartServer
