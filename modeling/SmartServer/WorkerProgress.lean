import SmartServer.WorkerQueue

/-!
# A worker is never stuck

**Theorem (`Running.step_ok`).** As long as it is not shut down and its allocations succeed,
the thread of a worker takes every step without a fault.

What could fault is a lock that is gone, `front()` of an empty list, and the copy of a node that
cannot be copied. `Running` excludes all three: the counts tell an empty list from one that is
not, and whatever is in the stream or in the batch came out of a copy already, so it can be copied
again. Pushes and steps of the thread keep it.
-/

namespace SmartServer

/-! ## Copies of copies -/

/-- All of these messages came out of a copy. -/
def Copies (cs : List ConMsgNode) : Prop := ∀ c ∈ cs, c.mMsgNode.IsCopy

theorem copies_append {cs ds : List ConMsgNode} : Copies (cs ++ ds) ↔ Copies cs ∧ Copies ds := by
  simp only [Copies, List.mem_append, or_imp, forall_and]

theorem copies_singleton {c : ConMsgNode} (h : c.mMsgNode.IsCopy) : Copies [c] := by
  intro c' hc'
  obtain rfl := List.mem_singleton.mp hc'
  exact h

theorem ConMsgNode.isCopy_assign {node c c' : ConMsgNode}
    (h : ConMsgNode.assign .block node c = .ok c') : c'.mMsgNode.IsCopy := by
  obtain ⟨n, hn, hc⟩ := Run.of_bind h
  obtain rfl := Except.ok.inj hc
  exact (MsgNode.assign_block hn).1

/-- A copy is assigned as it is. -/
theorem ConMsgNode.assign_ok {c : ConMsgNode} (h : c.mMsgNode.IsCopy) (node : ConMsgNode) :
    ConMsgNode.assign .block node c = .ok c := by
  simp only [ConMsgNode.assign, MsgNode.assign, h.copyInto]
  rfl

namespace NetWorker

theorem pushLoop_copies {k : ℕ} {h h' : TcpHandler} {s s' : MsgStream}
    (hs : Copies s.m_listConMsg) (hrun : pushLoop mallocOk k (h, s) = .ok (h', s')) :
    Copies s'.m_listConMsg := by
  induction k generalizing h s with
  | zero =>
    obtain ⟨-, rfl⟩ : h = h' ∧ s = s' := by simpa [pushLoop] using hrun
    exact hs
  | succ k ih =>
    simp only [pushLoop] at hrun
    split at hrun
    · cases hrun
    · by_cases hrec : MsgNode.isReceived ‹_› = true
      · rw [if_pos hrec] at hrun
        obtain ⟨n, -, hrun⟩ := Run.of_bind hrun
        obtain ⟨s₁, hi, hrun⟩ := Run.of_bind hrun
        obtain ⟨c, hc, rfl⟩ := MsgStream.insertMsgToList_inv hi
        refine ih ?_ hrun
        exact copies_append.mpr ⟨hs, copies_singleton (ConMsgNode.isCopy_assign hc)⟩
      · rw [if_neg hrec] at hrun
        obtain ⟨-, rfl⟩ : h = h' ∧ s = s' := by simpa using hrun
        exact hs

/-- What moves to the batch is copied, and what stays is what it was. -/
theorem popLoop_copies {k : ℕ} {s t s' t' : MsgStream} (hs : Copies s.m_listConMsg)
    (ht : Copies t.m_listConMsg) (hrun : popLoop mallocOk k (s, t) = .ok (s', t')) :
    Copies s'.m_listConMsg ∧ Copies t'.m_listConMsg := by
  induction k generalizing s t with
  | zero =>
    obtain ⟨rfl, rfl⟩ : s = s' ∧ t = t' := by simpa [popLoop] using hrun
    exact ⟨hs, ht⟩
  | succ k ih =>
    simp only [popLoop] at hrun
    obtain ⟨⟨s₁, c, flag⟩, hp, hnext⟩ := Run.of_bind hrun
    simp only at hnext
    rcases MsgStream.popMsgFromList_inv hp with
      ⟨rfl, -, rfl⟩ | ⟨rfl, -, front, rest, hlist, -, rfl⟩
    · exact ih hs ht (by simpa using hnext)
    · rw [if_pos rfl] at hnext
      obtain ⟨t₁, hi, hlast⟩ := Run.of_bind hnext
      obtain ⟨c', hc', rfl⟩ := MsgStream.insertMsgToList_inv hi
      have hrest : Copies rest := fun d hd => hs d (by rw [hlist]; exact List.mem_cons_of_mem _ hd)
      refine ih hrest ?_ hlast
      exact copies_append.mpr ⟨ht, copies_singleton (ConMsgNode.isCopy_assign hc')⟩

/-- The count of a stream says whether there is a front. -/
theorem popMsgFromList_ok {s : MsgStream} (hcount : s.Counted) (hs : Copies s.m_listConMsg)
    (node : ConMsgNode) :
    ∃ s' c flag, s.popMsgFromList .block node = .ok (s', c, flag) ∧
      (flag = true → c.mMsgNode.IsCopy) := by
  by_cases hzero : s.m_nCount = 0
  · exact ⟨s, node, false, if_pos hzero, fun h => by cases h⟩
  · cases hlist : s.m_listConMsg with
    | nil =>
      refine absurd ?_ hzero
      rw [hcount, hlist]
      rfl
    | cons front rest =>
      have hfront : front.mMsgNode.IsCopy := hs front (by rw [hlist]; exact List.mem_cons_self)
      refine ⟨⟨s.m_nCount - 1, rest⟩, front, true, ?_, fun _ => hfront⟩
      simp only [MsgStream.popMsgFromList, if_neg hzero, hlist, ConMsgNode.assign_ok hfront]
      rfl

theorem popLoop_ok {k : ℕ} {s t : MsgStream} (hcount : s.Counted) (hs : Copies s.m_listConMsg) :
    ∃ r, popLoop mallocOk k (s, t) = .ok r := by
  induction k generalizing s t with
  | zero => exact ⟨_, rfl⟩
  | succ k ih =>
    obtain ⟨s', c, flag, hp, hcopy⟩ := popMsgFromList_ok hcount hs .new
    have hpop : s.popMsgFromList (mallocOk (2 * k + 1)) .new = .ok (s', c, flag) := hp
    simp only [popLoop, hpop, bind, Except.bind]
    rcases MsgStream.popMsgFromList_inv hp with
      ⟨rfl, -, rfl⟩ | ⟨rfl, -, front, rest, hlist, -, rfl⟩
    · simp only [Bool.false_eq_true, if_false]
      exact ih hcount hs
    · have hinsert : t.insertMsgToList (mallocOk (2 * k)) c =
          .ok ⟨t.m_nCount + 1, t.m_listConMsg ++ [c]⟩ := by
        simp only [MsgStream.insertMsgToList, ConMsgNode.copy, mallocOk,
          ConMsgNode.assign_ok (hcopy rfl)]
        rfl
      simp only [if_true, hinsert]
      refine ih (hcount.pop hlist) fun d hd => hs d ?_
      rw [hlist]
      exact List.mem_cons_of_mem _ hd

/-! ## A worker that runs -/

/-- A worker that is not shut down, with its counts right, and only copies in its queues. -/
structure Running (w : NetWorker) : Prop where
  shutDown : w.m_nShutDown = 0
  lock : w.m_mutexLock = true
  counted : w.m_msgInStream.Counted
  batchCounted : w.BatchCounted
  stream : Copies w.m_msgInStream.m_listConMsg
  batch : Copies w.batch

theorem running_new : Running .new :=
  ⟨rfl, rfl, rfl, trivial, List.forall_mem_nil _, List.forall_mem_nil _⟩

theorem Running.push {w w' : NetWorker} (hw : w.Running) {h h' : TcpHandler}
    (hpush : w.pushNodeInStream mallocOk h = .ok (w', h')) : w'.Running := by
  obtain ⟨-, hcounted, -, hw'⟩ := pushNodeInStream_inv keeps_message hpush
  obtain ⟨_, _, hrun⟩ := Run.of_bind hpush
  obtain ⟨⟨h₁, s⟩, hloop, hend⟩ := Run.of_bind hrun
  obtain ⟨rfl, -⟩ : { w with m_msgInStream := s } = w' ∧ h₁ = h' := by
    simpa [pure, Except.pure] using hend
  exact ⟨hw.shutDown, hw.lock, hcounted hw.counted, hw.batchCounted,
    pushLoop_copies hw.stream hloop, hw.batch⟩

theorem popMsgFromInStream_copies {w w' : NetWorker} (hw : Copies w.m_msgInStream.m_listConMsg)
    {t : MsgStream} {flag : Bool}
    (hrun : popMsgFromInStream mallocOk w .new = .ok (w', t, flag)) :
    Copies w'.m_msgInStream.m_listConMsg ∧ Copies t.m_listConMsg := by
  have hnew : Copies MsgStream.new.m_listConMsg := fun _ h => by cases h
  obtain ⟨_, _, hrun⟩ := Run.of_bind hrun
  simp only at hrun
  split at hrun
  · obtain ⟨rfl, rfl, -⟩ : w = w' ∧ MsgStream.new = t ∧ false = flag := by
      simpa [pure, Except.pure] using hrun
    exact ⟨hw, hnew⟩
  · obtain ⟨⟨s, t₁⟩, hloop, hend⟩ := Run.of_bind hrun
    obtain ⟨rfl, rfl, -⟩ : { w with m_msgInStream := s } = w' ∧ t₁ = t ∧ true = flag := by
      simpa [pure, Except.pure] using hend
    exact popLoop_copies hw hnew hloop

/-- **Steps of the thread keep it**, and what they hand on is a copy. -/
theorem Running.step {w w' : NetWorker} (hw : w.Running) {out : Option ConMsgNode}
    (hrun : w.threadStep mallocOk = .ok (w', out)) : w'.Running ∧ Copies out.toList := by
  obtain ⟨-, hcounted, hbatch, hshut⟩ := threadStep_inv keeps_message hw.batchCounted hrun
  suffices h : w'.m_mutexLock = true ∧ Copies w'.m_msgInStream.m_listConMsg ∧ Copies w'.batch ∧
      Copies out.toList from
    ⟨⟨hshut.trans hw.shutDown, h.1, hcounted hw.counted, hbatch, h.2.1, h.2.2.1⟩, h.2.2.2⟩
  have hnil : Copies [] := fun _ h => by cases h
  obtain ⟨hzero, hlock, -, -, hstream, hinBatch⟩ := hw
  unfold NetWorker.threadStep at hrun
  cases hpc : w.pc with
  | loopTest =>
    simp only [hpc, hzero, ne_eq, not_true_eq_false, if_false] at hrun
    obtain ⟨rfl, rfl⟩ := Prod.mk.inj (Except.ok.inj hrun)
    exact ⟨hlock, hstream, hnil, hnil⟩
  | popTest =>
    simp only [hpc, hzero, ne_eq, not_true_eq_false, if_false] at hrun
    obtain ⟨rfl, rfl⟩ := Prod.mk.inj (Except.ok.inj hrun)
    exact ⟨hlock, hstream, hnil, hnil⟩
  | popLock =>
    simp only [hpc] at hrun
    obtain ⟨⟨w₁, t, flag⟩, hpop, hend⟩ := Run.of_bind hrun
    obtain ⟨hstream₁, ht⟩ := popMsgFromInStream_copies hstream hpop
    obtain ⟨-, -, -, -, -, hw₁⟩ := popMsgFromInStream_inv keeps_message hpop
    have hlock₁ : w₁.m_mutexLock = true := by rw [hw₁]; exact hlock
    simp only at hend
    split at hend
    · obtain ⟨rfl, rfl⟩ := Prod.mk.inj (Except.ok.inj hend)
      exact ⟨hlock₁, hstream₁, hnil, hnil⟩
    · obtain ⟨rfl, rfl⟩ := Prod.mk.inj (Except.ok.inj hend)
      exact ⟨hlock₁, hstream₁, ht, hnil⟩
  | handling i count t =>
    simp only [hpc] at hrun
    have ht : Copies t.m_listConMsg := by simpa [NetWorker.batch, hpc] using hinBatch
    split at hrun
    · obtain ⟨⟨t₁, c, flag⟩, hpop, hend⟩ := Run.of_bind hrun
      obtain ⟨rfl, rfl⟩ := Prod.mk.inj (Except.ok.inj hend)
      rcases MsgStream.popMsgFromList_inv hpop with
        ⟨rfl, -, rfl⟩ | ⟨rfl, -, front, rest, hlist, hc, rfl⟩
      · exact ⟨hlock, hstream, ht, hnil⟩
      · refine ⟨hlock, hstream, fun d hd => ht d ?_, ?_⟩
        · rw [hlist]
          exact List.mem_cons_of_mem _ hd
        · exact copies_singleton (ConMsgNode.isCopy_assign hc)
    · obtain ⟨rfl, rfl⟩ := Prod.mk.inj (Except.ok.inj hrun)
      exact ⟨hlock, hstream, hnil, hnil⟩
  | exited =>
    simp only [hpc] at hrun
    obtain ⟨rfl, rfl⟩ := Prod.mk.inj (Except.ok.inj hrun)
    exact ⟨hlock, hstream, hinBatch, hnil⟩

/-- **The thread is never stuck.** -/
theorem Running.step_ok {w : NetWorker} (hw : w.Running) :
    ∃ r, w.threadStep mallocOk = .ok r := by
  obtain ⟨hzero, hlock, hcounted, hbatch, hstream, hinBatch⟩ := hw
  unfold NetWorker.threadStep
  cases hpc : w.pc with
  | loopTest =>
    simp only [hzero, ne_eq, not_true_eq_false, if_false]
    exact ⟨_, rfl⟩
  | popTest =>
    simp only [hzero, ne_eq, not_true_eq_false, if_false]
    exact ⟨_, rfl⟩
  | popLock =>
    obtain ⟨⟨s, t⟩, hloop⟩ := popLoop_ok (k := w.m_msgInStream.getCount.toNat) (t := .new)
      hcounted hstream
    by_cases hempty : w.m_msgInStream.getCount = 0
    · have hpop : w.popMsgFromInStream mallocOk .new = .ok (w, .new, false) := by
        simp only [popMsgFromInStream, NetWorker.lock, hlock, if_true, if_pos hempty, bind,
          Except.bind, pure, Except.pure]
      simp only [hpop, bind, Except.bind, or_true, if_true]
      exact ⟨_, rfl⟩
    · have hpop : w.popMsgFromInStream mallocOk .new =
          .ok ({ w with m_msgInStream := s }, t, true) := by
        simp only [popMsgFromInStream, NetWorker.lock, hlock, if_true, if_neg hempty, hloop, bind,
          Except.bind, pure, Except.pure]
      simp only [hpop, bind, Except.bind]
      split
      · exact ⟨_, rfl⟩
      · exact ⟨_, rfl⟩
  | handling i count t =>
    simp only
    split
    · obtain ⟨ht, -⟩ : t.Counted ∧ t.m_listConMsg.length + i.toNat = count.toNat := by
        simpa [BatchCounted, hpc] using hbatch
      have hcopies : Copies t.m_listConMsg := by simpa [NetWorker.batch, hpc] using hinBatch
      obtain ⟨t', c, flag, hpop, -⟩ := popMsgFromList_ok ht hcopies .new
      have hpop' : t.popMsgFromList (mallocOk 0) .new = .ok (t', c, flag) := hpop
      simp only [hpop', bind, Except.bind]
      exact ⟨_, rfl⟩
    · exact ⟨_, rfl⟩
  | exited => exact ⟨_, rfl⟩

end NetWorker

end SmartServer
