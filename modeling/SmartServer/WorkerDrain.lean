import SmartServer.WorkerProgress

/-!
# A worker gets through its queue

**Theorem (`stepsLeft_step`).** As long as the stream has fewer than `2 ^ 32` messages, every step
of the thread is one of the `stepsLeft` it needs until it has handed on all the messages there are.
When none is left, batch and stream are empty (`stepsLeft_eq_zero_iff`).

The bound is needed: the count of a stream is a `UInt32`, and `2 ^ 32` messages are none to it.
-/

namespace SmartServer

theorem MsgStream.Counted.eq_zero_iff {s : MsgStream} (hs : s.Counted)
    (hlt : s.m_listConMsg.length < 2 ^ 32) : s.m_nCount = 0 ↔ s.m_listConMsg = [] := by
  rw [hs, ← UInt32.toNat_inj, UInt32.toNat_ofNat_of_lt' hlt, UInt32.toNat_zero,
    List.length_eq_zero_iff]

namespace NetWorker

variable {w w' : NetWorker} {out : Option ConMsgNode}

/-- How many steps the thread needs until it has handed on what is in the batch and in the
stream. -/
def stepsLeft (w : NetWorker) : ℕ :=
  let waiting := w.m_msgInStream.m_listConMsg.length
  match w.pc with
  | .loopTest => if waiting = 0 then 0 else waiting + 3
  | .popTest => if waiting = 0 then 0 else waiting + 2
  | .popLock => if waiting = 0 then 0 else waiting + 1
  | .handling _ _ msgStream =>
    msgStream.m_listConMsg.length + if waiting = 0 then 0 else waiting + 4
  | .exited => 0

theorem stepsLeft_eq_zero_iff (hpc : w.pc ≠ .exited) :
    w.stepsLeft = 0 ↔ w.batch = [] ∧ w.m_msgInStream.m_listConMsg = [] := by
  rw [stepsLeft, batch]
  cases hcase : w.pc with
  | exited => exact absurd hcase hpc
  | handling i count msgStream =>
    simp only [Nat.add_eq_zero_iff, List.length_eq_zero_iff, ite_eq_left_iff, Nat.succ_ne_zero,
      imp_false, not_not]
  | _ =>
    simp only [List.length_eq_zero_iff, ite_eq_left_iff, Nat.succ_ne_zero, imp_false, not_not,
      true_and]

/-- The loop takes as many messages as it counts. -/
theorem popLoop_length {malloc : ℕ → Malloc} {k : ℕ} {s t s' t' : MsgStream} (hs : s.Counted)
    (hlt : s.m_listConMsg.length < 2 ^ 32) (hk : k ≤ s.m_listConMsg.length)
    (hrun : popLoop malloc k (s, t) = .ok (s', t')) :
    s'.m_listConMsg.length + k = s.m_listConMsg.length := by
  induction k generalizing s t with
  | zero =>
    obtain ⟨rfl, -⟩ : s = s' ∧ t = t' := by simpa [popLoop] using hrun
    rfl
  | succ k ih =>
    obtain ⟨⟨s₁, c, flag⟩, hpop, hnext⟩ := Run.of_bind hrun
    rcases MsgStream.popMsgFromList_inv hpop with
      ⟨-, hzero, -⟩ | ⟨rfl, -, front, rest, hlist, -, rfl⟩
    · rw [hs.eq_zero_iff hlt] at hzero
      rw [hzero] at hk
      cases hk
    · obtain ⟨t₁, -, hlast⟩ := Run.of_bind hnext
      rw [hlist, List.length_cons] at hlt hk ⊢
      have hrest := ih (hs.pop hlist) (show rest.length < _ by omega)
        (show k ≤ rest.length by omega) hlast
      simp only at hrest
      omega

/-- A batch is all of the stream. -/
theorem popMsgFromInStream_all {malloc : ℕ → Malloc} {t : MsgStream} {flag : Bool}
    (hs : w.m_msgInStream.Counted) (hlt : w.m_msgInStream.m_listConMsg.length < 2 ^ 32)
    (hrun : popMsgFromInStream malloc w .new = .ok (w', t, flag)) :
    w'.m_msgInStream.m_listConMsg = [] ∧
      t.m_listConMsg.length = w.m_msgInStream.m_listConMsg.length := by
  have hkeep : Keeps (fun _ => ()) malloc := fun _ _ _ _ _ => rfl
  obtain ⟨htagged, -⟩ := popMsgFromInStream_inv hkeep hrun
  suffices hempty : w'.m_msgInStream.m_listConMsg = [] by
    refine ⟨hempty, ?_⟩
    have hlen := congrArg List.length htagged
    rwa [MsgStream.tagged, MsgStream.tagged, MsgStream.tagged, hempty, List.map_nil,
      List.append_nil, List.length_map, List.length_map] at hlen
  obtain ⟨_, -, hrun⟩ := Run.of_bind hrun
  simp only at hrun
  split at hrun
  · rename_i hzero
    obtain ⟨rfl, -⟩ : w = w' ∧ MsgStream.new = t ∧ false = flag := by
      simpa [pure, Except.pure] using hrun
    exact (hs.eq_zero_iff hlt).mp hzero
  · obtain ⟨⟨s, t₁⟩, hloop, hend⟩ := Run.of_bind hrun
    obtain ⟨rfl, -⟩ : { w with m_msgInStream := s } = w' ∧ t₁ = t ∧ true = flag := by
      simpa [pure, Except.pure] using hend
    have hcount : w.m_msgInStream.getCount.toNat = w.m_msgInStream.m_listConMsg.length := by
      rw [MsgStream.getCount, hs, UInt32.toNat_ofNat_of_lt' hlt]
    rw [hcount] at hloop
    have hlen := popLoop_length hs hlt le_rfl hloop
    exact List.eq_nil_of_length_eq_zero (show s.m_listConMsg.length = 0 by omega)

/-- A thread that is not shut down does not end. -/
theorem Running.step_pc (hw : w.Running) (hpc : w.pc ≠ .exited)
    (hrun : w.threadStep mallocOk = .ok (w', out)) : w'.pc ≠ .exited := by
  unfold threadStep at hrun
  cases hcase : w.pc with
  | loopTest =>
    simp only [hcase, hw.shutDown, ne_eq, not_true_eq_false, if_false] at hrun
    obtain ⟨rfl, -⟩ := Prod.mk.inj (Except.ok.inj hrun)
    exact fun h => by cases h
  | popTest =>
    simp only [hcase, hw.shutDown, ne_eq, not_true_eq_false, if_false] at hrun
    obtain ⟨rfl, -⟩ := Prod.mk.inj (Except.ok.inj hrun)
    exact fun h => by cases h
  | popLock =>
    simp only [hcase] at hrun
    obtain ⟨⟨w₁, t, flag⟩, -, hend⟩ := Run.of_bind hrun
    simp only at hend
    split at hend <;>
    · obtain ⟨rfl, -⟩ := Prod.mk.inj (Except.ok.inj hend)
      exact fun h => by cases h
  | handling i count t =>
    simp only [hcase] at hrun
    split at hrun
    · obtain ⟨⟨t₁, c, flag⟩, -, hend⟩ := Run.of_bind hrun
      obtain ⟨rfl, -⟩ := Prod.mk.inj (Except.ok.inj hend)
      exact fun h => by cases h
    · obtain ⟨rfl, -⟩ := Prod.mk.inj (Except.ok.inj hrun)
      exact fun h => by cases h
  | exited => exact absurd hcase hpc

/-- **Every step counts.** -/
theorem Running.stepsLeft_step (hw : w.Running)
    (hlt : w.m_msgInStream.m_listConMsg.length < 2 ^ 32)
    (hrun : w.threadStep mallocOk = .ok (w', out)) : w'.stepsLeft ≤ w.stepsLeft - 1 := by
  have hbatch := hw.batchCounted
  unfold threadStep at hrun
  cases hcase : w.pc with
  | loopTest =>
    simp only [hcase, hw.shutDown, ne_eq, not_true_eq_false, if_false] at hrun
    obtain ⟨rfl, -⟩ := Prod.mk.inj (Except.ok.inj hrun)
    simp only [stepsLeft, hcase]
    split <;> omega
  | popTest =>
    simp only [hcase, hw.shutDown, ne_eq, not_true_eq_false, if_false] at hrun
    obtain ⟨rfl, -⟩ := Prod.mk.inj (Except.ok.inj hrun)
    simp only [stepsLeft, hcase]
    split <;> omega
  | popLock =>
    simp only [hcase] at hrun
    obtain ⟨⟨w₁, t, flag⟩, hpop, hend⟩ := Run.of_bind hrun
    obtain ⟨hempty, hlen⟩ := popMsgFromInStream_all hw.counted hlt hpop
    simp only at hend
    split at hend
    · obtain ⟨rfl, -⟩ := Prod.mk.inj (Except.ok.inj hend)
      simp only [stepsLeft, hempty, List.length_nil, if_true]
      exact Nat.zero_le _
    · obtain ⟨rfl, -⟩ := Prod.mk.inj (Except.ok.inj hend)
      simp only [stepsLeft, hcase, hempty, List.length_nil, if_true, hlen]
      split <;> omega
  | handling i count t =>
    obtain ⟨ht, hsum⟩ : t.Counted ∧ t.m_listConMsg.length + i.toNat = count.toNat := by
      simpa [BatchCounted, hcase] using hbatch
    simp only [hcase] at hrun
    split at hrun
    · rename_i hless
      have hnat := UInt32.lt_iff_toNat_lt.mp hless
      have hbound := count.toNat_lt
      obtain ⟨⟨t₁, c, flag⟩, hpop, hend⟩ := Run.of_bind hrun
      obtain ⟨rfl, -⟩ := Prod.mk.inj (Except.ok.inj hend)
      rcases MsgStream.popMsgFromList_inv hpop with
        ⟨-, hzero, -⟩ | ⟨rfl, -, front, rest, hlist, -, rfl⟩
      · rw [ht.eq_zero_iff (by omega)] at hzero
        rw [hzero, List.length_nil] at hsum
        omega
      · simp only [stepsLeft, hcase, hlist, List.length_cons]
        omega
    · obtain ⟨rfl, -⟩ := Prod.mk.inj (Except.ok.inj hrun)
      simp only [stepsLeft, hcase]
      split <;> omega
  | exited =>
    simp only [hcase] at hrun
    obtain ⟨rfl, -⟩ := Prod.mk.inj (Except.ok.inj hrun)
    simp only [stepsLeft, hcase]
    exact Nat.zero_le _

end NetWorker

end SmartServer
