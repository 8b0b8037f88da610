import SmartServer.WorkerLock

/-!
# The bodies under `m_mutexLock` are atomic

**Theorem (`sections_atomic`).** However the steps of the threads follow each other, what they do is
what they do when a body under the lock is one step, as in `WorkerRun`: when the mutex is free the
states are the same, and otherwise some steps of the body that is going on lead from one to the
other. When a step fails, the event that it is part of fails in the same way.

**Theorem (`fifo_locked`).** So the queue is a FIFO whatever the order of the single accesses.

* What is left of a body once some of its steps are taken (`PushLocked.rest`, `PopLocked.rest`)
  gives the same result after each step.
* The body that is going on is moved to the moment in which the mutex is unlocked
  (`Sections.exists_pending`), and is one step there (`Reached.step`).
* What is left of a body fails when its next step does (`rest_error`), so a step that fails makes
  the whole body fail (`step_error`). Only when the worker's thread has deleted the mutex in the
  meantime, the body fails earlier, at its lock.
-/

namespace SmartServer

/-! ## What is left of a body -/

open Relation (ReflTransGen)

section Bodies

variable {malloc : ℕ → Malloc} {s s' : MsgStream}

/-- What the rest of `pushNodeInStream` does. -/
def PushLocked.rest : PushLocked → MsgStream → Exec (TcpHandler × MsgStream)
  | .test malloc k tcpHandler, s => NetWorker.pushLoop malloc k (tcpHandler, s)
  | .pushBack malloc k tcpHandler conMsgNode, s => do
    let s ← s.insertMsgToList (malloc (2 * k)) conMsgNode
    NetWorker.pushLoop malloc k (tcpHandler, s)
  | .increment malloc k tcpHandler, s =>
    NetWorker.pushLoop malloc k (tcpHandler, { s with m_nCount := s.m_nCount + 1 })
  | .unlock tcpHandler, s => .ok (tcpHandler, s)

/-- The nodes that the rest of `pushNodeInStream` takes. -/
def PushLocked.takes : PushLocked → List (UInt64 × MsgNode)
  | .test _ k tcpHandler =>
    (drained k tcpHandler.m_listMsgs.values).map fun n => (tcpHandler.m_nConnId, n)
  | .pushBack _ k tcpHandler _ =>
    (drained k tcpHandler.m_listMsgs.values).map fun n => (tcpHandler.m_nConnId, n)
  | .increment _ k tcpHandler =>
    (drained k tcpHandler.m_listMsgs.values).map fun n => (tcpHandler.m_nConnId, n)
  | .unlock _ => []

/-- What the rest of `popMsgFromInStream` does. -/
def PopLocked.rest : PopLocked → MsgStream → Exec (MsgStream × MsgStream × Bool)
  | .count malloc, s =>
    if s.getCount = 0 then .ok (s, .new, false)
    else do
      let (s, t) ← NetWorker.popLoop malloc s.getCount.toNat (s, .new)
      pure (s, t, true)
  | .test malloc k t, s => do
    let (s, t) ← NetWorker.popLoop malloc k (s, t)
    pure (s, t, true)
  | .popFront malloc k t c, s => do
    let t ← t.insertMsgToList (malloc (2 * k)) c
    let (s, t) ← NetWorker.popLoop malloc k (⟨s.m_nCount - 1, s.m_listConMsg.tail⟩, t)
    pure (s, t, true)
  | .decrement malloc k t c, s => do
    let t ← t.insertMsgToList (malloc (2 * k)) c
    let (s, t) ← NetWorker.popLoop malloc k (⟨s.m_nCount - 1, s.m_listConMsg⟩, t)
    pure (s, t, true)
  | .unlock t flag, s => .ok (s, t, flag)

/-- **A step of `pushNodeInStream`** leaves what remains to be done, and the nodes it takes now and
later. -/
theorem PushLocked.rest_step {pc pc' : PushLocked} {moved : List (UInt64 × MsgNode)}
    (h : pc.step s = .ok (pc', s', moved)) :
    pc'.rest s' = pc.rest s ∧ moved ++ pc'.takes = pc.takes := by
  cases pc with
  | test malloc k tcpHandler =>
    cases k with
    | zero =>
      obtain ⟨rfl, rfl, rfl⟩ : .unlock tcpHandler = pc' ∧ s = s' ∧ [] = moved := by
        simpa [step] using h
      exact ⟨rfl, rfl⟩
    | succ k =>
      simp only [step] at h
      cases hvals : tcpHandler.m_listMsgs.values with
      | nil =>
        rw [hvals] at h
        cases h
      | cons n ns =>
        rw [hvals] at h
        simp only at h
        by_cases hrec : n.isReceived = true
        · rw [if_pos hrec] at h
          obtain ⟨n', hn, hend⟩ := Run.of_bind h
          obtain ⟨rfl, rfl, rfl⟩ := Prod.mk.inj (Except.ok.inj hend)
          have htail : tcpHandler.m_listMsgs.popFront.values = ns := by simp [hvals]
          refine ⟨?_, ?_⟩
          · simp only [rest, NetWorker.pushLoop, hvals, if_pos hrec, hn, bind, Except.bind]
          · simp only [takes, hvals, htail]
            simp [drained, hrec]
        · rw [if_neg hrec] at h
          obtain ⟨rfl, rfl, rfl⟩ : .unlock tcpHandler = pc' ∧ s = s' ∧ [] = moved := by
            simpa using h
          refine ⟨?_, ?_⟩
          · simp only [rest, NetWorker.pushLoop, hvals, if_neg hrec]
          · simp [takes, hvals, drained, hrec]
  | pushBack malloc k tcpHandler c =>
    obtain ⟨c', hc, hend⟩ := Run.of_bind h
    obtain ⟨rfl, rfl, rfl⟩ := Prod.mk.inj (Except.ok.inj hend)
    refine ⟨?_, rfl⟩
    simp only [rest, MsgStream.insertMsgToList, hc, bind, Except.bind, pure, Except.pure]
  | increment malloc k tcpHandler =>
    obtain ⟨rfl, rfl, rfl⟩ := Prod.mk.inj (Except.ok.inj h)
    exact ⟨rfl, rfl⟩
  | unlock tcpHandler =>
    obtain ⟨rfl, rfl, rfl⟩ := Prod.mk.inj (Except.ok.inj h)
    exact ⟨rfl, rfl⟩

theorem PushLocked.rest_error {pc : PushLocked} {f : Fault} (h : pc.step s = .error f) :
    pc.rest s = .error f := by
  cases pc with
  | test malloc k tcpHandler =>
    cases k with
    | zero => cases h
    | succ k =>
      simp only [step] at h
      simp only [rest, NetWorker.pushLoop]
      cases hvals : tcpHandler.m_listMsgs.values with
      | nil =>
        rw [hvals] at h
        obtain rfl := Except.error.inj h
        rfl
      | cons n ns =>
        rw [hvals] at h
        simp only at h ⊢
        by_cases hrec : n.isReceived = true
        · rw [if_pos hrec] at h ⊢
          rcases Run.of_bind_error h with hn | ⟨n', -, hend⟩
          · rw [hn]
            rfl
          · cases hend
        · rw [if_neg hrec] at h
          cases h
  | pushBack malloc k tcpHandler c =>
    rcases Run.of_bind_error h with hc | ⟨c', -, hend⟩
    · rw [rest, MsgStream.insertMsgToList, hc]
      rfl
    · cases hend
  | increment malloc k tcpHandler => cases h
  | unlock tcpHandler => cases h

/-- **A step of `popMsgFromInStream`** leaves what remains to be done. -/
theorem PopLocked.rest_step {pc pc' : PopLocked} (h : pc.step s = .ok (pc', s')) :
    pc'.rest s' = pc.rest s := by
  cases pc with
  | count malloc =>
    simp only [step] at h
    simp only [rest]
    split at h
    · rename_i hzero
      obtain ⟨rfl, rfl⟩ := Prod.mk.inj (Except.ok.inj h)
      rw [if_pos hzero]
    · rename_i hpos
      obtain ⟨rfl, rfl⟩ := Prod.mk.inj (Except.ok.inj h)
      rw [if_neg hpos]
  | test malloc k t =>
    cases k with
    | zero =>
      obtain ⟨rfl, rfl⟩ := Prod.mk.inj (Except.ok.inj h)
      rfl
    | succ k =>
      simp only [step] at h
      simp only [rest, NetWorker.popLoop, MsgStream.popMsgFromList]
      by_cases hzero : s.m_nCount = 0
      · rw [if_pos hzero] at h ⊢
        obtain ⟨rfl, rfl⟩ := Prod.mk.inj (Except.ok.inj h)
        rfl
      · rw [if_neg hzero] at h ⊢
        cases hlist : s.m_listConMsg with
        | nil =>
          rw [hlist] at h
          cases h
        | cons front others =>
          rw [hlist] at h
          obtain ⟨c, hc, hend⟩ := Run.of_bind h
          obtain ⟨rfl, rfl⟩ := Prod.mk.inj (Except.ok.inj hend)
          simp only [hlist, hc, List.tail_cons, bind, Except.bind, pure, Except.pure, if_true]
          cases t.insertMsgToList (malloc (2 * k)) c <;> rfl
  | popFront malloc k t c =>
    obtain ⟨rfl, rfl⟩ := Prod.mk.inj (Except.ok.inj h)
    rfl
  | decrement malloc k t c =>
    obtain ⟨t', ht, hend⟩ := Run.of_bind h
    obtain ⟨rfl, rfl⟩ := Prod.mk.inj (Except.ok.inj hend)
    simp only [rest, ht, bind, Except.bind]
  | unlock t flag =>
    obtain ⟨rfl, rfl⟩ := Prod.mk.inj (Except.ok.inj h)
    rfl

theorem PopLocked.rest_error {pc : PopLocked} {f : Fault} (h : pc.step s = .error f) :
    pc.rest s = .error f := by
  cases pc with
  | count malloc =>
    simp only [step] at h
    split at h <;> cases h
  | test malloc k t =>
    cases k with
    | zero => cases h
    | succ k =>
      simp only [step] at h
      simp only [rest, NetWorker.popLoop, MsgStream.popMsgFromList]
      by_cases hzero : s.m_nCount = 0
      · rw [if_pos hzero] at h
        cases h
      · rw [if_neg hzero] at h ⊢
        cases hlist : s.m_listConMsg with
        | nil =>
          rw [hlist] at h
          obtain rfl := Except.error.inj h
          rfl
        | cons front others =>
          rw [hlist] at h
          rcases Run.of_bind_error h with hc | ⟨c, -, hend⟩
          · simp only [hc, bind, Except.bind]
          · cases hend
  | popFront malloc k t c => cases h
  | decrement malloc k t c =>
    rcases Run.of_bind_error h with ht | ⟨t', -, hend⟩
    · simp only [rest, ht, bind, Except.bind]
    · cases hend
  | unlock t flag => cases h

end Bodies

namespace WorkerLock

variable {ok : (ℕ → Malloc) → Prop} {s s' : WorkerLock}

/-! ## Bodies in one step -/

theorem push_of_inside {x y : Pushing × MsgStream} (h : ReflTransGen (inside .network) x y)
    {pc : PushLocked} (hpc : x.1.pc = .locked pc) :
    ∃ pc', y.1.pc = .locked pc' ∧ pc'.rest y.2 = pc.rest x.2 ∧
      y.1.pushed ++ pc'.takes = x.1.pushed ++ pc.takes ∧ x.1.pushed <+: y.1.pushed := by
  induction h with
  | refl => exact ⟨pc, hpc, rfl, rfl, List.prefix_rfl⟩
  | @tail y z _ hstep ih =>
    obtain ⟨pc₁, hpc₁, hrest, htakes, hpre⟩ := ih
    obtain ⟨pc₂, pc', moved, hpc₂, hbody, hz⟩ := hstep
    obtain rfl := PushPc.locked.inj (hpc₁.symm.trans hpc₂)
    obtain ⟨hrest', htakes'⟩ := PushLocked.rest_step hbody
    refine ⟨pc', by rw [hz], hrest'.trans hrest, ?_, ?_⟩
    · rw [hz, List.append_assoc, htakes']
      exact htakes
    · rw [hz]
      exact hpre.trans (List.prefix_append _ _)

theorem pop_of_inside {x y : Popping × MsgStream} (h : ReflTransGen (inside .worker) x y)
    {pc : PopLocked} (hpc : x.1.pc = .locked pc) :
    ∃ pc', y.1.pc = .locked pc' ∧ pc'.rest y.2 = pc.rest x.2 ∧ y.1.handled = x.1.handled := by
  induction h with
  | refl => exact ⟨pc, hpc, rfl, rfl⟩
  | @tail y z _ hstep ih =>
    obtain ⟨pc₁, hpc₁, hrest, hhandled⟩ := ih
    obtain ⟨pc₂, pc', hpc₂, hbody, hz⟩ := hstep
    obtain rfl := PopPc.locked.inj (hpc₁.symm.trans hpc₂)
    exact ⟨pc', by rw [hz], (PopLocked.rest_step hbody).trans hrest, by rw [hz, ← hhandled]⟩

theorem pushNodeInStream_eq {w : NetWorker} (hlock : w.m_mutexLock = true) (malloc : ℕ → Malloc)
    (tcpHandler : TcpHandler) :
    NetWorker.pushNodeInStream malloc w tcpHandler = (do
      let (tcpHandler, m_msgInStream) ← PushLocked.rest (.test malloc
        (UInt32.ofNat tcpHandler.m_listMsgs.values.length).toNat tcpHandler) w.m_msgInStream
      pure ({ w with m_msgInStream }, tcpHandler)) := by
  rw [NetWorker.pushNodeInStream, NetWorker.lock, if_pos hlock]
  rfl

theorem popMsgFromInStream_eq {malloc : ℕ → Malloc} {w : NetWorker}
    (hlock : w.m_mutexLock = true) :
    NetWorker.popMsgFromInStream malloc w .new = (do
      let (m_msgInStream, msgStream, flag) ← PopLocked.rest (.count malloc) w.m_msgInStream
      pure ({ w with m_msgInStream }, msgStream, flag)) := by
  rw [NetWorker.popMsgFromInStream, NetWorker.lock, if_pos hlock, PopLocked.rest]
  by_cases hzero : w.m_msgInStream.getCount = 0
  · simp only [hzero, if_true, bind, Except.bind, pure, Except.pure]
  · simp only [hzero, if_false, bind, Except.bind, pure, Except.pure]
    cases NetWorker.popLoop malloc w.m_msgInStream.getCount.toNat (w.m_msgInStream, .new) <;> rfl

/-- The step of the worker's thread that takes a batch. -/
theorem threadStep_popLock {malloc : ℕ → Malloc} {w : NetWorker} (hpc : w.pc = .popLock)
    (hlock : w.m_mutexLock = true) :
    NetWorker.threadStep malloc w = (do
      let (m_msgInStream, msgStream, flag) ← PopLocked.rest (.count malloc) w.m_msgInStream
      pure ({ w with
        m_msgInStream
        pc := if msgStream.getCount = 0 ∨ flag = false then .loopTest
          else .handling 0 msgStream.getCount msgStream }, none)) := by
  unfold NetWorker.threadStep
  rw [hpc]
  simp only [popMsgFromInStream_eq hlock]
  cases PopLocked.rest (.count malloc) w.m_msgInStream with
  | error f => rfl
  | ok r =>
    simp only [bind, Except.bind, pure, Except.pure]
    split <;> rfl

/-- What is seen of it between two calls under the lock. -/
def workerRun (s : WorkerLock) (pc : WorkerPc) : WorkerRun where
  worker := ⟨s.m_nShutDown, s.m_mutexLock, s.m_msgInStream, pc⟩
  handled := s.handled

/-- What is seen of a state between two bodies. -/
def runOf (a : Sections.State Side Local MsgStream Shared) (pc : WorkerPc) : WorkerRun where
  worker := ⟨a.shared.1, a.shared.2, a.guarded, pc⟩
  handled := (a.threads .worker).handled

/-- The events of `WorkerRun` with allocations as `ok` says. -/
def AllUse (ok : (ℕ → Malloc) → Prop) (es : List WorkerEvent) : Prop :=
  ∀ e ∈ es, match e with
    | .push malloc _ => ok malloc
    | .thread malloc => ok malloc
    | .shutDown => True

/-- What is reached when bodies are one step, a run of `WorkerRun` reaches. -/
structure Reached (ok : (ℕ → Malloc) → Prop) (es : List WorkerEvent)
    (a : Sections.State Side Local MsgStream Shared) (pc : WorkerPc) : Prop where
  worker : (a.threads .worker).pc = .loop pc
  network : ∀ malloc tcpHandler, (a.threads .network).pc = .lock malloc tcpHandler → ok malloc
  run : es.foldlM WorkerRun.step .new = .ok (runOf a pc)
  uses : AllUse ok es
  pushed : es.flatMap WorkerEvent.pushed = (a.threads .network).pushed

variable {es : List WorkerEvent} {a a' : Sections.State Side Local MsgStream Shared}
  {pc : WorkerPc}

theorem AllUse.concat (h : AllUse ok es) {e : WorkerEvent}
    (he : AllUse ok [e]) : AllUse ok (es ++ [e]) := by
  intro e' he'
  rcases List.mem_append.mp he' with he' | he'
  · exact h e' he'
  · exact he e' he'

/-- One more event. -/
theorem Reached.snoc (h : Reached ok es a pc) {e : WorkerEvent} {pc' : WorkerPc}
    (hstep : WorkerRun.step (runOf a pc) e = .ok (runOf a' pc'))
    (hworker : (a'.threads .worker).pc = .loop pc')
    (hnetwork : ∀ malloc tcpHandler, (a'.threads .network).pc = .lock malloc tcpHandler → ok malloc)
    (huse : AllUse ok [e])
    (hpushed : (a'.threads .network).pushed = (a.threads .network).pushed ++ e.pushed) :
    Reached ok (es ++ [e]) a' pc' where
  worker := hworker
  network := hnetwork
  run := by
    rw [Run.foldlM_concat, h.run]
    exact hstep
  uses := h.uses.concat huse
  pushed := by rw [List.flatMap_append, h.pushed, hpushed, List.flatMap_singleton]

theorem Reached.step (h : Reached ok es a pc) (hstep : Sections.AtomicStep (program ok) a a') :
    ∃ es' pc', Reached ok es' a' pc' := by
  cases hstep with
  | @outside i b t hout =>
    cases i with
    | network =>
      obtain ⟨malloc, tcpHandler, hok, hidle, heq⟩ := hout
      obtain ⟨rfl, rfl⟩ := Prod.mk.inj heq
      refine ⟨es, pc, h.worker, ?_, h.run, h.uses, h.pushed⟩
      intro malloc' tcpHandler' hlock
      obtain ⟨rfl, -⟩ := PushPc.lock.inj hlock
      exact hok
    | worker =>
      obtain ⟨malloc, pc₀, stream, w, out, hok, hpc, hpop, hthread, heq⟩ := hout
      obtain ⟨rfl, rfl⟩ := Prod.mk.inj heq
      obtain rfl := PopPc.loop.inj (h.worker.symm.trans hpc)
      refine ⟨es ++ [.thread malloc], w.pc, h.snoc ?_ rfl h.network ?_ (List.append_nil _).symm⟩
      · have hsame := threadStep_outside malloc a.shared.1 a.shared.2 hpop stream a.guarded
        rw [hthread] at hsame
        simp only [WorkerRun.step, runOf, hsame, Except.map, bind, Except.bind, pure, Except.pure,
          Function.update_self]
      · simpa [AllUse] using hok
    | owner =>
      obtain ⟨-, rfl⟩ := Prod.mk.inj hout
      exact ⟨es ++ [.shutDown], pc, h.snoc rfl h.worker h.network (by simp [AllUse])
        (List.append_nil _).symm⟩
  | @underLock i b c d g henter hinside hleave =>
    cases i with
    | network =>
      obtain ⟨malloc, tcpHandler, hlock, rfl⟩ := henter
      obtain ⟨tcpHandler', hunlock, halive, rfl⟩ := hleave
      obtain ⟨pc', hpc', hrest, htakes, -⟩ := push_of_inside hinside rfl
      obtain rfl := PushPc.locked.inj (hunlock.symm.trans hpc')
      have hbody : PushLocked.rest (.test malloc
          (UInt32.ofNat tcpHandler.m_listMsgs.values.length).toNat tcpHandler) a.guarded =
          .ok (tcpHandler', g) := hrest.symm
      refine ⟨es ++ [.push malloc tcpHandler], pc, h.snoc ?_ h.worker ?_ ?_ ?_⟩
      · have hpush := pushNodeInStream_eq (w := (runOf a pc).worker) halive malloc
          tcpHandler
        rw [show (runOf a pc).worker.m_msgInStream = a.guarded from rfl, hbody] at hpush
        simp only [WorkerRun.step, hpush, bind, Except.bind, pure, Except.pure]
        rfl
      · intro malloc' tcpHandler' hlock'
        simp only [Function.update_self] at hlock'
        cases hlock'
      · simpa [AllUse] using h.network malloc tcpHandler hlock
      · simp only [Function.update_self]
        exact (List.append_nil _).symm.trans htakes
    | worker =>
      obtain ⟨malloc, hok, hlock, rfl⟩ := henter
      obtain ⟨msgStream, flag, hunlock, halive, rfl⟩ := hleave
      obtain ⟨pc', hpc', hrest, hhandled⟩ := pop_of_inside hinside rfl
      obtain rfl := PopPc.locked.inj (hunlock.symm.trans hpc')
      obtain rfl := PopPc.loop.inj (h.worker.symm.trans hlock)
      have hbody : PopLocked.rest (.count malloc) a.guarded = .ok (g, msgStream, flag) := hrest.symm
      refine ⟨es ++ [.thread malloc], _, h.snoc ?_ rfl h.network ?_ (List.append_nil _).symm⟩
      · have hpop : NetWorker.threadStep malloc (runOf a .popLock).worker = _ :=
          threadStep_popLock rfl halive
        rw [show (runOf a .popLock).worker.m_msgInStream = a.guarded from rfl, hbody] at hpop
        simp only [WorkerRun.step, hpop, bind, Except.bind, pure, Except.pure]
        have hsame : c.handled = (a.threads .worker).handled := hhandled
        simp only [runOf, Option.toList_none, List.append_nil, Function.update_self, hsame]
      · simpa [AllUse] using hok
    | owner => exact henter.elim

/-! ## Runs -/

theorem reached_new : Reached ok [] new.view .loopTest where
  worker := rfl
  network _ _ h := by cases h
  run := rfl
  uses := fun e he => by cases he
  pushed := rfl

/-- **A run**, with the body that is going on left out. -/
theorem exists_reached {events : List Event} (huse : ∀ e ∈ events, e.Uses ok)
    (hrun : events.foldlM step new = .ok s) :
    ∃ es a pc, Reached ok es a pc ∧ Sections.Pending (program ok) a s.view := by
  obtain ⟨a, ha, hpending⟩ := Sections.exists_pending rfl (run_view huse hrun).2
  suffices hreached : ∃ es pc, Reached ok es a pc by
    obtain ⟨es, pc, hr⟩ := hreached
    exact ⟨es, a, pc, hr, hpending⟩
  clear hpending
  induction ha with
  | refl => exact ⟨[], .loopTest, reached_new⟩
  | tail _ hstep ih =>
    obtain ⟨es, pc, hr⟩ := ih
    exact hr.step hstep

/-- What the worker's thread has handed on, and what has been pushed, with the body that is going on
left out. -/
theorem Reached.seen (hr : Reached ok es a pc) (hp : Sections.Pending (program ok) a s.view) :
    (runOf a pc).handled = s.handled ∧ es.flatMap WorkerEvent.pushed <+: s.pushed := by
  rw [hr.pushed]
  have hworker : s.m_hMutex ≠ some .worker → a.threads .worker = ⟨s.worker, s.handled⟩ :=
    fun hout => hp.threads_eq hout
  have hnetwork : s.m_hMutex ≠ some .network → a.threads .network = ⟨s.network, s.pushed⟩ :=
    fun hout => hp.threads_eq hout
  cases hp with
  | free _ heq =>
    subst heq
    exact ⟨rfl, List.prefix_rfl⟩
  | @held i b hin heq henter hinside =>
    have hheld : s.m_hMutex = some i := hin
    rw [hheld] at hworker hnetwork
    cases i with
    | network =>
      obtain ⟨malloc, tcpHandler, -, rfl⟩ := henter
      obtain ⟨body', -, -, -, hpre⟩ := push_of_inside hinside rfl
      exact ⟨congrArg Popping.handled (hworker (by simp)), hpre⟩
    | worker =>
      obtain ⟨malloc, -, -, rfl⟩ := henter
      obtain ⟨body', -, -, hhandled⟩ := pop_of_inside hinside rfl
      refine ⟨hhandled.symm, ?_⟩
      rw [hnetwork (by simp)]
    | owner => exact henter.elim

/-- When the mutex is free no body is going on. -/
theorem Reached.of_free (hr : Reached ok es a pc) (hp : Sections.Pending (program ok) a s.view)
    (hfree : s.m_hMutex = none) : s.worker = .loop pc ∧ runOf a pc = s.workerRun pc ∧
      es.flatMap WorkerEvent.pushed = s.pushed := by
  cases hp with
  | free _ heq =>
    subst heq
    exact ⟨hr.worker, rfl, hr.pushed⟩
  | held hin _ _ _ =>
    have hheld : s.m_hMutex = _ := hin
    rw [hfree] at hheld
    cases hheld

/-- `r` is `s` with the body that is going on left out, and `body` is the event that this body is:
from its beginning, on the stream of `r`, some of its own steps lead to where its thread is in
`s`. -/
inductive Underway (s : WorkerLock) (es : List WorkerEvent) (r : WorkerRun) :
    Option WorkerEvent → Prop
  | none {pc : WorkerPc} (hfree : s.m_hMutex = none) (hpc : s.worker = .loop pc)
      (hr : r = s.workerRun pc) (hpushed : es.flatMap WorkerEvent.pushed = s.pushed) :
      Underway s es r none
  | push {malloc : ℕ → Malloc} {tcpHandler : TcpHandler} {pc : WorkerPc} {stream : MsgStream}
      (hheld : s.m_hMutex = some .network) (hpc : s.worker = .loop pc)
      (hr : r = { s with m_msgInStream := stream }.workerRun pc)
      (hsteps : ReflTransGen (inside .network)
        (⟨.locked (.test malloc (UInt32.ofNat tcpHandler.m_listMsgs.values.length).toNat
          tcpHandler), es.flatMap WorkerEvent.pushed⟩, stream)
        (⟨s.network, s.pushed⟩, s.m_msgInStream)) :
      Underway s es r (some (.push malloc tcpHandler))
  | thread {malloc : ℕ → Malloc} {stream : MsgStream} (hheld : s.m_hMutex = some .worker)
      (hr : r = { s with m_msgInStream := stream }.workerRun .popLock)
      (hpushed : es.flatMap WorkerEvent.pushed = s.pushed)
      (hsteps : ReflTransGen (inside .worker)
        (⟨.locked (.count malloc), s.handled⟩, stream)
        (⟨s.worker, s.handled⟩, s.m_msgInStream)) :
      Underway s es r (some (.thread malloc))

theorem Reached.underway (hr : Reached ok es a pc)
    (hp : Sections.Pending (program ok) a s.view) : ∃ body, Underway s es (runOf a pc) body := by
  have hshared : a.shared = (s.m_nShutDown, s.m_mutexLock) := hp.shared_eq
  have hhandled := (hr.seen hp).1
  have hrun : runOf a pc = { s with m_msgInStream := a.guarded }.workerRun pc := by
    simp only [runOf, workerRun, hshared, WorkerRun.mk.injEq, true_and]
    exact hhandled
  have hworker : s.m_hMutex ≠ some .worker → s.worker = .loop pc := by
    intro hout
    have hthreads : a.threads .worker = ⟨s.worker, s.handled⟩ := hp.threads_eq hout
    have hpc := hr.worker
    rwa [hthreads] at hpc
  have hpushed : s.m_hMutex ≠ some .network → es.flatMap WorkerEvent.pushed = s.pushed := by
    intro hout
    have hthreads : a.threads .network = ⟨s.network, s.pushed⟩ := hp.threads_eq hout
    rw [hr.pushed, hthreads]
  cases hp with
  | free hfree heq =>
    have hnone : s.m_hMutex = none := hfree
    subst heq
    exact ⟨_, .none hnone (hworker (by simp [hnone])) hrun (hpushed (by simp [hnone]))⟩
  | @held i b hin heq henter hinside =>
    have hheld : s.m_hMutex = some i := hin
    cases i with
    | network =>
      obtain ⟨malloc, tcpHandler, -, rfl⟩ := henter
      rw [← hr.pushed] at hinside
      exact ⟨_, .push hheld (hworker (by simp [hheld])) hrun hinside⟩
    | worker =>
      obtain ⟨malloc, -, hlock, rfl⟩ := henter
      obtain rfl := PopPc.loop.inj (hr.worker.symm.trans hlock)
      have hsame : (a.threads .worker).handled = s.handled := hhandled
      rw [hsame] at hinside
      exact ⟨_, .thread hheld hrun (hpushed (by simp [hheld])) hinside⟩
    | owner => exact henter.elim

/-- What was done up to `s` is what the events `es` do when a body is one step, with the body that
is going on left out. -/
structure Atomically (s : WorkerLock) (es : List WorkerEvent) (r : WorkerRun)
    (body : Option WorkerEvent) : Prop where
  run : es.foldlM WorkerRun.step .new = .ok r
  handled : r.handled = s.handled
  pushed : es.flatMap WorkerEvent.pushed <+: s.pushed
  underway : Underway s es r body

theorem exists_atomically {events : List Event} (hrun : events.foldlM step new = .ok s) :
    ∃ es r body, Atomically s es r body := by
  obtain ⟨es, a, pc, hr, hp⟩ := exists_reached (fun e _ => uses_true e) hrun
  obtain ⟨body, hbody⟩ := hr.underway hp
  exact ⟨es, runOf a pc, body, hr.run, (hr.seen hp).1, (hr.seen hp).2, hbody⟩

/-! ## Faults -/

variable {r : WorkerRun} {body : Option WorkerEvent} {f : Fault}

/-- The event that the step of a thread is part of, when a body is one step: the call that the
thread makes, and once it is in the body, the body that is going on. -/
inductive Event.PartOf (s : WorkerLock) (body : Option WorkerEvent) : Event → WorkerEvent → Prop
  | pushWaits {malloc : ℕ → Malloc} {tcpHandler : TcpHandler}
      (hpc : s.network = .lock malloc tcpHandler) :
      PartOf s body .network (.push malloc tcpHandler)
  | pushes {malloc : ℕ → Malloc} {tcpHandler : TcpHandler} {pc : PushLocked}
      (hpc : s.network = .locked pc) (hbody : body = some (.push malloc tcpHandler)) :
      PartOf s body .network (.push malloc tcpHandler)
  | loops {malloc : ℕ → Malloc} {pc : WorkerPc} (hpc : s.worker = .loop pc) :
      PartOf s body (.worker malloc) (.thread malloc)
  | pops {malloc malloc' : ℕ → Malloc} {pc : PopLocked} (hpc : s.worker = .locked pc)
      (hbody : body = some (.thread malloc')) : PartOf s body (.worker malloc) (.thread malloc')

/-- `e` fails with the fault `f`, or at the mutex, which has been deleted. -/
def FailsAs (r : WorkerRun) (e : WorkerEvent) (f : Fault) : Prop :=
  ∃ f', WorkerRun.step r e = .error f' ∧
    (f' = f ∨ r.worker.m_mutexLock = false ∧ f' = .nullDeref)

theorem push_fails (malloc : ℕ → Malloc) (tcpHandler : TcpHandler)
    (h : r.worker.m_mutexLock = true → PushLocked.rest (.test malloc
      (UInt32.ofNat tcpHandler.m_listMsgs.values.length).toNat tcpHandler)
      r.worker.m_msgInStream = .error f) : FailsAs r (.push malloc tcpHandler) f := by
  cases halive : r.worker.m_mutexLock with
  | false =>
    refine ⟨.nullDeref, ?_, .inr ⟨halive, rfl⟩⟩
    simp only [WorkerRun.step, NetWorker.pushNodeInStream, NetWorker.lock, halive,
      Bool.false_eq_true, if_false, bind, Except.bind]
  | true =>
    have hpush := pushNodeInStream_eq halive malloc tcpHandler
    rw [h halive] at hpush
    exact ⟨f, by rw [WorkerRun.step, hpush]; rfl, .inl rfl⟩

theorem pop_fails (malloc : ℕ → Malloc) (hpc : r.worker.pc = .popLock)
    (h : r.worker.m_mutexLock = true →
      PopLocked.rest (.count malloc) r.worker.m_msgInStream = .error f) :
    FailsAs r (.thread malloc) f := by
  cases halive : r.worker.m_mutexLock with
  | false =>
    refine ⟨.nullDeref, ?_, .inr ⟨halive, rfl⟩⟩
    simp only [WorkerRun.step, NetWorker.threadStep, NetWorker.popMsgFromInStream, NetWorker.lock,
      hpc, halive, Bool.false_eq_true, if_false, bind, Except.bind]
  | true =>
    have hpop : NetWorker.threadStep malloc r.worker = _ := threadStep_popLock hpc halive
    rw [h halive] at hpop
    exact ⟨f, by rw [WorkerRun.step, hpop]; rfl, .inl rfl⟩

/-- The stream and the place of the worker's thread are all that the two may differ in. -/
theorem Underway.exists_stream (hu : Underway s es r body) :
    ∃ stream pc, r = { s with m_msgInStream := stream }.workerRun pc := by
  cases hu with
  | none _ _ hr _ => exact ⟨_, _, hr⟩
  | push _ _ hr _ => exact ⟨_, _, hr⟩
  | thread _ hr _ _ => exact ⟨_, _, hr⟩

/-- Outside the body the worker's thread is in the same place. -/
theorem Underway.loop (hu : Underway s es r body) (hg : Guarded s) {pc : WorkerPc}
    (hpc : s.worker = .loop pc) :
    ∃ stream, r = { s with m_msgInStream := stream }.workerRun pc := by
  cases hu with
  | none _ hpc' hr _ =>
    obtain rfl := PopPc.loop.inj (hpc.symm.trans hpc')
    exact ⟨_, hr⟩
  | push _ hpc' hr _ =>
    obtain rfl := PopPc.loop.inj (hpc.symm.trans hpc')
    exact ⟨_, hr⟩
  | thread hheld _ _ _ => exact absurd hheld (hg.worker_out (by simp [hpc]))

/-- The call of `pushNodeInStream` that is going on: what is left of it is what all of it does. -/
theorem Underway.pushes (hu : Underway s es r body) (hg : Guarded s) {pc : PushLocked}
    (hpc : s.network = .locked pc) :
    ∃ malloc tcpHandler, body = some (.push malloc tcpHandler) ∧
      pc.rest s.m_msgInStream = PushLocked.rest (.test malloc
        (UInt32.ofNat tcpHandler.m_listMsgs.values.length).toNat tcpHandler)
        r.worker.m_msgInStream := by
  have hnetwork := hg.network.mpr ⟨pc, hpc⟩
  cases hu with
  | none hfree _ _ _ => cases hfree.symm.trans hnetwork
  | thread hheld _ _ _ => cases hheld.symm.trans hnetwork
  | @push malloc tcpHandler pc' stream _ _ hr hsteps =>
    obtain ⟨pc'', hpc'', hrest, -, -⟩ := push_of_inside hsteps rfl
    obtain rfl := PushPc.locked.inj (hpc.symm.trans hpc'')
    subst hr
    exact ⟨malloc, tcpHandler, rfl, hrest⟩

/-- The batch that is being taken: what is left of it is what all of it does. -/
theorem Underway.pops (hu : Underway s es r body) (hg : Guarded s) {pc : PopLocked}
    (hpc : s.worker = .locked pc) :
    r.worker.pc = .popLock ∧ ∃ malloc, body = some (.thread malloc) ∧
      pc.rest s.m_msgInStream = PopLocked.rest (.count malloc) r.worker.m_msgInStream := by
  have hworker := hg.worker.mpr ⟨pc, hpc⟩
  cases hu with
  | none hfree _ _ _ => cases hfree.symm.trans hworker
  | push hheld _ _ _ => cases hheld.symm.trans hworker
  | @thread malloc stream _ hr _ hsteps =>
    obtain ⟨pc', hpc', hrest, -⟩ := pop_of_inside hsteps rfl
    obtain rfl := PopPc.locked.inj (hpc.symm.trans hpc')
    subst hr
    exact ⟨rfl, malloc, rfl, hrest⟩

theorem networkStep_error (hg : Guarded s) (hu : Underway s es r body)
    (h : s.networkStep = .error f) :
    ∃ e, Event.PartOf s body .network e ∧ FailsAs r e f := by
  have hdeleted : s.m_mutexLock = false → r.worker.m_mutexLock = true → False := by
    obtain ⟨stream, pc, rfl⟩ := hu.exists_stream
    intro hdead halive
    exact Bool.false_ne_true (hdead.symm.trans halive)
  have hcases := networkStep_cases s
  rw [h] at hcases
  cases hcases with
  | noLock hpc hdead =>
    exact ⟨_, .pushWaits hpc, push_fails _ _ fun halive => (hdeleted hdead halive).elim⟩
  | fails hpc hbody =>
    obtain ⟨malloc, tcpHandler, hcall, hrest⟩ := hu.pushes hg hpc
    refine ⟨_, .pushes hpc hcall, push_fails _ _ fun _ => ?_⟩
    rw [← hrest]
    exact PushLocked.rest_error hbody
  | noUnlock hpc hdead =>
    obtain ⟨malloc, tcpHandler, hcall, -⟩ := hu.pushes hg hpc
    exact ⟨_, .pushes hpc hcall, push_fails _ _ fun halive => (hdeleted hdead halive).elim⟩

theorem workerStep_error (hg : Guarded s) (hu : Underway s es r body) {malloc : ℕ → Malloc}
    (h : s.workerStep malloc = .error f) :
    ∃ e, Event.PartOf s body (.worker malloc) e ∧ FailsAs r e f := by
  have hdeleted : s.m_mutexLock = false → r.worker.m_mutexLock = true → False := by
    obtain ⟨stream, pc, rfl⟩ := hu.exists_stream
    intro hdead halive
    exact Bool.false_ne_true (hdead.symm.trans halive)
  have hcases := workerStep_cases malloc s
  rw [h] at hcases
  cases hcases with
  | noLock hpc hdead =>
    obtain ⟨stream, hr⟩ := hu.loop hg hpc
    refine ⟨_, .loops hpc, pop_fails _ ?_ fun halive => (hdeleted hdead halive).elim⟩
    rw [hr]
    rfl
  | failsOutside hpc hpop hthread =>
    obtain ⟨stream, hr⟩ := hu.loop hg hpc
    refine ⟨_, .loops hpc, f, ?_, .inl rfl⟩
    have heq := threadStep_outside malloc s.m_nShutDown s.m_mutexLock hpop s.m_msgInStream stream
    rw [hthread] at heq
    simp only [WorkerRun.step, hr, workerRun, heq, Except.map, bind, Except.bind]
  | fails hpc hbody =>
    obtain ⟨hlock, malloc', hcall, hrest⟩ := hu.pops hg hpc
    refine ⟨_, .pops hpc hcall, pop_fails _ hlock fun _ => ?_⟩
    rw [← hrest]
    exact PopLocked.rest_error hbody
  | noUnlock hpc hdead =>
    obtain ⟨hlock, malloc', hcall, -⟩ := hu.pops hg hpc
    exact ⟨_, .pops hpc hcall, pop_fails _ hlock fun halive => (hdeleted hdead halive).elim⟩

/-- **A step that fails** is part of an event that fails when a body is one step. -/
theorem step_error (hg : Guarded s) (hu : Underway s es r body) {e : Event}
    (h : s.step e = .error f) : ∃ e', Event.PartOf s body e e' ∧ FailsAs r e' f := by
  cases e with
  | push malloc tcpHandler =>
    simp only [step] at h
    split at h <;> cases h
  | network => exact networkStep_error hg hu h
  | worker malloc => exact workerStep_error hg hu h
  | shutDown => cases h

/-- **The bodies under the lock are atomic.** The two threads are never both in one. What a run
does, a run of `WorkerRun` does, with the body that is going on left out; and when a step fails, the
event that it is part of fails there too, with the same fault unless the mutex has been deleted. -/
theorem sections_atomic (events : List Event) :
    match events.foldlM step new with
    | .ok s =>
      ¬ ((∃ body, s.network = .locked body) ∧ ∃ body, s.worker = .locked body) ∧
        ∃ es r body, Atomically s es r body
    | .error f => ∃ before e s, before ++ [e] <+: events ∧ before.foldlM step new = .ok s ∧
        s.step e = .error f ∧ ∃ es r body, Atomically s es r body ∧
          ∃ e', Event.PartOf s body e e' ∧ FailsAs r e' f := by
  cases hrun : events.foldlM step new with
  | ok s =>
    have hg := (run_view (fun e _ => uses_true e) hrun).1
    refine ⟨?_, exists_atomically hrun⟩
    rintro ⟨hnetwork, hworker⟩
    have hboth := (hg.network.mpr hnetwork).symm.trans (hg.worker.mpr hworker)
    cases hboth
  | error f =>
    obtain ⟨before, e, s, hpre, hs, hfail⟩ := Run.exists_fails hrun
    have hg := (run_view (fun e _ => uses_true e) hs).1
    obtain ⟨es, r, body, hatom⟩ := exists_atomically hs
    exact ⟨before, e, s, hpre, hs, hfail, es, r, body, hatom, step_error hg hatom.underway hfail⟩

/-! ## The queue -/

theorem AllUse.keeps {τ : Type*} {φ : MsgNode → τ} (h : AllUse (Keeps φ) es) :
    ∀ e ∈ es, e.Keeps φ := by
  intro e he
  have huse := h e he
  cases e with
  | push malloc tcpHandler => exact huse
  | thread malloc => exact huse
  | shutDown => trivial

/-- The queue, for any part of a node that the copies of the run keep. -/
theorem elements_locked {τ : Type*} {φ : MsgNode → τ} {events : List Event}
    (huse : ∀ e ∈ events, e.Uses (Keeps φ)) (hrun : events.foldlM step new = .ok s) :
    s.handled.map (ConMsgNode.tagged φ) <+: s.pushed.map (fun x => (x.1, φ x.2)) ∧
      (s.m_hMutex = none → ∃ pc, s.worker = .loop pc ∧
        (s.workerRun pc).elements.map (ConMsgNode.tagged φ) =
          s.pushed.map fun x => (x.1, φ x.2)) := by
  obtain ⟨es, a, pc, hr, hp⟩ := exists_reached huse hrun
  have hall := WorkerRun.run_elements hr.uses.keeps hr.run
  obtain ⟨hhandled, hpushed⟩ := hr.seen hp
  refine ⟨?_, ?_⟩
  · rw [← hhandled]
    refine List.IsPrefix.trans ?_ (hpushed.map _)
    rw [← hall, WorkerRun.elements, List.map_append]
    exact List.prefix_append _ _
  · intro hfree
    obtain ⟨hpc, heq, hsame⟩ := hr.of_free hp hfree
    exact ⟨pc, hpc, by rw [← heq, hall, hsame]⟩

/-- **The queue is a FIFO**, whatever the order of the single accesses: what was handed to
`handleMsg` is a prefix of what was taken off the handlers' lists, and when the mutex is free, the
rest of it is in the batch and in the stream. -/
theorem fifo_locked (events : List Event) (s : WorkerLock)
    (halloc : ∀ e ∈ events, e.Uses fun malloc => malloc = mallocOk)
    (hrun : events.foldlM step new = .ok s) :
    s.handled.map ConMsgNode.message <+: s.pushed.map (fun x => (x.1, x.2.message)) ∧
      (s.m_hMutex = none → ∃ pc, s.worker = .loop pc ∧
        (s.workerRun pc).elements.map ConMsgNode.message =
          s.pushed.map fun x => (x.1, x.2.message)) := by
  refine elements_locked (φ := MsgNode.message) ?_ hrun
  intro e he
  have huse := halloc e he
  cases e with
  | push malloc tcpHandler =>
    obtain rfl : malloc = mallocOk := huse
    exact keeps_message
  | worker malloc =>
    obtain rfl : malloc = mallocOk := huse
    exact keeps_message
  | _ => trivial

/-- The message is pushed while the worker's thread waits, and then taken. -/
def pushThenTake : List Event :=
  meet ++ [.network, .network, .network, .network, .worker mallocOk, .worker mallocOk,
    .worker mallocOk, .worker mallocOk, .worker mallocOk, .worker mallocOk, .worker mallocOk]

theorem fifo_locked_pushThenTake :
    ∃ s, pushThenTake.foldlM step new = .ok s ∧ s.m_hMutex = none ∧
      s.handled.map ConMsgNode.message <+: s.pushed.map (fun x => (x.1, x.2.message)) := by
  refine ⟨_, rfl, rfl, ?_⟩
  exact (fifo_locked pushThenTake _ (by simp [pushThenTake, meet, Event.Uses]) rfl).1

end WorkerLock

end SmartServer
