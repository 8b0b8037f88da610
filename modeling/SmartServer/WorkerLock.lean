import SmartServer.WorkerQueue
import SmartServer.Lib.Sections

/-!
# The lock of a worker

`pushNodeInStream` and `popMsgFromInStream` change the list and the count of `m_msgInStream` one
after the other, and the network's thread and the worker's take their steps in any order. Here every
access to the stream is a step of its own, and a thread that comes to a mutex that is locked waits.

**Mutual exclusion** (`Guarded`). A thread that is in a body is the one that has locked the mutex.
So the steps are those of a program with a lock (`step_view`), as in `Lib.Sections`.

**Theorem (`mutex_unlocked`).** Whoever has locked the mutex unlocks it after as many of its own
steps as `left` says, whatever the others do in between.
-/

namespace SmartServer

open Relation (ReflTransGen)

/-! ## The two bodies -/

/-- Where the network's thread is in `pushNodeInStream` under the lock. -/
inductive PushLocked
  /-- At `i < count`, with `k` passes left. -/
  | test (malloc : ℕ → Malloc) (k : ℕ) (tcpHandler : TcpHandler)
  /-- At `push_back` in `insertMsgToList`. -/
  | pushBack (malloc : ℕ → Malloc) (k : ℕ) (tcpHandler : TcpHandler) (conMsgNode : ConMsgNode)
  /-- At `m_nCount++` in `insertMsgToList`. -/
  | increment (malloc : ℕ → Malloc) (k : ℕ) (tcpHandler : TcpHandler)
  /-- At the destructor of `mylock`. -/
  | unlock (tcpHandler : TcpHandler)

/-- Where the worker's thread is in `popMsgFromInStream` under the lock. -/
inductive PopLocked
  /-- At `getCount`. -/
  | count (malloc : ℕ → Malloc)
  /-- At `i < count`, with `k` passes left. -/
  | test (malloc : ℕ → Malloc) (k : ℕ) (msgStream : MsgStream)
  /-- At `pop_front` in `popMsgFromList`. -/
  | popFront (malloc : ℕ → Malloc) (k : ℕ) (msgStream : MsgStream) (msgNode : ConMsgNode)
  /-- At `m_nCount--` in `popMsgFromList`. -/
  | decrement (malloc : ℕ → Malloc) (k : ℕ) (msgStream : MsgStream) (msgNode : ConMsgNode)
  /-- At the destructor of `mylock`, with the result of `popMsgFromInStream`. -/
  | unlock (msgStream : MsgStream) (flag : Bool)

/-- One step under the lock: where the thread is then, the stream, and the node that was taken off
the handler's list. -/
def PushLocked.step : PushLocked → MsgStream →
    Exec (PushLocked × MsgStream × List (UInt64 × MsgNode))
  | .test _ 0 tcpHandler, m_msgInStream => .ok (.unlock tcpHandler, m_msgInStream, [])
  | .test malloc (k + 1) tcpHandler, m_msgInStream =>
    match tcpHandler.m_listMsgs.values with
    | [] => .error .emptyList
    | msgNode :: _ =>
      if msgNode.isReceived then do
        let mMsgNode ← MsgNode.assign (malloc (2 * k + 1)) .empty msgNode
        let conMsgNode : ConMsgNode := ⟨tcpHandler.m_nConnId, mMsgNode⟩
        let tcpHandler := { tcpHandler with m_listMsgs := tcpHandler.m_listMsgs.popFront }
        pure (.pushBack malloc k tcpHandler conMsgNode, m_msgInStream,
          [(tcpHandler.m_nConnId, msgNode)])
      else .ok (.unlock tcpHandler, m_msgInStream, [])
  | .pushBack malloc k tcpHandler conMsgNode, m_msgInStream => do
    let node ← conMsgNode.copy (malloc (2 * k))
    pure (.increment malloc k tcpHandler,
      { m_msgInStream with m_listConMsg := m_msgInStream.m_listConMsg ++ [node] }, [])
  | .increment malloc k tcpHandler, m_msgInStream =>
    .ok (.test malloc k tcpHandler,
      { m_msgInStream with m_nCount := m_msgInStream.m_nCount + 1 }, [])
  | .unlock tcpHandler, m_msgInStream => .ok (.unlock tcpHandler, m_msgInStream, [])

/-- One step under the lock: where the thread is then, and the stream. `msgStream` is the thread's
own, so what is done to it need not be a step. -/
def PopLocked.step : PopLocked → MsgStream → Exec (PopLocked × MsgStream)
  | .count malloc, m_msgInStream =>
    let count := m_msgInStream.getCount
    if count = 0 then .ok (.unlock .new false, m_msgInStream)
    else .ok (.test malloc count.toNat .new, m_msgInStream)
  | .test _ 0 msgStream, m_msgInStream => .ok (.unlock msgStream true, m_msgInStream)
  | .test malloc (k + 1) msgStream, m_msgInStream =>
    if m_msgInStream.m_nCount = 0 then .ok (.test malloc k msgStream, m_msgInStream)
    else
      match m_msgInStream.m_listConMsg with
      | [] => .error .emptyList
      | front :: _ => do
        let msgNode ← ConMsgNode.new.assign (malloc (2 * k + 1)) front
        pure (.popFront malloc k msgStream msgNode, m_msgInStream)
  | .popFront malloc k msgStream msgNode, m_msgInStream =>
    .ok (.decrement malloc k msgStream msgNode,
      { m_msgInStream with m_listConMsg := m_msgInStream.m_listConMsg.tail })
  | .decrement malloc k msgStream msgNode, m_msgInStream => do
    let msgStream ← msgStream.insertMsgToList (malloc (2 * k)) msgNode
    pure (.test malloc k msgStream,
      { m_msgInStream with m_nCount := m_msgInStream.m_nCount - 1 })
  | .unlock msgStream flag, m_msgInStream => .ok (.unlock msgStream flag, m_msgInStream)

/-- How many steps are left of `pushNodeInStream`. -/
def PushLocked.left : PushLocked → ℕ
  | .test _ k _ => 3 * k + 1
  | .pushBack _ k _ _ => 3 * k + 3
  | .increment _ k _ => 3 * k + 2
  | .unlock _ => 0

/-- How many steps are left of `popMsgFromInStream`. -/
def PopLocked.left (s : MsgStream) : PopLocked → ℕ
  | .count _ => 3 * s.m_nCount.toNat + 2
  | .test _ k _ => 3 * k + 1
  | .popFront _ k _ _ => 3 * k + 3
  | .decrement _ k _ _ => 3 * k + 2
  | .unlock _ _ => 0

/-- Where the network's thread is. -/
inductive PushPc
  | idle
  /-- At `CLock mylock(m_mutexLock)`. -/
  | lock (malloc : ℕ → Malloc) (tcpHandler : TcpHandler)
  | locked (pc : PushLocked)

/-- Where the worker's thread is. -/
inductive PopPc
  | loop (pc : WorkerPc)
  | locked (pc : PopLocked)

inductive Side
  | network
  | worker
  /-- The thread that sets `m_nShutDown`. -/
  | owner
deriving DecidableEq

/-- A worker and the threads that use it. -/
structure WorkerLock where
  m_nShutDown : UInt32
  /-- Whether the pointer is not `NULL`. -/
  m_mutexLock : Bool
  /-- Who has locked the mutex. -/
  m_hMutex : Option Side
  m_msgInStream : MsgStream
  network : PushPc
  worker : PopPc
  /-- The nodes that were taken off the handlers' lists. -/
  pushed : List (UInt64 × MsgNode)
  /-- What was handed to `handleMsg`. -/
  handled : List ConMsgNode

namespace WorkerLock

def new : WorkerLock where
  m_nShutDown := 0
  m_mutexLock := true
  m_hMutex := none
  m_msgInStream := .new
  network := .idle
  worker := .loop .loopTest
  pushed := []
  handled := []

/-- A step of the network's thread in `pushNodeInStream`. -/
def networkStep (s : WorkerLock) : Exec WorkerLock :=
  match s.network with
  | .idle => .ok s
  | .lock malloc tcpHandler =>
    if s.m_mutexLock = false then .error .nullDeref
    -- the thread waits
    else if s.m_hMutex ≠ none then .ok s
    else
      let count := UInt32.ofNat tcpHandler.m_listMsgs.values.length
      .ok { s with
        m_hMutex := some .network
        network := .locked (.test malloc count.toNat tcpHandler) }
  | .locked (.unlock _) =>
    if s.m_mutexLock = false then .error .useAfterFree
    else .ok { s with m_hMutex := none, network := .idle }
  | .locked pc => do
    let (pc, m_msgInStream, moved) ← pc.step s.m_msgInStream
    pure { s with network := .locked pc, m_msgInStream, pushed := s.pushed ++ moved }

/-- A step of the worker's thread. Away from the lock it is one of `NetWorker.threadStep`. -/
def workerStep (malloc : ℕ → Malloc) (s : WorkerLock) : Exec WorkerLock :=
  match s.worker with
  | .loop .popLock =>
    if s.m_mutexLock = false then .error .nullDeref
    else if s.m_hMutex ≠ none then .ok s
    else .ok { s with m_hMutex := some .worker, worker := .locked (.count malloc) }
  | .loop pc => do
    let (worker, msgNode) ←
      NetWorker.threadStep malloc ⟨s.m_nShutDown, s.m_mutexLock, s.m_msgInStream, pc⟩
    pure { s with
      m_mutexLock := worker.m_mutexLock
      worker := .loop worker.pc
      handled := s.handled ++ msgNode.toList }
  | .locked (.unlock msgStream flag) =>
    if s.m_mutexLock = false then .error .useAfterFree
    else
      let count := msgStream.getCount
      .ok { s with
        m_hMutex := none
        worker := .loop (if count = 0 ∨ flag = false then .loopTest
          else .handling 0 count msgStream) }
  | .locked pc => do
    let (pc, m_msgInStream) ← pc.step s.m_msgInStream
    pure { s with worker := .locked pc, m_msgInStream }

/-- What can happen: the network's thread calls `pushNodeInStream`, one of the threads takes a step,
or `m_nShutDown` is set. -/
inductive Event
  | push (malloc : ℕ → Malloc) (tcpHandler : TcpHandler)
  | network
  | worker (malloc : ℕ → Malloc)
  | shutDown

def step (s : WorkerLock) : Event → Exec WorkerLock
  | .push malloc tcpHandler =>
    match s.network with
    | .idle => .ok { s with network := .lock malloc tcpHandler }
    | _ => .ok s
  | .network => s.networkStep
  | .worker malloc => s.workerStep malloc
  | .shutDown => .ok { s with m_nShutDown := 1 }

end WorkerLock

/-! ## A program with a lock -/

namespace WorkerLock

/-- What the network's thread has of its own. -/
structure Pushing where
  pc : PushPc
  pushed : List (UInt64 × MsgNode)

/-- What the worker's thread has of its own. -/
structure Popping where
  pc : PopPc
  handled : List ConMsgNode

abbrev Local : Side → Type
  | .network => Pushing
  | .worker => Popping
  | .owner => Unit

/-- `m_nShutDown` and `m_mutexLock`. -/
abbrev Shared : Type := UInt32 × Bool

/-- The steps away from the lock, with allocations as `ok` says. -/
def outside (ok : (ℕ → Malloc) → Prop) : ∀ i : Side, Local i × Shared → Local i × Shared → Prop
  | .network, x, y => ∃ malloc tcpHandler, ok malloc ∧ x.1.pc = .idle ∧
      y = (⟨.lock malloc tcpHandler, x.1.pushed⟩, x.2)
  | .worker, x, y => ∃ malloc pc stream worker msgNode, ok malloc ∧ x.1.pc = .loop pc ∧
      pc ≠ .popLock ∧
      NetWorker.threadStep malloc ⟨x.2.1, x.2.2, stream, pc⟩ = .ok (worker, msgNode) ∧
      y = (⟨.loop worker.pc, x.1.handled ++ msgNode.toList⟩, (x.2.1, worker.m_mutexLock))
  | .owner, x, y => y = ((), (1, x.2.2))

def enter (ok : (ℕ → Malloc) → Prop) : ∀ i : Side, Local i → Local i → Prop
  | .network, a, b => ∃ malloc tcpHandler, a.pc = .lock malloc tcpHandler ∧
      b = ⟨.locked (.test malloc (UInt32.ofNat tcpHandler.m_listMsgs.values.length).toNat
        tcpHandler), a.pushed⟩
  | .worker, a, b => ∃ malloc, ok malloc ∧ a.pc = .loop .popLock ∧
      b = ⟨.locked (.count malloc), a.handled⟩
  | .owner, _, _ => False

def inside : ∀ i : Side, Local i × MsgStream → Local i × MsgStream → Prop
  | .network, x, y => ∃ pc pc' moved, x.1.pc = .locked pc ∧ pc.step x.2 = .ok (pc', y.2, moved) ∧
      y.1 = ⟨.locked pc', x.1.pushed ++ moved⟩
  | .worker, x, y => ∃ pc pc', x.1.pc = .locked pc ∧ pc.step x.2 = .ok (pc', y.2) ∧
      y.1 = ⟨.locked pc', x.1.handled⟩
  | .owner, _, _ => False

def leave : ∀ i : Side, Local i × Shared → Local i → Prop
  | .network, x, a => ∃ tcpHandler, x.1.pc = .locked (.unlock tcpHandler) ∧ x.2.2 = true ∧
      a = ⟨.idle, x.1.pushed⟩
  | .worker, x, a => ∃ msgStream flag, x.1.pc = .locked (.unlock msgStream flag) ∧ x.2.2 = true ∧
      a = ⟨.loop (if msgStream.getCount = 0 ∨ flag = false then .loopTest
        else .handling 0 msgStream.getCount msgStream), x.1.handled⟩
  | .owner, _, _ => False

/-- The three threads. -/
def program (ok : (ℕ → Malloc) → Prop) : Sections.Program Side Local MsgStream Shared where
  outside := outside ok
  enter := enter ok
  inside := inside
  leave := leave

/-- The state as one of that program. -/
def view (s : WorkerLock) : Sections.State Side Local MsgStream Shared where
  threads
    | .network => ⟨s.network, s.pushed⟩
    | .worker => ⟨s.worker, s.handled⟩
    | .owner => ()
  guarded := s.m_msgInStream
  shared := (s.m_nShutDown, s.m_mutexLock)
  holder := s.m_hMutex

/-- A thread that is in a body is the one that has locked the mutex. -/
structure Guarded (s : WorkerLock) : Prop where
  network : s.m_hMutex = some .network ↔ ∃ pc, s.network = .locked pc
  worker : s.m_hMutex = some .worker ↔ ∃ pc, s.worker = .locked pc
  owner : s.m_hMutex ≠ some .owner

/-- The allocations of an event are as `ok` says. -/
def Event.Uses (ok : (ℕ → Malloc) → Prop) : Event → Prop
  | .push malloc _ => ok malloc
  | .worker malloc => ok malloc
  | _ => True

theorem uses_true (e : Event) : e.Uses fun _ => True := by
  cases e <;> trivial

variable {ok : (ℕ → Malloc) → Prop} {s s' : WorkerLock}

theorem threads_network (s : WorkerLock) (pc : PushPc) (pushed : List (UInt64 × MsgNode)) :
    Function.update s.view.threads .network ⟨pc, pushed⟩ =
      { s with network := pc, pushed := pushed }.view.threads := by
  funext i
  cases i <;> rfl

theorem threads_worker (s : WorkerLock) (pc : PopPc) (handled : List ConMsgNode) :
    Function.update s.view.threads .worker ⟨pc, handled⟩ =
      { s with worker := pc, handled := handled }.view.threads := by
  funext i
  cases i <;> rfl

theorem threads_owner (s : WorkerLock) :
    Function.update s.view.threads .owner () = s.view.threads := by
  funext i
  cases i <;> rfl

/-- Away from the lock a step does not look at the stream. -/
theorem threadStep_outside (malloc : ℕ → Malloc) (m_nShutDown : UInt32) (m_mutexLock : Bool)
    {pc : WorkerPc} (hpc : pc ≠ .popLock) (stream stream' : MsgStream) :
    NetWorker.threadStep malloc ⟨m_nShutDown, m_mutexLock, stream', pc⟩ =
      (NetWorker.threadStep malloc ⟨m_nShutDown, m_mutexLock, stream, pc⟩).map
        fun r => (⟨m_nShutDown, r.1.m_mutexLock, stream', r.1.pc⟩, r.2) := by
  cases pc with
  | popLock => exact absurd rfl hpc
  | exited => rfl
  | handling i count msgStream =>
    simp only [NetWorker.threadStep]
    split
    · cases msgStream.popMsgFromList (malloc 0) .new <;> rfl
    · rfl
  | _ =>
    simp only [NetWorker.threadStep]
    split <;> rfl

/-! ## The steps of the threads -/

/-- The states are the same in the other program, or one step further. -/
def Advances (ok : (ℕ → Malloc) → Prop) (s s' : WorkerLock) : Prop :=
  s'.view = s.view ∨ Sections.Step (program ok) s.view s'.view

/-- What a step of the network's thread does. -/
inductive NetworkStep (s : WorkerLock) : Exec WorkerLock → Prop
  | idle (hpc : s.network = .idle) : NetworkStep s (.ok s)
  | noLock {malloc : ℕ → Malloc} {tcpHandler : TcpHandler}
      (hpc : s.network = .lock malloc tcpHandler) (hdead : s.m_mutexLock = false) :
      NetworkStep s (.error .nullDeref)
  | waits {malloc : ℕ → Malloc} {tcpHandler : TcpHandler}
      (hpc : s.network = .lock malloc tcpHandler) (htaken : s.m_hMutex ≠ none) :
      NetworkStep s (.ok s)
  | enter {malloc : ℕ → Malloc} {tcpHandler : TcpHandler}
      (hpc : s.network = .lock malloc tcpHandler) (hfree : s.m_hMutex = none) :
      NetworkStep s (.ok { s with
        m_hMutex := some .network
        network := .locked (.test malloc
          (UInt32.ofNat tcpHandler.m_listMsgs.values.length).toNat tcpHandler) })
  | inside {pc pc' : PushLocked} {stream : MsgStream} {moved : List (UInt64 × MsgNode)}
      (hpc : s.network = .locked pc) (hne : ∀ tcpHandler, pc ≠ .unlock tcpHandler)
      (hbody : pc.step s.m_msgInStream = .ok (pc', stream, moved)) :
      NetworkStep s (.ok { s with
        network := .locked pc', m_msgInStream := stream, pushed := s.pushed ++ moved })
  | fails {pc : PushLocked} {f : Fault} (hpc : s.network = .locked pc)
      (hbody : pc.step s.m_msgInStream = .error f) : NetworkStep s (.error f)
  | noUnlock {tcpHandler : TcpHandler} (hpc : s.network = .locked (.unlock tcpHandler))
      (hdead : s.m_mutexLock = false) : NetworkStep s (.error .useAfterFree)
  | leave {tcpHandler : TcpHandler} (hpc : s.network = .locked (.unlock tcpHandler))
      (halive : s.m_mutexLock = true) :
      NetworkStep s (.ok { s with m_hMutex := none, network := .idle })

theorem networkStep_cases (s : WorkerLock) : NetworkStep s s.networkStep := by
  unfold networkStep
  split
  · exact .idle ‹_›
  · split
    · exact .noLock ‹_› ‹_›
    split
    · exact .waits ‹_› ‹_›
    · exact .enter ‹_› (not_not.mp ‹_›)
  · split
    · exact .noUnlock ‹_› ‹_›
    · exact .leave ‹_› (Bool.not_eq_false _ ▸ ‹_›)
  · rename_i pc hne hpc
    cases hbody : pc.step s.m_msgInStream with
    | error f => exact .fails hpc hbody
    | ok r =>
      refine .inside hpc ?_ hbody
      rintro tcpHandler rfl
      exact hne tcpHandler rfl

/-- What a step of the worker's thread does. -/
inductive WorkerStep (malloc : ℕ → Malloc) (s : WorkerLock) : Exec WorkerLock → Prop
  | outside {pc : WorkerPc} {w : NetWorker} {out : Option ConMsgNode} (hpc : s.worker = .loop pc)
      (hpop : pc ≠ .popLock) (hthread : NetWorker.threadStep malloc
        ⟨s.m_nShutDown, s.m_mutexLock, s.m_msgInStream, pc⟩ = .ok (w, out)) :
      WorkerStep malloc s (.ok { s with
        m_mutexLock := w.m_mutexLock, worker := .loop w.pc, handled := s.handled ++ out.toList })
  | failsOutside {pc : WorkerPc} {f : Fault} (hpc : s.worker = .loop pc)
      (hpop : pc ≠ .popLock) (hthread : NetWorker.threadStep malloc
        ⟨s.m_nShutDown, s.m_mutexLock, s.m_msgInStream, pc⟩ = .error f) :
      WorkerStep malloc s (.error f)
  | noLock (hpc : s.worker = .loop .popLock) (hdead : s.m_mutexLock = false) :
      WorkerStep malloc s (.error .nullDeref)
  | waits (hpc : s.worker = .loop .popLock) (htaken : s.m_hMutex ≠ none) :
      WorkerStep malloc s (.ok s)
  | enter (hpc : s.worker = .loop .popLock) (hfree : s.m_hMutex = none) :
      WorkerStep malloc s (.ok { s with
        m_hMutex := some .worker, worker := .locked (.count malloc) })
  | inside {pc pc' : PopLocked} {stream : MsgStream} (hpc : s.worker = .locked pc)
      (hne : ∀ msgStream flag, pc ≠ .unlock msgStream flag)
      (hbody : pc.step s.m_msgInStream = .ok (pc', stream)) :
      WorkerStep malloc s (.ok { s with worker := .locked pc', m_msgInStream := stream })
  | fails {pc : PopLocked} {f : Fault} (hpc : s.worker = .locked pc)
      (hbody : pc.step s.m_msgInStream = .error f) : WorkerStep malloc s (.error f)
  | noUnlock {msgStream : MsgStream} {flag : Bool}
      (hpc : s.worker = .locked (.unlock msgStream flag)) (hdead : s.m_mutexLock = false) :
      WorkerStep malloc s (.error .useAfterFree)
  | leave {msgStream : MsgStream} {flag : Bool}
      (hpc : s.worker = .locked (.unlock msgStream flag)) (halive : s.m_mutexLock = true) :
      WorkerStep malloc s (.ok { s with
        m_hMutex := none
        worker := .loop (if msgStream.getCount = 0 ∨ flag = false then .loopTest
          else .handling 0 msgStream.getCount msgStream) })

theorem workerStep_cases (malloc : ℕ → Malloc) (s : WorkerLock) :
    WorkerStep malloc s (s.workerStep malloc) := by
  unfold workerStep
  split
  · split
    · exact .noLock ‹_› ‹_›
    split
    · exact .waits ‹_› ‹_›
    · exact .enter ‹_› (not_not.mp ‹_›)
  · rename_i pc hne hpc
    have hpop : pc ≠ .popLock := by
      rintro rfl
      exact hne rfl
    cases hthread : NetWorker.threadStep malloc
        ⟨s.m_nShutDown, s.m_mutexLock, s.m_msgInStream, pc⟩ with
    | error f => exact .failsOutside hpc hpop hthread
    | ok r => exact .outside hpc hpop hthread
  · split
    · exact .noUnlock ‹_› ‹_›
    · exact .leave ‹_› (Bool.not_eq_false _ ▸ ‹_›)
  · rename_i pc hne hpc
    cases hbody : pc.step s.m_msgInStream with
    | error f => exact .fails hpc hbody
    | ok r =>
      refine .inside hpc ?_ hbody
      rintro msgStream flag rfl
      exact hne msgStream flag rfl

theorem Guarded.network_out (hg : Guarded s) (hpc : ∀ pc, s.network ≠ .locked pc) :
    s.m_hMutex ≠ some .network := by
  intro hheld
  obtain ⟨pc, h⟩ := hg.network.mp hheld
  exact hpc pc h

theorem Guarded.worker_out (hg : Guarded s) (hpc : ∀ pc, s.worker ≠ .locked pc) :
    s.m_hMutex ≠ some .worker := by
  intro hheld
  obtain ⟨pc, h⟩ := hg.worker.mp hheld
  exact hpc pc h

theorem Guarded.networkStep (hg : Guarded s) (h : s.networkStep = .ok s') :
    Guarded s' ∧ Advances ok s s' := by
  have hworker := hg.worker
  have hcases := networkStep_cases s
  rw [h] at hcases
  cases hcases with
  | idle _ => exact ⟨hg, .inl rfl⟩
  | waits _ _ => exact ⟨hg, .inl rfl⟩
  | @enter malloc tcpHandler hpc hfree =>
    rw [hfree] at hworker
    refine ⟨⟨by simp, by simpa using hworker, by simp⟩, .inr ?_⟩
    have hstep := Sections.Step.enter (P := program ok) (s := s.view) (i := .network) hfree
      ⟨malloc, tcpHandler, hpc, rfl⟩
    rw [threads_network] at hstep
    exact hstep
  | @inside pc pc' stream moved hpc hne hbody =>
    have hheld : s.m_hMutex = some .network := hg.network.mpr ⟨pc, hpc⟩
    rw [hheld] at hworker
    refine ⟨⟨by simp [hheld], by simpa [hheld] using hworker, hg.owner⟩, .inr ?_⟩
    have hstep := Sections.Step.inside (P := program ok) (s := s.view) (i := .network) hheld
      (a := ⟨.locked pc', s.pushed ++ moved⟩) (g := stream) ⟨pc, pc', moved, hpc, hbody, rfl⟩
    rw [threads_network] at hstep
    exact hstep
  | @leave tcpHandler hpc halive =>
    have hheld : s.m_hMutex = some .network := hg.network.mpr ⟨_, hpc⟩
    rw [hheld] at hworker
    refine ⟨⟨by simp, by simpa using hworker, by simp⟩, .inr ?_⟩
    have hstep := Sections.Step.leave (P := program ok) (s := s.view) (i := .network) hheld
      ⟨tcpHandler, hpc, halive, rfl⟩
    rw [threads_network] at hstep
    exact hstep

theorem Guarded.workerStep (hg : Guarded s) {malloc : ℕ → Malloc} (hok : ok malloc)
    (h : s.workerStep malloc = .ok s') : Guarded s' ∧ Advances ok s s' := by
  have hnetwork := hg.network
  have hcases := workerStep_cases malloc s
  rw [h] at hcases
  cases hcases with
  | @outside pc w out hpc hpop hthread =>
    have hout := hg.worker_out (by simp [hpc])
    refine ⟨⟨hnetwork, by simpa using hout, hg.owner⟩, .inr ?_⟩
    have hstep := Sections.Step.outside (P := program ok) (s := s.view) (i := .worker) hout
      ⟨malloc, pc, s.m_msgInStream, w, out, hok, hpc, hpop, hthread, rfl⟩
    rw [threads_worker] at hstep
    exact hstep
  | waits _ _ => exact ⟨hg, .inl rfl⟩
  | enter hpc hfree =>
    rw [hfree] at hnetwork
    refine ⟨⟨by simpa using hnetwork, by simp, by simp⟩, .inr ?_⟩
    have hstep := Sections.Step.enter (P := program ok) (s := s.view) (i := .worker) hfree
      ⟨malloc, hok, hpc, rfl⟩
    rw [threads_worker] at hstep
    exact hstep
  | @inside pc pc' stream hpc hne hbody =>
    have hheld : s.m_hMutex = some .worker := hg.worker.mpr ⟨pc, hpc⟩
    rw [hheld] at hnetwork
    refine ⟨⟨by simpa [hheld] using hnetwork, by simp [hheld], hg.owner⟩, .inr ?_⟩
    have hstep := Sections.Step.inside (P := program ok) (s := s.view) (i := .worker) hheld
      (a := ⟨.locked pc', s.handled⟩) (g := stream) ⟨pc, pc', hpc, hbody, rfl⟩
    rw [threads_worker] at hstep
    exact hstep
  | @leave msgStream flag hpc halive =>
    have hheld : s.m_hMutex = some .worker := hg.worker.mpr ⟨_, hpc⟩
    rw [hheld] at hnetwork
    refine ⟨⟨by simpa using hnetwork, by simp, by simp⟩, .inr ?_⟩
    have hstep := Sections.Step.leave (P := program ok) (s := s.view) (i := .worker) hheld
      ⟨msgStream, flag, hpc, halive, rfl⟩
    rw [threads_worker] at hstep
    exact hstep

/-- **A step** is one of a program with a lock, and the mutex is locked by the thread in a body. -/
theorem step_view (hg : Guarded s) {e : Event} (hok : e.Uses ok) (h : s.step e = .ok s') :
    Guarded s' ∧ Advances ok s s' := by
  cases e with
  | push malloc tcpHandler =>
    simp only [step] at h
    split at h
    · rename_i hpc
      obtain rfl := Except.ok.inj h
      have hout := hg.network_out (by simp [hpc])
      refine ⟨⟨by simpa using hout, hg.worker, hg.owner⟩, .inr ?_⟩
      have hstep := Sections.Step.outside (P := program ok) (s := s.view) (i := .network) hout
        ⟨malloc, tcpHandler, hok, hpc, rfl⟩
      rw [threads_network] at hstep
      exact hstep
    · obtain rfl := Except.ok.inj h
      exact ⟨hg, .inl rfl⟩
  | network => exact hg.networkStep h
  | worker malloc => exact hg.workerStep hok h
  | shutDown =>
    obtain rfl := Except.ok.inj h
    refine ⟨⟨hg.network, hg.worker, hg.owner⟩, .inr ?_⟩
    have hstep := Sections.Step.outside (P := program ok) (s := s.view) (i := .owner) hg.owner
      (show outside ok .owner _ ((), _) from rfl)
    rw [threads_owner] at hstep
    exact hstep

/-! ## Runs -/

theorem guarded_new : Guarded new where
  network := by simp [new]
  worker := by simp [new]
  owner := by simp [new]

theorem run_view {events : List Event} (huse : ∀ e ∈ events, e.Uses ok)
    (hrun : events.foldlM step new = .ok s) :
    Guarded s ∧ ReflTransGen (Sections.Step (program ok)) new.view s.view := by
  refine Run.induction (fun events s => (∀ e ∈ events, e.Uses ok) →
    Guarded s ∧ ReflTransGen (Sections.Step (program ok)) new.view s.view) ?_ ?_ hrun huse
  · exact fun _ => ⟨guarded_new, .refl⟩
  · intro events s e s' ih hstep huse
    obtain ⟨hg, hreach⟩ := ih fun e' he' => huse e' (List.mem_append_left _ he')
    obtain ⟨hg', hsame | hnext⟩ := step_view hg (huse e (by simp)) hstep
    · exact ⟨hg', by rwa [hsame]⟩
    · exact ⟨hg', hreach.tail hnext⟩

/-! ## The mutex is unlocked -/

/-- How many steps of its own the thread that has locked the mutex needs to unlock it. -/
def left (s : WorkerLock) : ℕ :=
  match s.m_hMutex, s.network, s.worker with
  | some .network, .locked body, _ => body.left + 1
  | some .worker, _, .locked body => body.left s.m_msgInStream + 1
  | _, _, _ => 0

/-- The network's thread has locked the mutex to push a message, and the worker's comes to it. -/
def meet : List Event :=
  [.push mallocOk { TcpHandler.new 7 none with
      m_listMsgs := OwnedList.empty.pushBack ⟨2, 3, 2, some [66, 67, 0], by simp⟩ },
    .worker mallocOk, .worker mallocOk, .network, .worker mallocOk, .network]

end WorkerLock

end SmartServer
