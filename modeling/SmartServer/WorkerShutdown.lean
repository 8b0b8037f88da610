import SmartServer.NetWorker
import SmartServer.Lib.Run

/-!
# Destroying a running worker

A `NetWorker` is destroyed in three layers: its own destructor sets `m_nShutDown`, then its members
are destroyed, and only then does the destructor of `BaseThread` wait for the thread. All the while
the thread runs on. Here the two take their steps in any order, and the steps are those of the code
down to the lock and to each single pop under it. `m_msgInStream` is `none` once it is destroyed.

**Theorem (`shutdown_iff`).** However the steps follow each other, `m_mutexLock` is deleted at most
once, has been deleted once when the destructors are through, and is never used after that; once
`m_nShutDown` is set the thread comes to its end. The thread does not use `m_msgInStream` after it
was destroyed if and only if it is not between its second test of `m_nShutDown` and its last pop at
the moment in which `m_msgInStream` is destroyed (`destroyed_early`).

* A thread that finds `m_nShutDown` set has no way back to the lock (`Moves.not_pops`), and the
  steps it has left are counted by `rank`.
* Where the stream is destroyed on the thread's way to a pop, the next steps of the thread use it
  (`Inv.uses_destroyed`).
* The steps of the thread are those of `NetWorker.threadStep`, cut into smaller ones
  (`Simulates.threadStep`), and so are whole runs (`Simulates.threadRun`).
-/

namespace SmartServer

/-- What must not happen. -/
inductive Misuse
  /-- `m_msgInStream` is used after its destructor. -/
  | msgInStream
  /-- `m_mutexLock` is used or deleted when it is `NULL` or has been deleted. -/
  | mutexLock
  /-- A message that cannot be copied, or a stream with a wrong count. -/
  | other (f : Fault)
deriving DecidableEq

/-! ## The thread -/

/-- Where the thread is in the loop of `threadWorkFunc`. -/
inductive LoopPc
  | loopTest
  | popTest
  /-- At `CLock mylock(m_mutexLock)`. -/
  | lock
  /-- At `getCount` in `popMsgFromInStream`. -/
  | count
  /-- In the loop of `popMsgFromInStream`, with `k` elements to pop. -/
  | popping (k : ℕ) (msgStream : MsgStream)
  /-- At the destructor of `mylock`, with the result of `popMsgFromInStream`. -/
  | unlock (msgStream : MsgStream) (flag : Bool)
  | handling (i count : UInt32) (msgStream : MsgStream)
deriving DecidableEq

/-- Where the thread is. -/
inductive ThreadPc
  | loop (pc : LoopPc)
  /-- At `if(m_mutexLock)` behind the loop. -/
  | deleteLock
  /-- At `m_mutexLock = NULL`. -/
  | nullLock
  | exited
deriving DecidableEq

/-- Where the thread is going to use `m_msgInStream` without another test of `m_nShutDown`. -/
def ThreadPc.Pops : ThreadPc → Prop
  | .loop .lock => True
  | .loop .count => True
  | .loop (.popping k _) => 0 < k
  | _ => False

/-- Which step of the destruction is next. Members are destroyed in the reverse of their order. -/
inductive Destructor
  /-- At `if(m_mutexLock)` in `~NetWorker`. -/
  | testLock
  | setShutDown
  | msgHandler
  | msgOutStream
  | msgInStream
  /-- At `m_nShutDown = 1` in `~BaseThread`. -/
  | baseShutDown
  | join
  | done
deriving DecidableEq

/-- A worker with its thread, and its destruction. -/
structure WorkerShutdown where
  m_nShutDown : UInt32
  /-- Whether the pointer is not `NULL`. -/
  m_mutexLock : Bool
  /-- How often the lock has been deleted. -/
  deletions : ℕ
  m_msgInStream : Option MsgStream
  m_msgOutStream : Option MsgStream
  thread : ThreadPc
  destructor : Destructor
  /-- The messages handed to `handleMsg`. -/
  handled : List ConMsgNode
deriving DecidableEq

namespace WorkerShutdown

/-- The destruction of a worker begins while its thread is somewhere in its loop. -/
def start (m_msgInStream m_msgOutStream : MsgStream) (pc : LoopPc) : WorkerShutdown where
  m_nShutDown := 0
  m_mutexLock := true
  deletions := 0
  m_msgInStream := some m_msgInStream
  m_msgOutStream := some m_msgOutStream
  thread := .loop pc
  destructor := .testLock
  handled := []

def other {α : Type} : Exec α → Except Misuse α
  | .ok a => .ok a
  | .error f => .error (.other f)

/-- The stream, when it is not destroyed. -/
def inStream (s : WorkerShutdown) : Except Misuse MsgStream :=
  match s.m_msgInStream with
  | none => .error .msgInStream
  | some stream => .ok stream

/-- The lock can be locked, unlocked or deleted. -/
def useLock (s : WorkerShutdown) : Except Misuse Unit :=
  if s.m_mutexLock = true ∧ s.deletions = 0 then .ok () else .error .mutexLock

/-- One step of the loop of `threadWorkFunc`. -/
def loopStep (malloc : ℕ → Malloc) (s : WorkerShutdown) : LoopPc → Except Misuse WorkerShutdown
  | .loopTest =>
    if s.m_nShutDown ≠ 0 then .ok { s with thread := .deleteLock }
    else .ok { s with thread := .loop .popTest }
  | .popTest =>
    if s.m_nShutDown ≠ 0 then .ok { s with thread := .loop .loopTest }
    else .ok { s with thread := .loop .lock }
  | .lock => do
    s.useLock
    pure { s with thread := .loop .count }
  | .count => do
    let stream ← s.inStream
    let count := stream.getCount
    if count = 0 then pure { s with thread := .loop (.unlock .new false) }
    else pure { s with thread := .loop (.popping count.toNat .new) }
  | .popping 0 msgStream => .ok { s with thread := .loop (.unlock msgStream true) }
  | .popping (k + 1) msgStream => do
    let stream ← s.inStream
    let (stream, msgNode, flag) ← other (stream.popMsgFromList (malloc (2 * k + 1)) .new)
    let s := { s with m_msgInStream := some stream }
    if flag then do
      let msgStream ← other (msgStream.insertMsgToList (malloc (2 * k)) msgNode)
      pure { s with thread := .loop (.popping k msgStream) }
    else pure { s with thread := .loop (.popping k msgStream) }
  | .unlock msgStream flag => do
    s.useLock
    let count := msgStream.getCount
    if count = 0 ∨ flag = false then pure { s with thread := .loop .loopTest }
    else pure { s with thread := .loop (.handling 0 count msgStream) }
  | .handling i count msgStream =>
    if i < count then do
      let (msgStream, msgNode, flag) ← other (msgStream.popMsgFromList (malloc 0) .new)
      pure { s with
        thread := .loop (.handling (i + 1) count msgStream)
        handled := s.handled ++ if flag then [msgNode] else [] }
    else .ok { s with thread := .loop .loopTest }

/-- One step of `threadWorkFunc`. -/
def threadStep (malloc : ℕ → Malloc) (s : WorkerShutdown) : Except Misuse WorkerShutdown :=
  match s.thread with
  | .loop pc => s.loopStep malloc pc
  | .deleteLock =>
    if s.m_mutexLock then do
      s.useLock
      pure { s with deletions := s.deletions + 1, thread := .nullLock }
    else .ok { s with thread := .nullLock }
  | .nullLock => .ok { s with m_mutexLock := false, thread := .exited }
  | .exited => .ok s

/-- One step of the destruction. `join` waits for the end of the thread. -/
def destroyStep (s : WorkerShutdown) : WorkerShutdown :=
  match s.destructor with
  | .testLock =>
    if s.m_mutexLock then { s with destructor := .setShutDown }
    else { s with destructor := .msgHandler }
  | .setShutDown => { s with m_nShutDown := 1, destructor := .msgHandler }
  | .msgHandler => { s with destructor := .msgOutStream }
  | .msgOutStream => { s with m_msgOutStream := none, destructor := .msgInStream }
  | .msgInStream => { s with m_msgInStream := none, destructor := .baseShutDown }
  | .baseShutDown => { s with m_nShutDown := 1, destructor := .join }
  | .join => if s.thread = .exited then { s with destructor := .done } else s
  | .done => s

inductive Event
  | destroy
  | thread (malloc : ℕ → Malloc)

def step (s : WorkerShutdown) : Event → Except Misuse WorkerShutdown
  | .destroy => .ok s.destroyStep
  | .thread malloc => s.threadStep malloc

def run (s : WorkerShutdown) (es : List Event) : Except Misuse WorkerShutdown := es.foldlM step s

variable {malloc : ℕ → Malloc} {s s' : WorkerShutdown} {pc : LoopPc} {t : ThreadPc}

/-! ## The steps of the thread -/

/-- Where one step leads from the loop, with `m_nShutDown` set or not. -/
inductive Moves (shutDown : Prop) : LoopPc → ThreadPc → Prop
  | leave : shutDown → Moves shutDown .loopTest .deleteLock
  | enter : ¬ shutDown → Moves shutDown .loopTest (.loop .popTest)
  | back : shutDown → Moves shutDown .popTest (.loop .loopTest)
  | pass : ¬ shutDown → Moves shutDown .popTest (.loop .lock)
  | locked : Moves shutDown .lock (.loop .count)
  | empty : Moves shutDown .count (.loop (.unlock .new false))
  | counted (count : UInt32) : Moves shutDown .count (.loop (.popping count.toNat .new))
  | popped {k : ℕ} {b b' : MsgStream} : b'.m_nCount.toNat ≤ b.m_nCount.toNat + 1 →
      Moves shutDown (.popping (k + 1) b) (.loop (.popping k b'))
  | emptied {b : MsgStream} : Moves shutDown (.popping 0 b) (.loop (.unlock b true))
  | nothing {b : MsgStream} {flag : Bool} : Moves shutDown (.unlock b flag) (.loop .loopTest)
  | batch {b : MsgStream} {flag : Bool} :
      Moves shutDown (.unlock b flag) (.loop (.handling 0 b.m_nCount b))
  | message {i count : UInt32} {b b' : MsgStream} : i < count →
      Moves shutDown (.handling i count b) (.loop (.handling (i + 1) count b'))
  | through {i count : UInt32} {b : MsgStream} :
      Moves shutDown (.handling i count b) (.loop .loopTest)

/-- What a step of the loop leaves as it was. -/
structure Frame (s s' : WorkerShutdown) : Prop where
  m_nShutDown : s'.m_nShutDown = s.m_nShutDown
  m_mutexLock : s'.m_mutexLock = s.m_mutexLock
  deletions : s'.deletions = s.deletions
  destructor : s'.destructor = s.destructor
  destroyed : s'.m_msgInStream = none ↔ s.m_msgInStream = none

theorem inStream_inv {stream : MsgStream} (h : s.inStream = .ok stream) :
    s.m_msgInStream = some stream := by
  unfold inStream at h
  split at h
  · cases h
  · rename_i hs
    rw [hs, Except.ok.inj h]

theorem other_inv {α : Type} {x : Exec α} {a : α} (h : other x = .ok a) : x = .ok a := by
  cases x with
  | error f => cases h
  | ok b => rw [Except.ok.inj h]

theorem toNat_add_one_le (a : UInt32) : (a + 1).toNat ≤ a.toNat + 1 := by
  rw [UInt32.toNat_add, UInt32.toNat_one]
  exact Nat.mod_le _ _

/-- **One step of the loop.** -/
theorem loopStep_moves (h : s.loopStep malloc pc = .ok s') :
    Moves (s.m_nShutDown ≠ 0) pc s'.thread ∧ Frame s s' := by
  cases pc with
  | loopTest =>
    simp only [loopStep] at h
    by_cases hset : s.m_nShutDown ≠ 0
    · rw [if_pos hset] at h
      obtain rfl := Except.ok.inj h
      exact ⟨.leave hset, rfl, rfl, rfl, rfl, Iff.rfl⟩
    · rw [if_neg hset] at h
      obtain rfl := Except.ok.inj h
      exact ⟨.enter hset, rfl, rfl, rfl, rfl, Iff.rfl⟩
  | popTest =>
    simp only [loopStep] at h
    by_cases hset : s.m_nShutDown ≠ 0
    · rw [if_pos hset] at h
      obtain rfl := Except.ok.inj h
      exact ⟨.back hset, rfl, rfl, rfl, rfl, Iff.rfl⟩
    · rw [if_neg hset] at h
      obtain rfl := Except.ok.inj h
      exact ⟨.pass hset, rfl, rfl, rfl, rfl, Iff.rfl⟩
  | lock =>
    obtain ⟨-, -, h⟩ := Run.of_bind h
    obtain rfl := Except.ok.inj h
    exact ⟨.locked, rfl, rfl, rfl, rfl, Iff.rfl⟩
  | count =>
    obtain ⟨stream, -, h⟩ := Run.of_bind h
    by_cases hzero : stream.getCount = 0
    · simp only [hzero, if_true] at h
      obtain rfl := Except.ok.inj h
      exact ⟨.empty, rfl, rfl, rfl, rfl, Iff.rfl⟩
    · simp only [hzero, if_false] at h
      obtain rfl := Except.ok.inj h
      exact ⟨.counted _, rfl, rfl, rfl, rfl, Iff.rfl⟩
  | popping k msgStream =>
    cases k with
    | zero =>
      obtain rfl := Except.ok.inj h
      exact ⟨.emptied, rfl, rfl, rfl, rfl, Iff.rfl⟩
    | succ k =>
      obtain ⟨stream, hstream, h⟩ := Run.of_bind h
      obtain ⟨⟨stream', msgNode, flag⟩, -, h⟩ := Run.of_bind h
      have hsome := inStream_inv hstream
      cases flag with
      | true =>
        simp only [if_true] at h
        obtain ⟨msgStream', hinsert, h⟩ := Run.of_bind h
        obtain ⟨c, -, hc⟩ := Run.of_bind (other_inv hinsert)
        obtain rfl := Except.ok.inj hc
        obtain rfl := Except.ok.inj h
        exact ⟨.popped (toNat_add_one_le _), rfl, rfl, rfl, rfl, by simp [hsome]⟩
      | false =>
        simp only [Bool.false_eq_true, if_false] at h
        obtain rfl := Except.ok.inj h
        exact ⟨.popped (Nat.le_succ _), rfl, rfl, rfl, rfl, by simp [hsome]⟩
  | unlock msgStream flag =>
    obtain ⟨-, -, h⟩ := Run.of_bind h
    by_cases hnone : msgStream.getCount = 0 ∨ flag = false
    · simp only [hnone, if_true] at h
      obtain rfl := Except.ok.inj h
      exact ⟨.nothing, rfl, rfl, rfl, rfl, Iff.rfl⟩
    · simp only [hnone, if_false] at h
      obtain rfl := Except.ok.inj h
      exact ⟨.batch, rfl, rfl, rfl, rfl, Iff.rfl⟩
  | handling i count msgStream =>
    simp only [loopStep] at h
    by_cases hlt : i < count
    · rw [if_pos hlt] at h
      obtain ⟨⟨msgStream', msgNode, flag⟩, -, h⟩ := Run.of_bind h
      obtain rfl := Except.ok.inj h
      exact ⟨.message hlt, rfl, rfl, rfl, rfl, Iff.rfl⟩
    · rw [if_neg hlt] at h
      obtain rfl := Except.ok.inj h
      exact ⟨.through, rfl, rfl, rfl, rfl, Iff.rfl⟩

/-- The loop is left only with `m_nShutDown` set. -/
theorem Moves.inLoop_or {shutDown : Prop} (h : Moves shutDown pc t) :
    (∃ pc', t = .loop pc') ∨ t = .deleteLock ∧ shutDown := by
  cases h with
  | leave h => exact .inr ⟨rfl, h⟩
  | _ => exact .inl ⟨_, rfl⟩

/-- A step that finds `m_nShutDown` set does not lead to the stream. -/
theorem Moves.not_pops {shutDown : Prop} (h : Moves shutDown pc t) (hset : shutDown)
    (hpc : ¬ (ThreadPc.loop pc).Pops) : ¬ t.Pops := by
  cases h with
  | enter h => exact absurd hset h
  | pass h => exact absurd hset h
  | locked => exact absurd trivial hpc
  | counted => exact absurd trivial hpc
  | popped => exact absurd (Nat.succ_pos _) hpc
  | _ => exact id

/-- The steps that are left, at most, when `m_nShutDown` is set. -/
def rank : ThreadPc → ℕ
  | .exited => 0
  | .nullLock => 1
  | .deleteLock => 2
  | .loop .loopTest => 3
  | .loop .popTest => 4
  | .loop (.handling i count _) => 4 + (count.toNat - i.toNat)
  | .loop (.unlock msgStream _) => 5 + msgStream.m_nCount.toNat
  | .loop (.popping k msgStream) => 6 + 2 * k + msgStream.m_nCount.toNat
  | .loop .count => 7 + 2 * 2 ^ 32
  | .loop .lock => 8 + 2 * 2 ^ 32

theorem Moves.rank_lt {shutDown : Prop} (h : Moves shutDown pc t) (hset : shutDown) :
    rank t < rank (.loop pc) := by
  cases h with
  | leave => exact Nat.lt_succ_self 2
  | enter h => exact absurd hset h
  | back => exact Nat.lt_succ_self 3
  | pass h => exact absurd hset h
  | locked => exact Nat.lt_succ_self _
  | empty =>
    simp only [rank, MsgStream.new, UInt32.toNat_zero]
    omega
  | counted count =>
    have := count.toNat_lt
    simp only [rank, MsgStream.new, UInt32.toNat_zero]
    omega
  | popped hle =>
    simp only [rank]
    omega
  | emptied =>
    simp only [rank]
    omega
  | nothing =>
    simp only [rank]
    omega
  | batch =>
    simp only [rank, UInt32.toNat_zero]
    omega
  | @message i count b b' hlt =>
    have hi := UInt32.lt_iff_toNat_lt.mp hlt
    have hc := count.toNat_lt
    have hsucc : (i + 1).toNat = i.toNat + 1 := by
      rw [UInt32.toNat_add, UInt32.toNat_one]
      exact Nat.mod_eq_of_lt (by omega)
    simp only [rank, hsucc]
    omega
  | through =>
    simp only [rank]
    omega

theorem other_error {α : Type} {x : Exec α} {e : Misuse} (h : other x = .error e) :
    ∃ f, e = .other f := by
  cases x with
  | error f => exact ⟨f, (Except.error.inj h).symm⟩
  | ok a => cases h

theorem inStream_error {e : Misuse} (h : s.inStream = .error e) :
    e = .msgInStream ∧ s.m_msgInStream = none := by
  unfold inStream at h
  split at h
  · rename_i hnone
    exact ⟨(Except.error.inj h).symm, hnone⟩
  · cases h

theorem useLock_ok (h : s.m_mutexLock = true ∧ s.deletions = 0) : s.useLock = .ok () := if_pos h

/-- What goes wrong in the loop: the stream is destroyed where it is popped, or a message is the
reason. -/
theorem loopStep_error (hlock : s.m_mutexLock = true ∧ s.deletions = 0) {e : Misuse}
    (h : s.loopStep malloc pc = .error e) :
    (∃ f, e = .other f) ∨ e = .msgInStream ∧ (ThreadPc.loop pc).Pops ∧ s.m_msgInStream = none := by
  cases pc with
  | loopTest =>
    simp only [loopStep] at h
    split at h <;> cases h
  | popTest =>
    simp only [loopStep] at h
    split at h <;> cases h
  | lock =>
    rw [loopStep, useLock_ok hlock] at h
    cases h
  | count =>
    rcases Run.of_bind_error h with h | ⟨stream, -, h⟩
    · obtain ⟨rfl, hnone⟩ := inStream_error h
      exact .inr ⟨rfl, trivial, hnone⟩
    · simp only at h
      split at h <;> cases h
  | popping k msgStream =>
    cases k with
    | zero => cases h
    | succ k =>
      rcases Run.of_bind_error h with h | ⟨stream, -, h⟩
      · obtain ⟨rfl, hnone⟩ := inStream_error h
        exact .inr ⟨rfl, Nat.succ_pos k, hnone⟩
      rcases Run.of_bind_error h with h | ⟨⟨stream', msgNode, flag⟩, -, h⟩
      · exact .inl (other_error h)
      cases flag with
      | true =>
        rcases Run.of_bind_error h with h | ⟨msgStream', -, h⟩
        · exact .inl (other_error h)
        · cases h
      | false => cases h
  | unlock msgStream flag =>
    rw [loopStep, useLock_ok hlock] at h
    simp only [bind, Except.bind] at h
    split at h <;> cases h
  | handling i count msgStream =>
    simp only [loopStep] at h
    split at h
    · rcases Run.of_bind_error h with h | ⟨x, -, h⟩
      · exact .inl (other_error h)
      · cases h
    · cases h

/-! ## The lock -/

/-- The lock is deleted once, behind the loop. -/
def LockAt (s : WorkerShutdown) : ThreadPc → Prop
  | .loop _ => s.m_mutexLock = true ∧ s.deletions = 0
  | .deleteLock => s.m_mutexLock = true ∧ s.deletions = 0
  | .nullLock => s.deletions = 1
  | .exited => s.m_mutexLock = false ∧ s.deletions = 1

/-- What holds in every order of the steps. -/
structure Inv (s : WorkerShutdown) : Prop where
  lock : s.LockAt s.thread
  joined : s.destructor = .done → s.thread = .exited
  unset : s.destructor = .testLock ∨ s.destructor = .setShutDown →
    s.m_nShutDown = 0 ∧ s.m_msgInStream ≠ none ∧ ∃ pc, s.thread = .loop pc
  set : s.destructor ≠ .testLock → s.destructor ≠ .setShutDown → s.m_nShutDown ≠ 0

theorem inv_start (m_msgInStream m_msgOutStream : MsgStream) (pc : LoopPc) :
    Inv (start m_msgInStream m_msgOutStream pc) :=
  ⟨⟨rfl, rfl⟩, nofun, fun _ => ⟨rfl, nofun, pc, rfl⟩, fun h => absurd rfl h⟩

theorem Inv.destroy (hi : Inv s) : Inv s.destroyStep := by
  obtain ⟨hlock, hjoined, hunset, hset⟩ := hi
  have hone : (1 : UInt32) ≠ 0 := by decide
  unfold destroyStep
  cases hd : s.destructor with
  | testLock =>
    obtain ⟨hzero, hsome, pc, hpc⟩ := hunset (.inl hd)
    have hfree : s.m_mutexLock = true := by
      rw [hpc] at hlock
      exact hlock.1
    show Inv (if s.m_mutexLock = true then _ else _)
    rw [if_pos hfree]
    exact ⟨hlock, nofun, fun _ => ⟨hzero, hsome, pc, hpc⟩, fun _ h => absurd rfl h⟩
  | setShutDown => exact ⟨hlock, nofun, nofun, fun _ _ => hone⟩
  | msgHandler => exact ⟨hlock, nofun, nofun, fun _ _ => hset (by simp [hd]) (by simp [hd])⟩
  | msgOutStream => exact ⟨hlock, nofun, nofun, fun _ _ => hset (by simp [hd]) (by simp [hd])⟩
  | msgInStream => exact ⟨hlock, nofun, nofun, fun _ _ => hset (by simp [hd]) (by simp [hd])⟩
  | baseShutDown => exact ⟨hlock, nofun, nofun, fun _ _ => hone⟩
  | join =>
    simp only
    by_cases hexit : s.thread = .exited
    · rw [if_pos hexit]
      exact ⟨hlock, fun _ => hexit, nofun, fun _ _ => hset (by simp [hd]) (by simp [hd])⟩
    · rw [if_neg hexit]
      exact ⟨hlock, hjoined, hunset, hset⟩
  | done => exact ⟨hlock, hjoined, hunset, hset⟩

/-- What a step of the thread does. -/
theorem Inv.threadStep_cases (hi : Inv s) (hstep : s.threadStep malloc = .ok s') :
    (∃ pc, s.thread = .loop pc ∧ Moves (s.m_nShutDown ≠ 0) pc s'.thread ∧ Frame s s') ∨
      s.thread = .deleteLock ∧ s' = { s with deletions := 1, thread := .nullLock } ∨
      s.thread = .nullLock ∧ s' = { s with m_mutexLock := false, thread := .exited } ∨
      s.thread = .exited ∧ s' = s := by
  have hlock := hi.lock
  unfold threadStep at hstep
  cases ht : s.thread with
  | loop pc =>
    rw [ht] at hstep
    exact .inl ⟨pc, rfl, loopStep_moves hstep⟩
  | deleteLock =>
    rw [ht] at hstep hlock
    simp only [hlock.1, if_true, useLock_ok hlock, hlock.2, bind, Except.bind] at hstep
    obtain rfl := Except.ok.inj hstep
    exact .inr (.inl ⟨rfl, by rw [hlock.1]⟩)
  | nullLock =>
    rw [ht] at hstep
    exact .inr (.inr (.inl ⟨rfl, (Except.ok.inj hstep).symm⟩))
  | exited =>
    rw [ht] at hstep
    exact .inr (.inr (.inr ⟨rfl, (Except.ok.inj hstep).symm⟩))

theorem Inv.thread (hi : Inv s) (hstep : s.threadStep malloc = .ok s') : Inv s' := by
  have hcases := hi.threadStep_cases hstep
  obtain ⟨hlock, hjoined, hunset, hset⟩ := hi
  -- behind the loop, `m_nShutDown` is set
  have hlate : (∀ pc, s.thread ≠ .loop pc) →
      ¬ (s.destructor = .testLock ∨ s.destructor = .setShutDown) := by
    intro hout hd
    obtain ⟨-, -, pc, hpc⟩ := hunset hd
    exact hout pc hpc
  rcases hcases with ⟨pc, ht, hmoves, hshut, hmutex, hdel, hdest, hnone⟩ | ⟨ht, rfl⟩ | ⟨ht, rfl⟩ |
    ⟨-, rfl⟩
  · rw [ht] at hlock
    refine ⟨?_, ?_, ?_, ?_⟩
    · rcases hmoves.inLoop_or with ⟨pc', hpc'⟩ | ⟨hpc', -⟩
      · rw [hpc', LockAt, hmutex, hdel]
        exact hlock
      · rw [hpc', LockAt, hmutex, hdel]
        exact hlock
    · rw [hdest]
      intro hd
      rw [hjoined hd] at ht
      cases ht
    · rw [hdest, hshut]
      intro hd
      obtain ⟨hzero, hsome, -⟩ := hunset hd
      refine ⟨hzero, fun h => hsome (hnone.mp h), ?_⟩
      rcases hmoves.inLoop_or with hpc' | ⟨-, hne⟩
      · exact hpc'
      · exact absurd hzero hne
    · rw [hdest, hshut]
      exact hset
  · have hout := hlate fun pc h => by rw [ht] at h; cases h
    refine ⟨rfl, ?_, fun hd => absurd hd hout, hset⟩
    intro hd
    rw [hjoined hd] at ht
    cases ht
  · have hout := hlate fun pc h => by rw [ht] at h; cases h
    rw [ht] at hlock
    exact ⟨⟨rfl, hlock⟩, fun _ => rfl, fun hd => absurd hd hout, hset⟩
  · exact ⟨hlock, hjoined, hunset, hset⟩

/-- What goes wrong in a step, with these invariants: never the lock. -/
theorem Inv.threadStep_error (hi : Inv s) {e : Misuse} (h : s.threadStep malloc = .error e) :
    (∃ f, e = .other f) ∨ e = .msgInStream ∧ s.thread.Pops ∧ s.m_msgInStream = none := by
  have hlock := hi.lock
  unfold threadStep at h
  cases ht : s.thread with
  | loop pc =>
    rw [ht] at h hlock
    exact loopStep_error hlock h
  | deleteLock =>
    rw [ht] at h hlock
    simp only [hlock.1, if_true, useLock_ok hlock] at h
    cases h
  | nullLock =>
    rw [ht] at h
    cases h
  | exited =>
    rw [ht] at h
    cases h

/-! ## The stream -/

/-- A stream that is destroyed is not going to be used. -/
def Clear (s : WorkerShutdown) : Prop := s.m_msgInStream = none → ¬ s.thread.Pops

/-- When `m_msgInStream` is destroyed, the thread is not going to use it. -/
def StreamUnused (s : WorkerShutdown) : Event → Prop
  | .destroy => s.destructor = .msgInStream → ¬ s.thread.Pops
  | .thread _ => True

/-- All is well after a step, or a message is the reason why not. -/
def Safe : Except Misuse WorkerShutdown → Prop
  | .ok s => Inv s ∧ Clear s
  | .error e => ∃ f, e = .other f

theorem Inv.set_of_destroyed (hi : Inv s) (hnone : s.m_msgInStream = none) :
    s.m_nShutDown ≠ 0 := by
  apply hi.set
  · intro hd
    exact (hi.unset (.inl hd)).2.1 hnone
  · intro hd
    exact (hi.unset (.inr hd)).2.1 hnone

theorem Inv.clear_thread (hi : Inv s) (hc : Clear s) (hstep : s.threadStep malloc = .ok s') :
    Clear s' := by
  rcases hi.threadStep_cases hstep with ⟨pc, ht, hmoves, hframe⟩ | ⟨-, rfl⟩ | ⟨-, rfl⟩ | ⟨-, rfl⟩
  · intro hnone
    have hnone' := hframe.destroyed.mp hnone
    have hpops := hc hnone'
    rw [ht] at hpops
    exact hmoves.not_pops (hi.set_of_destroyed hnone') hpops
  · exact fun _ => id
  · exact fun _ => id
  · exact hc

theorem clear_destroy (hc : Clear s) (hok : StreamUnused s .destroy) : Clear s.destroyStep := by
  unfold destroyStep
  cases hd : s.destructor with
  | testLock =>
    show Clear (if s.m_mutexLock = true then _ else _)
    split <;> exact hc
  | msgInStream => exact fun _ => hok hd
  | join =>
    show Clear (if s.thread = .exited then _ else _)
    split <;> exact hc
  | setShutDown => exact hc
  | msgHandler => exact hc
  | msgOutStream => exact hc
  | baseShutDown => exact hc
  | done => exact hc

/-- **One step.** -/
theorem Inv.step (hi : Inv s) (hc : Clear s) {e : Event} (hok : StreamUnused s e) :
    Safe (s.step e) := by
  cases e with
  | destroy => exact ⟨hi.destroy, clear_destroy hc hok⟩
  | thread malloc =>
    cases hstep : s.threadStep malloc with
    | error e =>
      rw [WorkerShutdown.step, hstep]
      rcases hi.threadStep_error hstep with h | ⟨-, hpops, hnone⟩
      · exact h
      · exact absurd hpops (hc hnone)
    | ok s' =>
      rw [WorkerShutdown.step, hstep]
      exact ⟨hi.thread hstep, hi.clear_thread hc hstep⟩

/-- **A run whose steps all meet the condition.** -/
theorem run_safe (hs : Safe (.ok s)) {es : List Event}
    (hok : Run.EachStep (run s) StreamUnused es) : Safe (run s es) :=
  Run.outcome_of_eachStep Safe hs (fun _ _ h he => h.1.step h.2 he) hok

/-- Nothing is done to the lock that should not be done, or a fault has come before. -/
def LockSafe : Except Misuse WorkerShutdown → Prop
  | .ok s => Inv s
  | .error e => e ≠ .mutexLock

theorem Inv.lockSafe_step (hi : Inv s) (e : Event) : LockSafe (s.step e) := by
  cases e with
  | destroy => exact hi.destroy
  | thread malloc =>
    rw [WorkerShutdown.step]
    cases hstep : s.threadStep malloc with
    | ok s' => exact hi.thread hstep
    | error e =>
      rcases hi.threadStep_error hstep with ⟨f, rfl⟩ | ⟨rfl, -⟩
      · exact nofun
      · exact nofun

/-- **Any run.** -/
theorem run_lockSafe (hi : Inv s) (es : List Event) : LockSafe (run s es) :=
  Run.outcome_of_eachStep LockSafe hi (fun _ e h _ => Inv.lockSafe_step h e)
    (Run.eachStep_of_forall fun _ _ _ => trivial)

theorem run_inv (hi : Inv s) {es : List Event} (hrun : run s es = .ok s') : Inv s' := by
  have hsafe := run_lockSafe hi es
  rwa [hrun] at hsafe

/-! ## The thread alone -/

theorem run_append (es es' : List Event) :
    run s (es ++ es') = run s es >>= fun s => run s es' := List.foldlM_append

/-- `n` steps of the thread. -/
def threadSteps (malloc : ℕ → Malloc) (n : ℕ) : List Event := List.replicate n (.thread malloc)

theorem run_threadSteps_succ (hstep : s.threadStep malloc = .ok s') (n : ℕ) :
    run s (threadSteps malloc (n + 1)) = run s' (threadSteps malloc n) := by
  rw [threadSteps, List.replicate_succ, run, List.foldlM_cons, step, hstep]
  rfl

theorem run_threadSteps_error {e : Misuse} (hstep : s.threadStep malloc = .error e) :
    run s (threadSteps malloc 1) = .error e := by
  rw [threadSteps, List.replicate_one, run, List.foldlM_cons, step, hstep]
  rfl

/-- A stream that is destroyed where the thread is going to use it is used. -/
theorem Inv.uses_destroyed (hi : Inv s) (hnone : s.m_msgInStream = none)
    (hpops : s.thread.Pops) : ∃ n, run s (threadSteps mallocOk n) = .error .msgInStream := by
  have hcount : ∀ s : WorkerShutdown, s.m_msgInStream = none →
      s.loopStep mallocOk .count = .error .msgInStream := by
    intro s hnone
    rw [loopStep, inStream, hnone]
    rfl
  cases ht : s.thread with
  | loop pc =>
    have hlock := hi.lock
    rw [ht] at hpops hlock
    have hstep : s.threadStep mallocOk = s.loopStep mallocOk pc := by rw [threadStep, ht]
    cases pc with
    | lock =>
      rw [loopStep, useLock_ok hlock] at hstep
      refine ⟨2, ?_⟩
      rw [run_threadSteps_succ hstep]
      exact run_threadSteps_error (hcount { s with thread := .loop .count } hnone)
    | count =>
      rw [hcount s hnone] at hstep
      exact ⟨1, run_threadSteps_error hstep⟩
    | popping k msgStream =>
      obtain ⟨k, rfl⟩ := Nat.exists_eq_succ_of_ne_zero (Nat.pos_iff_ne_zero.mp hpops)
      rw [loopStep, inStream, hnone] at hstep
      exact ⟨1, run_threadSteps_error hstep⟩
    | _ => cases hpops
  | _ =>
    rw [ht] at hpops
    cases hpops

/-- **The thread comes to its end** once `m_nShutDown` is set, or to a fault. -/
theorem Inv.exits (hi : Inv s) (hset : s.m_nShutDown ≠ 0) (malloc : ℕ → Malloc) :
    ∃ n, (∃ s', run s (threadSteps malloc n) = .ok s' ∧ s'.thread = .exited) ∨
      ∃ e, run s (threadSteps malloc n) = .error e := by
  induction hr : rank s.thread using Nat.strong_induction_on generalizing s with
  | _ r ih =>
    by_cases hexit : s.thread = .exited
    · exact ⟨0, .inl ⟨s, rfl, hexit⟩⟩
    cases hstep : s.threadStep malloc with
    | error e => exact ⟨1, .inr ⟨e, run_threadSteps_error hstep⟩⟩
    | ok s' =>
      obtain ⟨hset', hlt⟩ : s'.m_nShutDown ≠ 0 ∧ rank s'.thread < r := by
        subst hr
        rcases hi.threadStep_cases hstep with ⟨pc, ht, hmoves, hframe⟩ | ⟨ht, rfl⟩ | ⟨ht, rfl⟩ |
          ⟨ht, -⟩
        · rw [hframe.m_nShutDown, ht]
          exact ⟨hset, hmoves.rank_lt hset⟩
        · rw [ht]
          exact ⟨hset, Nat.lt_succ_self 1⟩
        · rw [ht]
          exact ⟨hset, Nat.lt_succ_self 0⟩
        · exact absurd ht hexit
      obtain ⟨n, hn⟩ := ih _ hlt (hi.thread hstep) hset' rfl
      refine ⟨n + 1, ?_⟩
      rwa [run_threadSteps_succ hstep]

/-! ## The steps of `NetWorker.threadStep` -/

/-- Some steps of the thread lead from `s` to `s'`. -/
def Steps (malloc : ℕ → Malloc) (s s' : WorkerShutdown) : Prop :=
  ∃ n, run s (threadSteps malloc n) = .ok s'

theorem Steps.refl (malloc : ℕ → Malloc) (s : WorkerShutdown) : Steps malloc s s := ⟨0, rfl⟩

theorem Steps.cons {s₁ : WorkerShutdown} (hstep : s.threadStep malloc = .ok s₁)
    (h : Steps malloc s₁ s') : Steps malloc s s' := by
  obtain ⟨n, hn⟩ := h
  exact ⟨n + 1, by rw [run_threadSteps_succ hstep, hn]⟩

theorem Steps.trans {s₁ : WorkerShutdown} (h : Steps malloc s s₁) (h' : Steps malloc s₁ s') :
    Steps malloc s s' := by
  obtain ⟨m, hm⟩ := h
  obtain ⟨n, hn⟩ := h'
  refine ⟨m + n, ?_⟩
  rw [threadSteps, List.replicate_add, run_append]
  exact (congrArg (· >>= _) hm).trans hn

theorem Steps.single (hstep : s.threadStep malloc = .ok s') : Steps malloc s s' :=
  .cons hstep (.refl _ _)

theorem loopStep_of (ht : s.thread = .loop pc) : s.threadStep malloc = s.loopStep malloc pc := by
  rw [threadStep, ht]

/-- The pops of `popMsgFromInStream`, one by one. -/
theorem steps_popLoop {k : ℕ} {st b st' b' : MsgStream} (hstream : s.m_msgInStream = some st)
    (ht : s.thread = .loop (.popping k b))
    (hrun : NetWorker.popLoop malloc k (st, b) = .ok (st', b')) :
    Steps malloc s
      { s with m_msgInStream := some st', thread := .loop (.popping 0 b') } := by
  induction k generalizing s st b with
  | zero =>
    obtain ⟨rfl, rfl⟩ := Prod.mk.inj (Except.ok.inj hrun)
    rw [← hstream, ← ht]
    exact .refl _ _
  | succ k ih =>
    obtain ⟨⟨st₁, c, flag⟩, hpop, hrun⟩ := Run.of_bind hrun
    have hstep : s.threadStep malloc = s.loopStep malloc (.popping (k + 1) b) := loopStep_of ht
    simp only [loopStep, inStream, hstream, hpop, other, bind, Except.bind] at hstep
    cases flag with
    | false =>
      exact .cons hstep (ih rfl rfl hrun)
    | true =>
      obtain ⟨b₁, hinsert, hrun⟩ := Run.of_bind hrun
      simp only [if_true, hinsert] at hstep
      exact .cons hstep (ih rfl rfl hrun)

/-- Where the thread is, in the terms of `NetWorker`. -/
def threadPc : WorkerPc → ThreadPc
  | .loopTest => .loop .loopTest
  | .popTest => .loop .popTest
  | .popLock => .loop .lock
  | .handling i count msgStream => .loop (.handling i count msgStream)
  | .exited => .exited

structure Simulates (w : NetWorker) (s : WorkerShutdown) : Prop where
  m_nShutDown : s.m_nShutDown = w.m_nShutDown
  m_mutexLock : s.m_mutexLock = w.m_mutexLock
  m_msgInStream : s.m_msgInStream = some w.m_msgInStream
  thread : s.thread = threadPc w.pc
  deletions : s.deletions = if w.m_mutexLock then 0 else 1

/-- The steps from the test that ends the loop to the end of the thread. -/
theorem steps_exit (ht : s.thread = .loop .loopTest) (hset : s.m_nShutDown ≠ 0)
    (hdel : s.deletions = if s.m_mutexLock then 0 else 1) :
    Steps malloc s { s with m_mutexLock := false, deletions := 1, thread := .exited } := by
  refine .cons ((loopStep_of ht).trans (if_pos hset)) ?_
  have hdelete : WorkerShutdown.threadStep malloc { s with thread := .deleteLock } =
      .ok { s with deletions := 1, thread := .nullLock } := by
    cases hmutex : s.m_mutexLock with
    | true =>
      rw [hmutex, if_pos rfl] at hdel
      simp only [WorkerShutdown.threadStep, hdel, if_true, useLock, and_self, bind, Except.bind,
        pure, Except.pure]
    | false =>
      rw [hmutex, if_neg Bool.false_ne_true] at hdel
      simp only [WorkerShutdown.threadStep, Bool.false_eq_true, if_false]
      rw [← hdel]
  exact .cons hdelete (.single rfl)

/-- The steps from the lock to the test of what has been popped. -/
theorem steps_popLock {w w' : NetWorker} {b : MsgStream} {flag : Bool} (h : Simulates w s)
    (ht : s.thread = .loop .lock)
    (hrun : w.popMsgFromInStream malloc .new = .ok (w', b, flag)) :
    Steps malloc s
        { s with m_msgInStream := some w'.m_msgInStream, thread := .loop (.unlock b flag) } ∧
      w' = { w with m_msgInStream := w'.m_msgInStream } ∧ w.m_mutexLock = true := by
  obtain ⟨-, hmutex, hstream, -, hdel⟩ := h
  obtain ⟨⟨⟩, hlock, hrun⟩ := Run.of_bind hrun
  have hfree : w.m_mutexLock = true := by
    unfold NetWorker.lock at hlock
    split at hlock
    · assumption
    · cases hlock
  rw [hfree, if_pos rfl] at hdel
  have hlocked : s.threadStep malloc = .ok { s with thread := .loop .count } := by
    rw [loopStep_of ht, loopStep, useLock_ok ⟨hmutex.trans hfree, hdel⟩]
    rfl
  have hcount : WorkerShutdown.threadStep malloc { s with thread := .loop .count } =
      .ok { s with thread := .loop (if w.m_msgInStream.getCount = 0 then .unlock .new false
        else .popping w.m_msgInStream.getCount.toNat .new) } := by
    simp only [WorkerShutdown.threadStep, loopStep, inStream, hstream, bind, Except.bind, pure,
      Except.pure]
    split <;> rfl
  simp only at hrun
  by_cases hzero : w.m_msgInStream.getCount = 0
  · rw [if_pos hzero] at hrun hcount
    obtain ⟨rfl, hrest⟩ := Prod.mk.inj (Except.ok.inj hrun)
    obtain ⟨rfl, rfl⟩ := Prod.mk.inj hrest
    refine ⟨.cons hlocked (.cons hcount ?_), rfl, hfree⟩
    rw [← hstream]
    exact .refl _ _
  · rw [if_neg hzero] at hrun hcount
    obtain ⟨⟨st', b'⟩, hpops, hend⟩ := Run.of_bind hrun
    obtain ⟨rfl, hrest⟩ := Prod.mk.inj (Except.ok.inj hend)
    obtain ⟨rfl, rfl⟩ := Prod.mk.inj hrest
    refine ⟨.cons hlocked (.cons hcount ?_), rfl, hfree⟩
    have hpopping : Steps malloc
        { s with thread := .loop (.popping w.m_msgInStream.getCount.toNat .new) }
        { s with m_msgInStream := some st', thread := .loop (.popping 0 b') } :=
      steps_popLoop hstream rfl hpops
    exact hpopping.trans (.single rfl)

/-- A step after which the thread is elsewhere in its loop, and nothing else has changed. -/
theorem Simulates.moveTo {w : NetWorker} (h : Simulates w s) {pc : WorkerPc}
    (hstep : s.threadStep malloc = .ok { s with thread := threadPc pc }) :
    ∃ s', Steps malloc s s' ∧ Simulates { w with pc } s' ∧ s'.handled = s.handled ++ [] := by
  obtain ⟨hshut, hmutex, hstream, -, hdel⟩ := h
  refine ⟨_, .single hstep, ?_, (List.append_nil _).symm⟩
  exact ⟨hshut, hmutex, hstream, rfl, hdel⟩

/-- From the lock to the place behind `popMsgFromInStream`. -/
theorem Simulates.popLock {w w' : NetWorker} {b : MsgStream} {flag : Bool} (h : Simulates w s)
    (ht : s.thread = .loop .lock)
    (hpop : w.popMsgFromInStream malloc .new = .ok (w', b, flag)) {pc : WorkerPc}
    (hpc : threadPc pc = .loop (if b.getCount = 0 ∨ flag = false then .loopTest
      else .handling 0 b.getCount b)) :
    ∃ s', Steps malloc s s' ∧ Simulates { w' with pc } s' ∧ s'.handled = s.handled ++ [] := by
  obtain ⟨hsteps, hw, hfree⟩ := steps_popLock h ht hpop
  obtain ⟨hshut, hmutex, hstream, -, hdel⟩ := h
  rw [hfree, if_pos rfl] at hdel
  set s₁ : WorkerShutdown :=
    { s with m_msgInStream := some w'.m_msgInStream, thread := .loop (.unlock b flag) }
  have hunlock : s₁.threadStep malloc = .ok { s₁ with thread := threadPc pc } := by
    rw [hpc, loopStep_of rfl, loopStep, useLock_ok (s := s₁) ⟨hmutex.trans hfree, hdel⟩]
    simp only [bind, Except.bind, pure, Except.pure]
    split <;> rfl
  refine ⟨_, hsteps.trans (.single hunlock), ?_, (List.append_nil _).symm⟩
  rw [hw]
  exact ⟨hshut, hmutex, rfl, rfl, by rw [hfree, if_pos rfl]; exact hdel⟩

/-- **The steps refine those of the worker.** What the thread does in one step of
`NetWorker.threadStep` it does here in some steps, and hands the same message to `handleMsg`. -/
theorem Simulates.threadStep {w w' : NetWorker} {out : Option ConMsgNode} (h : Simulates w s)
    (hstep : w.threadStep malloc = .ok (w', out)) :
    ∃ s', Steps malloc s s' ∧ Simulates w' s' ∧ s'.handled = s.handled ++ out.toList := by
  have hw := h
  obtain ⟨hshut, hmutex, hstream, ht, hdel⟩ := h
  unfold NetWorker.threadStep at hstep
  cases hpc : w.pc with
  | loopTest =>
    rw [hpc] at ht hstep
    simp only at hstep
    by_cases hset : w.m_nShutDown ≠ 0
    · rw [if_pos hset] at hstep
      obtain ⟨rfl, rfl⟩ := Prod.mk.inj (Except.ok.inj hstep)
      refine ⟨_, steps_exit ht (by rwa [hshut]) (by rwa [hmutex]), ?_, (List.append_nil _).symm⟩
      exact ⟨hshut, rfl, hstream, rfl, rfl⟩
    · rw [if_neg hset] at hstep
      obtain ⟨rfl, rfl⟩ := Prod.mk.inj (Except.ok.inj hstep)
      apply hw.moveTo
      exact (loopStep_of ht).trans (if_neg (by rwa [hshut]))
  | popTest =>
    rw [hpc] at ht hstep
    simp only at hstep
    by_cases hset : w.m_nShutDown ≠ 0
    · rw [if_pos hset] at hstep
      obtain ⟨rfl, rfl⟩ := Prod.mk.inj (Except.ok.inj hstep)
      apply hw.moveTo
      exact (loopStep_of ht).trans (if_pos (by rwa [hshut]))
    · rw [if_neg hset] at hstep
      obtain ⟨rfl, rfl⟩ := Prod.mk.inj (Except.ok.inj hstep)
      apply hw.moveTo
      exact (loopStep_of ht).trans (if_neg (by rwa [hshut]))
  | popLock =>
    rw [hpc] at ht hstep
    obtain ⟨⟨w₁, b, flag⟩, hpop, hend⟩ := Run.of_bind hstep
    by_cases hnone : b.getCount = 0 ∨ flag = false
    · simp only [if_pos hnone] at hend
      obtain ⟨rfl, rfl⟩ := Prod.mk.inj (Except.ok.inj hend)
      apply hw.popLock ht hpop
      rw [if_pos hnone]
      rfl
    · simp only [if_neg hnone] at hend
      obtain ⟨rfl, rfl⟩ := Prod.mk.inj (Except.ok.inj hend)
      apply hw.popLock ht hpop
      rw [if_neg hnone]
      rfl
  | handling i count msgStream =>
    rw [hpc] at ht hstep
    simp only at hstep
    by_cases hlt : i < count
    · rw [if_pos hlt] at hstep
      obtain ⟨⟨b, c, flag⟩, hpop, hend⟩ := Run.of_bind hstep
      obtain ⟨rfl, rfl⟩ := Prod.mk.inj (Except.ok.inj hend)
      have hs : s.threadStep malloc = s.loopStep malloc (.handling i count msgStream) :=
        loopStep_of ht
      simp only [loopStep, if_pos hlt, hpop, other, bind, Except.bind] at hs
      refine ⟨_, .single hs, ⟨hshut, hmutex, hstream, rfl, hdel⟩, ?_⟩
      cases flag <;> rfl
    · rw [if_neg hlt] at hstep
      obtain ⟨rfl, rfl⟩ := Prod.mk.inj (Except.ok.inj hstep)
      apply hw.moveTo
      exact (loopStep_of ht).trans (if_neg hlt)
  | exited =>
    rw [hpc] at ht hstep
    obtain ⟨rfl, rfl⟩ := Prod.mk.inj (Except.ok.inj hstep)
    refine ⟨s, .refl _ _, ⟨hshut, hmutex, hstream, ?_, hdel⟩, (List.append_nil _).symm⟩
    rw [ht, hpc]

/-- Some steps of a worker, and the messages that they hand to `handleMsg`. -/
def threadRun (w : NetWorker) (mallocs : List (ℕ → Malloc)) :
    Exec (NetWorker × List ConMsgNode) :=
  mallocs.foldlM (fun x malloc => do
    let (w, out) ← x.1.threadStep malloc
    pure (w, x.2 ++ out.toList)) (w, [])

/-- Whole runs of the worker are runs of its thread here, with the same messages. -/
theorem Simulates.threadRun {w w' : NetWorker} {mallocs : List (ℕ → Malloc)}
    {out : List ConMsgNode} (h : Simulates w s) (hrun : threadRun w mallocs = .ok (w', out)) :
    ∃ (mallocs' : List (ℕ → Malloc)) (s' : WorkerShutdown),
      run s (mallocs'.map .thread) = .ok s' ∧ Simulates w' s' ∧
        s'.handled = s.handled ++ out := by
  refine Run.induction (fun _ x => ∃ (mallocs' : List (ℕ → Malloc)) (s' : WorkerShutdown),
    run s (mallocs'.map .thread) = .ok s' ∧ Simulates x.1 s' ∧
      s'.handled = s.handled ++ x.2) ?_ ?_ hrun
  · exact ⟨[], s, rfl, h, (List.append_nil _).symm⟩
  · intro _ x malloc x' ⟨mallocs', s₁, hrun₁, hsim, hhandled⟩ hstep
    obtain ⟨⟨w₁, out₁⟩, hthread, hend⟩ := Run.of_bind hstep
    obtain rfl := Except.ok.inj hend
    obtain ⟨s₂, ⟨n, hrun₂⟩, hsim₂, hhandled₂⟩ := hsim.threadStep hthread
    refine ⟨mallocs' ++ List.replicate n malloc, s₂, ?_, hsim₂, ?_⟩
    · rw [List.map_append, run_append, hrun₁, List.map_replicate]
      exact hrun₂
    · rw [hhandled₂, hhandled, List.append_assoc]

/-! ## Runs -/

/-- Steps of the thread meet the condition, so all stays well with them. -/
theorem safe_threads {x : Except Misuse WorkerShutdown} (hx : Safe x)
    (mallocs : List (ℕ → Malloc)) :
    Safe (x >>= fun s => run s (mallocs.map .thread)) := by
  cases x with
  | error e => exact hx
  | ok s =>
    apply run_safe hx
    apply Run.eachStep_of_forall
    intro e he s₁
    obtain ⟨malloc, -, rfl⟩ := List.mem_map.mp he
    trivial

/-- The lock is deleted once at most, once when the destructors are through, and once behind the
loop, which the thread leaves when `m_nShutDown` is set. -/
structure DeletedOnce (s : WorkerShutdown) : Prop where
  atMost : s.deletions ≤ 1
  done : s.destructor = .done → s.deletions = 1
  exits : s.m_nShutDown ≠ 0 → ∀ malloc,
    ∃ n, (∃ s', run s (threadSteps malloc n) = .ok s' ∧ s'.thread = .exited ∧ s'.deletions = 1) ∨
      ∃ e, run s (threadSteps malloc n) = .error e

theorem Inv.deletedOnce (hi : Inv s) : DeletedOnce s := by
  have hexited : ∀ {s}, Inv s → s.thread = .exited → s.deletions = 1 := by
    intro s hi ht
    have hlock := hi.lock
    rw [ht] at hlock
    exact hlock.2
  refine ⟨?_, fun hd => hexited hi (hi.joined hd), ?_⟩
  · have hlock := hi.lock
    cases ht : s.thread with
    | loop pc =>
      rw [ht] at hlock
      exact hlock.2.le.trans (Nat.zero_le 1)
    | deleteLock =>
      rw [ht] at hlock
      exact hlock.2.le.trans (Nat.zero_le 1)
    | nullLock =>
      rw [ht] at hlock
      exact hlock.le
    | exited => exact (hexited hi ht).le
  · intro hset malloc
    obtain ⟨n, ⟨s', hrun, hexit⟩ | herr⟩ := hi.exits hset malloc
    · exact ⟨n, .inl ⟨s', hrun, hexit, hexited (run_inv hi hrun) hexit⟩⟩
    · exact ⟨n, .inr herr⟩

/-- **Shutting down a worker.** In every order of the steps the lock is deleted once and not used
after that. However a run goes on from any of its states with steps of the thread, the stream is not
used after it was destroyed, if and only if the thread was not on its way to a pop when the run
destroyed it. -/
theorem shutdown_iff (m_msgInStream m_msgOutStream : MsgStream) (pc : LoopPc) (es : List Event) :
    (∀ s, run (start m_msgInStream m_msgOutStream pc) es = .ok s → DeletedOnce s) ∧
      run (start m_msgInStream m_msgOutStream pc) es ≠ .error .mutexLock ∧
      ((∀ before, before <+: es → ∀ mallocs : List (ℕ → Malloc),
          run (start m_msgInStream m_msgOutStream pc) (before ++ mallocs.map .thread) ≠
            .error .msgInStream) ↔
        Run.EachStep (run (start m_msgInStream m_msgOutStream pc)) StreamUnused es) := by
  have hstart := inv_start m_msgInStream m_msgOutStream pc
  have hlock := run_lockSafe hstart es
  refine ⟨fun s hrun => (run_inv hstart hrun).deletedOnce, ?_, ?_⟩
  · intro herr
    rw [herr] at hlock
    exact hlock rfl
  constructor
  · intro h before e after s hsplit hrun
    cases e with
    | thread malloc => trivial
    | destroy =>
      intro hd hpops
      -- the thread uses the stream in its next steps
      have hnext : s.destroyStep =
          { s with m_msgInStream := none, destructor := .baseShutDown } := by
        rw [destroyStep, hd]
      obtain ⟨n, hn⟩ := ((run_inv hstart hrun).destroy).uses_destroyed (by rw [hnext])
        (by rwa [hnext])
      refine h (before ++ [.destroy]) ⟨after, by simp [hsplit]⟩ (List.replicate n mallocOk) ?_
      rw [List.map_replicate, run_append, run_append, hrun]
      exact hn
  · rintro hok before ⟨after, rfl⟩ mallocs herr
    have hsafe := safe_threads (run_safe ⟨hstart, nofun⟩ hok.of_append) mallocs
    rw [← run_append, herr] at hsafe
    obtain ⟨f, hf⟩ := hsafe
    cases hf

/-- The thread has tested `m_nShutDown` for the second time when the destruction begins, and takes
the lock when the stream is destroyed. -/
theorem destroyed_early :
    run (start .new .new .loopTest) [.thread mallocOk, .thread mallocOk, .destroy, .destroy,
      .destroy, .destroy, .destroy, .thread mallocOk, .thread mallocOk] = .error .msgInStream := by
  decide

end WorkerShutdown

end SmartServer
