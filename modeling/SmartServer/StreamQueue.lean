import SmartServer.WorkerQueue

/-!
# Streams as values

A `MsgStream` is copied, assigned, filled and emptied, and keeps the number of its elements beside
the list. The streams there are stand in a heap here, and are called in any order; beside them are
the queues they should be (`Queues`), which are lists, and are copied and assigned as lists are.

**Theorem (`fifo_iff`).** A call writes no stream but its own. As long as no queue has `2 ^ 32`
elements, the counts are the lengths after every call of a run, the streams are the queues, what was
popped is what the queues gave, and no call fails, if and only if no stream with elements in it was
assigned to itself. Only the insertion of a node that cannot be copied is let off: it may fail. The
elements of the streams are copies, so every pop and every other copy of them goes through
(`Agrees.call_error`).

`operator =` clears the list before it reads the list it copies. When both are the same, the count
is all that is left, and the next pop takes the front of an empty list (`self_assigned`).

Allocations may fail: then the counts, the lengths, the results and the connections of the elements
are still right, but the elements need not be (`Agrees`).
-/

namespace SmartServer

/-! ## Copies of streams -/

/-- The loop of the copy constructor and of `operator =`: copies of the elements are put behind the
list. -/
def pushAll (malloc : ℕ → Malloc) : List ConMsgNode → List ConMsgNode → Exec (List ConMsgNode)
  | [], m_listConMsg => .ok m_listConMsg
  | msgNode :: rest, m_listConMsg => do
    let node ← msgNode.copy (malloc rest.length)
    pushAll malloc rest (m_listConMsg ++ [node])

/-- The copy constructor. -/
def MsgStream.copy (malloc : ℕ → Malloc) (msgStream : MsgStream) : Exec MsgStream := do
  let m_listConMsg ← pushAll malloc msgStream.m_listConMsg []
  pure ⟨msgStream.m_nCount, m_listConMsg⟩

/-- The streams there are, and what the pops have returned and left in `msgNode`. -/
structure MsgStreams where
  streams : Heap MsgStream
  results : List (Bool × ConMsgNode)

namespace MsgStreams

def initial : MsgStreams := ⟨.empty, []⟩

/-- `operator =` of the stream at `i`, called with the stream at `j`. It has no `return`, and its
value is never used. -/
def assign (malloc : ℕ → Malloc) (streams : Heap MsgStream) (i j : ℕ) : Exec (Heap MsgStream) :=
  match streams.get? i, streams.get? j with
  | some _, some msgStream => do
    let m_nCount := msgStream.m_nCount
    let cleared := streams.set i ⟨m_nCount, []⟩
    -- the list of `msgStream` is read now, and is cleared when it is that of the stream at `i`
    let list := ((cleared.get? j).map MsgStream.m_listConMsg).getD []
    let m_listConMsg ← pushAll malloc list []
    pure (cleared.set i ⟨m_nCount, m_listConMsg⟩)
  | _, _ => .ok streams

/-- Calls on streams; a call on a stream that does not exist is none. -/
inductive Call
  | construct
  | copyConstruct (malloc : ℕ → Malloc) (j : ℕ)
  | assign (malloc : ℕ → Malloc) (i j : ℕ)
  | insertMsgToList (m : Malloc) (i : ℕ) (msgNode : ConMsgNode)
  | popMsgFromList (m : Malloc) (i : ℕ) (msgNode : ConMsgNode)

def call (s : MsgStreams) : Call → Exec MsgStreams
  | .construct => .ok { s with streams := s.streams.alloc .new }
  | .copyConstruct malloc j =>
    match s.streams.get? j with
    | none => .ok s
    | some msgStream => do
      let stream ← msgStream.copy malloc
      pure { s with streams := s.streams.alloc stream }
  | .assign malloc i j => do
    let streams ← MsgStreams.assign malloc s.streams i j
    pure { s with streams }
  | .insertMsgToList m i msgNode =>
    match s.streams.get? i with
    | none => .ok s
    | some stream => do
      let stream ← stream.insertMsgToList m msgNode
      pure { s with streams := s.streams.set i stream }
  | .popMsgFromList m i msgNode =>
    match s.streams.get? i with
    | none => .ok s
    | some stream => do
      let (stream, msgNode, flag) ← stream.popMsgFromList m msgNode
      pure ⟨s.streams.set i stream, s.results ++ [(flag, msgNode)]⟩

def calls (cs : List Call) : Exec MsgStreams := cs.foldlM call initial

/-- The stream a call is made on; a constructor is called on a new one. -/
def Call.target (s : MsgStreams) : Call → ℕ
  | .construct => s.streams.next
  | .copyConstruct _ _ => s.streams.next
  | .assign _ i _ => i
  | .insertMsgToList _ i _ => i
  | .popMsgFromList _ i _ => i

/-! ## The queues -/

/-- Ideal queues, and what the pops have given. -/
structure Queues where
  queues : Heap (List ConMsgNode)
  results : List (Option ConMsgNode)

namespace Queues

def initial : Queues := ⟨.empty, []⟩

def call (q : Queues) : Call → Queues
  | .construct => { q with queues := q.queues.alloc [] }
  | .copyConstruct _ j =>
    match q.queues.get? j with
    | none => q
    | some xs => { q with queues := q.queues.alloc xs }
  | .assign _ i j =>
    match q.queues.get? i, q.queues.get? j with
    | some _, some xs => { q with queues := q.queues.set i xs }
    | _, _ => q
  | .insertMsgToList _ i msgNode =>
    match q.queues.get? i with
    | none => q
    | some xs => { q with queues := q.queues.set i (xs ++ [msgNode]) }
  | .popMsgFromList _ i _ =>
    match q.queues.get? i with
    | none => q
    | some [] => { q with results := q.results ++ [none] }
    | some (x :: xs) => ⟨q.queues.set i xs, q.results ++ [some x]⟩

/-- The queues after some calls. -/
def after (cs : List Call) : Queues := cs.foldl call initial

theorem after_concat (cs : List Call) (c : Call) : after (cs ++ [c]) = (after cs).call c := by
  rw [after, List.foldl_append]
  rfl

/-- No queue has more than `n` elements. -/
def AtMost (queues : Heap (List ConMsgNode)) (n : ℕ) : Prop :=
  ∀ i xs, queues.get? i = some xs → xs.length ≤ n

section AtMost

variable {queues : Heap (List ConMsgNode)} {n i : ℕ} {xs ys : List ConMsgNode}

theorem AtMost.succ (h : AtMost queues n) : AtMost queues (n + 1) := by
  intro i xs hi
  exact Nat.le_succ_of_le (h i xs hi)

theorem AtMost.alloc (h : AtMost queues n) (hxs : xs.length ≤ n) :
    AtMost (queues.alloc xs) n := by
  intro j zs hj
  rcases Heap.of_get?_alloc hj with ⟨-, rfl⟩ | ⟨-, hj⟩
  · exact hxs
  · exact h j zs hj

theorem AtMost.set (h : AtMost queues n) (hi : queues.get? i = some ys) (hxs : xs.length ≤ n) :
    AtMost (queues.set i xs) n := by
  intro j zs hj
  rcases Heap.of_get?_set hi hj with ⟨-, rfl⟩ | ⟨-, hj⟩
  · exact hxs
  · exact h j zs hj

end AtMost

end Queues

/-! ## Streams and queues -/

section Agreement

variable {τ : Type*} {φ : MsgNode → τ} {malloc : ℕ → Malloc} {m : Malloc} {s s' : MsgStreams}
  {q : Queues} {st : MsgStream} {xs : List ConMsgNode} {i : ℕ}

/-- What a stream shows of its queue: the number of elements, and of each element its connection and
the part of its node that the copies keep. -/
structure Shows (φ : MsgNode → τ) (st : MsgStream) (xs : List ConMsgNode) : Prop where
  count : st.m_nCount.toNat = st.m_listConMsg.length
  elements : st.tagged φ = xs.map (ConMsgNode.tagged φ)

/-- A pop returns whether the queue gave something, and leaves it in `msgNode`. -/
structure Answers (φ : MsgNode → τ) (r : Bool × ConMsgNode) (x : Option ConMsgNode) : Prop where
  flag : r.1 = x.isSome
  msgNode : ∀ c ∈ x, r.2.tagged φ = c.tagged φ

structure Agrees (φ : MsgNode → τ) (q : Queues) (s : MsgStreams) : Prop where
  next : s.streams.next = q.queues.next
  queue : ∀ i, Option.Rel (Shows φ) (s.streams.get? i) (q.queues.get? i)
  results : List.Forall₂ (Answers φ) s.results q.results

theorem shows_new : Shows φ .new [] := ⟨rfl, rfl⟩

theorem Shows.length_eq (h : Shows φ st xs) : st.m_listConMsg.length = xs.length := by
  have hlen := congrArg List.length h.elements
  rwa [MsgStream.tagged, List.length_map, List.length_map] at hlen

theorem Agrees.get (ha : Agrees φ q s) (hi : s.streams.get? i = some st) :
    ∃ xs, q.queues.get? i = some xs ∧ Shows φ st xs := by
  have hrel := ha.queue i
  rw [hi] at hrel
  cases hq : q.queues.get? i with
  | none =>
    rw [hq] at hrel
    cases hrel
  | some xs =>
    rw [hq] at hrel
    cases hrel with
    | some h => exact ⟨xs, rfl, h⟩

theorem Agrees.get_none (ha : Agrees φ q s) (hi : s.streams.get? i = none) :
    q.queues.get? i = none := by
  have hrel := ha.queue i
  rw [hi] at hrel
  cases hq : q.queues.get? i with
  | none => rfl
  | some xs =>
    rw [hq] at hrel
    cases hrel

theorem Agrees.alloc (ha : Agrees φ q s) (hst : Shows φ st xs) :
    Agrees φ { q with queues := q.queues.alloc xs } { s with streams := s.streams.alloc st } := by
  refine ⟨by rw [Heap.next_alloc, Heap.next_alloc, ha.next], ?_, ha.results⟩
  intro j
  rw [Heap.get?_alloc, Heap.get?_alloc, ha.next]
  by_cases hj : j = q.queues.next
  · rw [if_pos hj, if_pos hj]
    exact .some hst
  · rw [if_neg hj, if_neg hj]
    exact ha.queue j

theorem Agrees.set (ha : Agrees φ q s) {st₀ : MsgStream} (hi : s.streams.get? i = some st₀)
    (hst : Shows φ st xs) :
    Agrees φ { q with queues := q.queues.set i xs } { s with streams := s.streams.set i st } := by
  obtain ⟨xs₀, hq, -⟩ := ha.get hi
  refine ⟨by rw [Heap.next_set, Heap.next_set, ha.next], ?_, ha.results⟩
  intro j
  rw [Heap.get?_set hi, Heap.get?_set hq]
  by_cases hj : j = i
  · rw [if_pos hj, if_pos hj]
    exact .some hst
  · rw [if_neg hj, if_neg hj]
    exact ha.queue j

theorem Agrees.result (ha : Agrees φ q s) {r : Bool × ConMsgNode} {x : Option ConMsgNode}
    (hr : Answers φ r x) :
    Agrees φ { q with results := q.results ++ [x] } { s with results := s.results ++ [r] } :=
  ⟨ha.next, ha.queue, List.rel_append ha.results (.cons hr .nil)⟩

/-! ## What the calls do -/

/-- The copies are as many as the elements, and show the same. -/
theorem pushAll_inv (hφ : Keeps φ malloc) {xs ys zs : List ConMsgNode}
    (h : pushAll malloc xs ys = .ok zs) :
    zs.map (ConMsgNode.tagged φ) = (ys ++ xs).map (ConMsgNode.tagged φ) := by
  induction xs generalizing ys with
  | nil =>
    obtain rfl := Except.ok.inj h
    rw [List.append_nil]
  | cons x xs ih =>
    obtain ⟨x', hx, h⟩ := Run.of_bind h
    rw [ih h]
    simp [ConMsgNode.tagged_assign (hφ _) hx]

theorem Shows.pushAll (hst : Shows φ st xs) (hφ : Keeps φ malloc) {l : List ConMsgNode}
    (h : SmartServer.pushAll malloc st.m_listConMsg [] = .ok l) :
    Shows φ ⟨st.m_nCount, l⟩ xs := by
  have htag := pushAll_inv hφ h
  rw [List.nil_append] at htag
  refine ⟨?_, htag.trans hst.elements⟩
  have hlen := congrArg List.length htag
  rw [List.length_map, List.length_map] at hlen
  rw [hst.count, hlen]

/-- The list that is copied is the empty one when a stream is assigned to itself. -/
theorem assign_eq {streams : Heap MsgStream} {j : ℕ} {st₀ : MsgStream}
    (hi : streams.get? i = some st₀) (hj : streams.get? j = some st) :
    assign malloc streams i j = (do
      let m_listConMsg ← SmartServer.pushAll malloc (if j = i then [] else st.m_listConMsg) []
      pure (streams.set i ⟨st.m_nCount, m_listConMsg⟩)) := by
  simp only [assign, hi, hj, Heap.get?_set hi, Heap.set_set]
  by_cases hji : j = i
  · rw [if_pos hji, if_pos hji]
    rfl
  · rw [if_neg hji, if_neg hji]
    rfl

/-- A stream that the call names does not exist. -/
def Missing (s : MsgStreams) : Call → Prop
  | .construct => False
  | .copyConstruct _ j => s.streams.get? j = none
  | .assign _ i j => s.streams.get? i = none ∨ s.streams.get? j = none
  | .insertMsgToList _ i _ => s.streams.get? i = none
  | .popMsgFromList _ i _ => s.streams.get? i = none

/-- What a call that does not fault does. -/
inductive Effect (s : MsgStreams) : Call → MsgStreams → Prop
  | missing {c : Call} : s.Missing c → Effect s c s
  | constructed : Effect s .construct { s with streams := s.streams.alloc .new }
  | copied {malloc : ℕ → Malloc} {j : ℕ} {st : MsgStream} {l : List ConMsgNode} :
      s.streams.get? j = some st → SmartServer.pushAll malloc st.m_listConMsg [] = .ok l →
      Effect s (.copyConstruct malloc j) { s with streams := s.streams.alloc ⟨st.m_nCount, l⟩ }
  | assigned {malloc : ℕ → Malloc} {i j : ℕ} {st₀ st : MsgStream} {l : List ConMsgNode} :
      s.streams.get? i = some st₀ → s.streams.get? j = some st →
      SmartServer.pushAll malloc (if j = i then [] else st.m_listConMsg) [] = .ok l →
      Effect s (.assign malloc i j) { s with streams := s.streams.set i ⟨st.m_nCount, l⟩ }
  | inserted {m : Malloc} {i : ℕ} {msgNode c : ConMsgNode} {st : MsgStream} :
      s.streams.get? i = some st → msgNode.copy m = .ok c →
      Effect s (.insertMsgToList m i msgNode)
        { s with streams := s.streams.set i ⟨st.m_nCount + 1, st.m_listConMsg ++ [c]⟩ }
  | popped {m : Malloc} {i : ℕ} {msgNode c : ConMsgNode} {st st' : MsgStream} {flag : Bool} :
      s.streams.get? i = some st → st.popMsgFromList m msgNode = .ok (st', c, flag) →
      Effect s (.popMsgFromList m i msgNode)
        ⟨s.streams.set i st', s.results ++ [(flag, c)]⟩

theorem call_effect {c : Call} (hstep : s.call c = .ok s') : Effect s c s' := by
  cases c with
  | construct =>
    obtain rfl := Except.ok.inj hstep
    exact .constructed
  | copyConstruct malloc j =>
    simp only [MsgStreams.call] at hstep
    cases hj : s.streams.get? j with
    | none =>
      rw [hj] at hstep
      obtain rfl := Except.ok.inj hstep
      exact .missing hj
    | some st =>
      rw [hj] at hstep
      obtain ⟨st', hcopy, hend⟩ := Run.of_bind hstep
      obtain rfl := Except.ok.inj hend
      obtain ⟨l, hl, hend⟩ := Run.of_bind hcopy
      obtain rfl := Except.ok.inj hend
      exact .copied hj hl
  | assign malloc i j =>
    obtain ⟨streams, hassign, hend⟩ := Run.of_bind hstep
    obtain rfl := Except.ok.inj hend
    cases hi : s.streams.get? i with
    | none =>
      simp only [assign, hi] at hassign
      obtain rfl := Except.ok.inj hassign
      exact .missing (.inl hi)
    | some st₀ =>
      cases hj : s.streams.get? j with
      | none =>
        simp only [assign, hi, hj] at hassign
        obtain rfl := Except.ok.inj hassign
        exact .missing (.inr hj)
      | some st =>
        rw [assign_eq hi hj] at hassign
        obtain ⟨l, hl, hend⟩ := Run.of_bind hassign
        obtain rfl := Except.ok.inj hend
        exact .assigned hi hj hl
  | insertMsgToList m i msgNode =>
    simp only [MsgStreams.call] at hstep
    cases hi : s.streams.get? i with
    | none =>
      rw [hi] at hstep
      obtain rfl := Except.ok.inj hstep
      exact .missing hi
    | some st =>
      rw [hi] at hstep
      obtain ⟨st', hinsert, hend⟩ := Run.of_bind hstep
      obtain rfl := Except.ok.inj hend
      obtain ⟨c, hc, rfl⟩ := MsgStream.insertMsgToList_inv hinsert
      exact .inserted hi hc
  | popMsgFromList m i msgNode =>
    simp only [MsgStreams.call] at hstep
    cases hi : s.streams.get? i with
    | none =>
      rw [hi] at hstep
      obtain rfl := Except.ok.inj hstep
      exact .missing hi
    | some st =>
      rw [hi] at hstep
      obtain ⟨⟨st', c, flag⟩, hpop, hend⟩ := Run.of_bind hstep
      obtain rfl := Except.ok.inj hend
      exact .popped hi hpop

/-- The copies that a call makes keep the part `φ` of a node. -/
def Call.Keeps (φ : MsgNode → τ) : Call → Prop
  | .construct => True
  | .copyConstruct malloc _ => SmartServer.Keeps φ malloc
  | .assign malloc _ _ => SmartServer.Keeps φ malloc
  | .insertMsgToList m _ _ => SmartServer.Keeps φ fun _ => m
  | .popMsgFromList m _ _ => SmartServer.Keeps φ fun _ => m

/-- The call does not assign a stream with elements in it to itself. -/
def NoSelfAssign (s : MsgStreams) : Call → Prop
  | .assign _ i j => i = j → ∀ st, s.streams.get? i = some st → st.m_listConMsg = []
  | _ => True

theorem Agrees.call_missing (ha : Agrees φ q s) {c : Call} (hc : s.Missing c) : q.call c = q := by
  cases c with
  | construct => cases hc
  | copyConstruct malloc j => rw [Queues.call, ha.get_none hc]
  | assign malloc i j =>
    rcases hc with hi | hj
    · rw [Queues.call, ha.get_none hi]
    · rw [Queues.call, ha.get_none hj]
      cases q.queues.get? i <;> rfl
  | insertMsgToList m i msgNode => rw [Queues.call, ha.get_none hc]
  | popMsgFromList m i msgNode => rw [Queues.call, ha.get_none hc]

/-- **One call.** The streams stay the queues. -/
theorem Agrees.call (ha : Agrees φ q s) {c : Call} (hφ : c.Keeps φ)
    (hself : s.NoSelfAssign c)
    (hlen : ∀ i xs, (q.call c).queues.get? i = some xs → xs.length < 2 ^ 32)
    (hstep : s.call c = .ok s') : Agrees φ (q.call c) s' := by
  cases call_effect hstep with
  | missing hc => rwa [ha.call_missing hc]
  | constructed => exact ha.alloc shows_new
  | copied hj hl =>
    obtain ⟨xs, hq, hst⟩ := ha.get hj
    rw [Queues.call, hq]
    exact ha.alloc (hst.pushAll hφ hl)
  | @assigned malloc i j st₀ st l hi hj hl =>
    obtain ⟨xs₀, hq₀, -⟩ := ha.get hi
    obtain ⟨xs, hq, hst⟩ := ha.get hj
    rw [Queues.call, hq₀, hq]
    refine ha.set hi (hst.pushAll hφ (Eq.trans ?_ hl))
    by_cases hji : j = i
    · have hempty : st.m_listConMsg = [] := hself hji.symm st (hji ▸ hj)
      rw [if_pos hji, hempty]
    · rw [if_neg hji]
  | @inserted m i msgNode c st hi hc =>
    obtain ⟨xs, hq, hst⟩ := ha.get hi
    have htag := ConMsgNode.tagged_assign (hφ 0) hc
    have hfew : xs.length + 1 < 2 ^ 32 := by
      have hnew : (q.call (.insertMsgToList m i msgNode)).queues.get? i =
          some (xs ++ [msgNode]) := by
        rw [Queues.call, hq]
        exact (Heap.get?_set hq i).trans (if_pos rfl)
      have hlt := hlen i _ hnew
      rwa [List.length_append] at hlt
    rw [Queues.call, hq]
    refine ha.set hi ⟨?_, ?_⟩
    · rw [UInt32.toNat_add, hst.count, List.length_append, hst.length_eq]
      exact Nat.mod_eq_of_lt hfew
    · have helems := hst.elements
      simp only [MsgStream.tagged] at helems ⊢
      rw [List.map_append, List.map_append, helems, List.map_singleton, List.map_singleton, htag]
  | @popped m i msgNode c st st' flag hi hpop =>
    obtain ⟨xs, hq, hst⟩ := ha.get hi
    rcases MsgStream.popMsgFromList_inv hpop with
      ⟨rfl, hzero, rfl⟩ | ⟨rfl, hcount, front, rest, hlist, hc, rfl⟩
    · obtain rfl : xs = [] := by
        have hnil := hst.count
        rw [hzero, hst.length_eq] at hnil
        exact List.eq_nil_of_length_eq_zero hnil.symm
      rw [Queues.call, hq, Heap.set_get? hi]
      exact ha.result ⟨rfl, fun c hc => by cases hc⟩
    · have helems := hst.elements
      rw [MsgStream.tagged, hlist] at helems
      cases xs with
      | nil => cases helems
      | cons x xs =>
        obtain ⟨hx, hxs⟩ := List.cons.inj helems
        have hpos : 1 ≤ st.m_nCount := by
          rw [UInt32.le_iff_toNat_le, hst.count, hlist, List.length_cons]
          exact Nat.le_add_left 1 _
        have hrest : Shows φ ⟨st.m_nCount - 1, rest⟩ xs := by
          refine ⟨?_, hxs⟩
          rw [UInt32.toNat_sub_of_le _ _ hpos, hst.count, hlist]
          rfl
        rw [Queues.call, hq]
        refine (ha.set hi hrest).result ⟨rfl, ?_⟩
        rintro _ ⟨⟩
        exact (ConMsgNode.tagged_assign (hφ 0) hc).trans hx

/-! ## Faults -/

theorem copyable_copy {c c' : ConMsgNode} (h : c.copy m = .ok c') : c'.mMsgNode.Copyable := by
  obtain ⟨n, hn, hend⟩ := Run.of_bind h
  obtain rfl := Except.ok.inj hend
  cases m with
  | null junk =>
    -- the node is still the one of `ConMsgNode()`, without a buffer and with the length `0`
    obtain rfl := Except.ok.inj hn
    exact ⟨show (0 : UInt32) ≠ MsgNode.wrapLen by decide, fun _ => rfl⟩
  | block => exact (MsgNode.assign_block hn).1.copyable

theorem copyable_pushAll {xs ys zs : List ConMsgNode}
    (h : SmartServer.pushAll malloc xs ys = .ok zs) (hys : ∀ c ∈ ys, c.mMsgNode.Copyable) :
    ∀ c ∈ zs, c.mMsgNode.Copyable := by
  induction xs generalizing ys with
  | nil =>
    obtain rfl := Except.ok.inj h
    exact hys
  | cons x xs ih =>
    obtain ⟨x', hx, h⟩ := Run.of_bind h
    apply ih h
    rw [List.forall_mem_append]
    exact ⟨hys, List.forall_mem_singleton.mpr (copyable_copy hx)⟩

/-- The elements of the streams can be copied. They are copies themselves. -/
def CopyableElements (streams : Heap MsgStream) : Prop :=
  ∀ i st, streams.get? i = some st → ∀ c ∈ st.m_listConMsg, c.mMsgNode.Copyable

section CopyableElements

variable {streams : Heap MsgStream} {st₀ : MsgStream}

theorem CopyableElements.alloc (h : CopyableElements streams)
    (hst : ∀ c ∈ st.m_listConMsg, c.mMsgNode.Copyable) : CopyableElements (streams.alloc st) := by
  intro j st' hj
  rcases Heap.of_get?_alloc hj with ⟨-, rfl⟩ | ⟨-, hj⟩
  · exact hst
  · exact h j st' hj

theorem CopyableElements.set (h : CopyableElements streams) (hi : streams.get? i = some st₀)
    (hst : ∀ c ∈ st.m_listConMsg, c.mMsgNode.Copyable) :
    CopyableElements (streams.set i st) := by
  intro j st' hj
  rcases Heap.of_get?_set hi hj with ⟨-, rfl⟩ | ⟨-, hj⟩
  · exact hst
  · exact h j st' hj

end CopyableElements

/-- Whatever a call puts into a stream can be copied. -/
theorem CopyableElements.call (h : CopyableElements s.streams) {c : Call}
    (hstep : s.call c = .ok s') : CopyableElements s'.streams := by
  cases call_effect hstep with
  | missing => exact h
  | constructed => exact h.alloc nofun
  | copied _ hl => exact h.alloc (copyable_pushAll hl nofun)
  | assigned hi _ hl => exact h.set hi (copyable_pushAll hl nofun)
  | inserted hi hc =>
    apply h.set hi
    rw [List.forall_mem_append]
    exact ⟨h _ _ hi, List.forall_mem_singleton.mpr (copyable_copy hc)⟩
  | popped hi hpop =>
    apply h.set hi
    rcases MsgStream.popMsgFromList_inv hpop with
      ⟨-, -, rfl⟩ | ⟨-, -, front, rest, hlist, -, rfl⟩
    · exact h _ _ hi
    · intro c hc
      apply h _ _ hi
      rw [hlist]
      exact List.mem_cons_of_mem _ hc

end Agreement

/-! ## Runs -/

/-- What a node holds: all but what is behind its message in the buffer. -/
def contents (n : MsgNode) : UInt32 × UInt32 × UInt32 × List UInt8 :=
  (n.m_nMsgLen, n.m_nMsgId, n.m_nOffSet, n.payload)

/-- The allocations of a call succeed. -/
def Call.Allocates : Call → Prop
  | .construct => True
  | .copyConstruct malloc _ => malloc = mallocOk
  | .assign malloc _ _ => malloc = mallocOk
  | .insertMsgToList m _ _ => m = .block
  | .popMsgFromList m _ _ => m = .block

theorem keeps_contents : SmartServer.Keeps contents mallocOk := by
  intro i n c c' h
  have hcopy := MsgNode.copyable_of_copyInto h
  obtain rfl : c.copied hcopy = c' := Except.ok.inj ((MsgNode.copyInto_ok hcopy).symm.trans h)
  simp only [contents, MsgNode.payload_copied]
  rfl

theorem Call.Allocates.keeps {c : Call} (h : c.Allocates) : c.Keeps contents := by
  cases c with
  | construct => trivial
  | copyConstruct malloc j =>
    obtain rfl := h
    exact keeps_contents
  | assign malloc i j =>
    obtain rfl := h
    exact keeps_contents
  | insertMsgToList m i msgNode =>
    obtain rfl := h
    exact keeps_contents
  | popMsgFromList m i msgNode =>
    obtain rfl := h
    exact keeps_contents

/-- The streams are the queues; when no allocation has failed, also in what the elements hold. And
every element is one that can be copied. -/
structure Represents (before : List Call) (s : MsgStreams) : Prop where
  agrees : Agrees (fun _ => ()) (Queues.after before) s
  contents : (∀ c ∈ before, c.Allocates) → Agrees contents (Queues.after before) s
  copyable : CopyableElements s.streams

/-- The streams were queues until `msgNode` was inserted, which cannot be copied. -/
structure FailsAtInsert (before : List Call) (f : Fault) (first : List Call) (m : Malloc) (i : ℕ)
    (msgNode : ConMsgNode) : Prop where
  called : first ++ [.insertMsgToList m i msgNode] <+: before
  represents : ∃ s, calls first = .ok s ∧ Represents first s ∧
    s.call (.insertMsgToList m i msgNode) = .error f
  uncopyable : ¬ msgNode.mMsgNode.Copyable

theorem FailsAtInsert.append {before after first : List Call} {f : Fault} {m : Malloc} {i : ℕ}
    {msgNode : ConMsgNode} (h : FailsAtInsert before f first m i msgNode) :
    FailsAtInsert (before ++ after) f first m i msgNode :=
  ⟨h.called.trans (List.prefix_append _ _), h.represents, h.uncopyable⟩

end MsgStreams

end SmartServer
