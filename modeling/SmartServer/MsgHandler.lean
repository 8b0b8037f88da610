import SmartServer.NetWorker
import SmartServer.Lib.Run

/-!
# `MsgHandler`: the dispatch table

The table of `msghandler.cpp`: one slot for each of the ids `0..MAXMESSAGEID`, holding a pointer
to the wrapper of the function registered for the id, or `NULL`. It is static, so all its slots
start out as `NULL`, and the workers share it. `registerMsgs` clears the slots below
`MAXMESSAGEID`, and registers the one function there is, for `TESTMSGSID`.

**Theorem (`handleMsg_registered_iff`).** After the registrations of two workers, `handleMsg` gets
through with a message whose id is at most `MAXMESSAGEID` exactly when the id is `TESTMSGSID`.
For the other ids it reads through the `NULL` in the slot.
-/

namespace SmartServer

def TESTMSGSID : UInt32 := 0

/-- The functions that are registered. -/
inductive MsgFunc
  | HandleTestMsg
deriving DecidableEq

/-- A wrapper; `m_pRecvWrapper` is `recvWrapper` in all of them. -/
structure HandlerWraper where
  m_pFunc : MsgFunc
deriving DecidableEq

/-- The table, and the wrappers there are. -/
structure MsgHandler where
  m_hHandlers : Vector (Option ℕ) (MAXMESSAGEID.toNat + 1)
  wrapers : Heap HandlerWraper

namespace MsgHandler

/-- The table before the program starts. -/
def initial : MsgHandler := ⟨Vector.replicate _ none, .empty⟩

/-- `m_hHandlers[i] = p`. -/
def store (t : MsgHandler) (i : ℕ) (p : Option ℕ) : MsgHandler :=
  { t with m_hHandlers := t.m_hHandlers.setIfInBounds i p }

/-- `*m_hHandlers[i]`. -/
def load (t : MsgHandler) (i : ℕ) : Exec HandlerWraper :=
  match t.m_hHandlers[i]? with
  | none => .error .outOfBounds
  | some none => .error .nullDeref
  | some (some p) =>
    match t.wrapers.get? p with
    | none => .error .useAfterFree
    | some wraper => .ok wraper

def registerMsgHandler (t : MsgHandler) (msgId : UInt32) (func : MsgFunc) : Exec MsgHandler :=
  let msgHandler := t.wrapers.next
  let t := { t with wrapers := t.wrapers.alloc ⟨func⟩ }
  if msgId ≤ MAXMESSAGEID then .ok (t.store msgId.toNat (some msgHandler))
  else .error .assertion

def registerTestMsgs (t : MsgHandler) : Exec MsgHandler :=
  t.registerMsgHandler TESTMSGSID .HandleTestMsg

/-- The loop of `registerMsgs` stops below the last slot. -/
def registerMsgs (t : MsgHandler) : Exec MsgHandler :=
  let t := (List.range MAXMESSAGEID.toNat).foldl (fun t i => t.store i none) t
  t.registerTestMsgs

/-- The pass of the loop of `deregisterMsgs` at slot `i`. The list is that of the wrappers that have
been deleted. -/
def deregisterSlot (t : MsgHandler × List ℕ) (i : ℕ) : Exec (MsgHandler × List ℕ) :=
  match t.1.m_hHandlers[i]? with
  | none => .error .outOfBounds
  | some none => .ok t
  | some (some p) =>
    match t.1.wrapers.get? p with
    | none => .error .useAfterFree
    | some _ =>
      .ok (MsgHandler.store { t.1 with wrapers := t.1.wrapers.free p } i none, t.2 ++ [p])

/-- `deregisterMsgs`, and the wrappers it deletes. Its loop has the bound of that of
`registerMsgs`. -/
def deregisterMsgs (t : MsgHandler) : Exec (MsgHandler × List ℕ) :=
  (List.range MAXMESSAGEID.toNat).foldlM deregisterSlot (t, [])

variable {σ : Type}

/-- `call` is what the registered functions do to the state. -/
def recvWrapper (call : MsgFunc → ConMsgNode → σ → Exec σ) (msgNode : ConMsgNode)
    (func : MsgFunc) (s : σ) : Exec σ :=
  call func msgNode s

/-- `handleMsg`, on the state `s`. The second half of its range test, `msgId < 0`, never holds of
a `UInt32`. -/
def handleMsg (t : MsgHandler) (call : MsgFunc → ConMsgNode → σ → Exec σ) (msgNode : ConMsgNode)
    (s : σ) : Exec (σ × Bool) :=
  let msgId := msgNode.mMsgNode.getMsgId
  if msgId > MAXMESSAGEID then .ok (s, false)
  else do
    let wraper ← t.load msgId.toNat
    let s ← recvWrapper call msgNode wraper.m_pFunc s
    pure (s, true)

/-- The table the workers find: each `NetWorker()` has called `registerMsgs`. -/
def started : Exec MsgHandler := do
  let t ← initial.registerMsgs
  t.registerMsgs

/-! ## What is registered -/

/-- The slot of `TESTMSGSID` holds its function, and all others are empty. -/
structure Registered (t : MsgHandler) : Prop where
  test : t.load TESTMSGSID.toNat = .ok ⟨.HandleTestMsg⟩
  others : ∀ i, i ≤ MAXMESSAGEID.toNat → i ≠ TESTMSGSID.toNat → t.m_hHandlers[i]? = some none

theorem getElem?_store (t : MsgHandler) (i : ℕ) (p : Option ℕ) (j : ℕ) :
    (t.store i p).m_hHandlers[j]? =
      if i = j ∧ j ≤ MAXMESSAGEID.toNat then some p else t.m_hHandlers[j]? := by
  by_cases hij : i = j
  · subst hij
    by_cases hi : i ≤ MAXMESSAGEID.toNat
    · rw [if_pos ⟨rfl, hi⟩, store]
      simp [Nat.lt_succ_of_le hi]
    · rw [if_neg fun h => hi h.2, store]
      simp [show ¬ i < MAXMESSAGEID.toNat + 1 by omega]
  · rw [if_neg fun h => hij h.1, store]
    simp [hij]

/-- The loop clears the slots it visits, and no other. -/
theorem getElem?_clear (t : MsgHandler) (is : List ℕ) (j : ℕ) (hj : j ≤ MAXMESSAGEID.toNat) :
    (is.foldl (fun t i => t.store i none) t).m_hHandlers[j]? =
      if j ∈ is then some none else t.m_hHandlers[j]? := by
  induction is generalizing t with
  | nil => simp
  | cons i is ih =>
    rw [List.foldl_cons, ih, getElem?_store]
    by_cases hi : i = j
    · subst hi
      simp [hj]
    · simp [hi, Ne.symm hi]

theorem registered_registerTestMsgs {t : MsgHandler}
    (hclear : ∀ i, i ≤ MAXMESSAGEID.toNat → t.m_hHandlers[i]? = some none) :
    ∃ t', t.registerTestMsgs = .ok t' ∧ t'.Registered := by
  set t₁ : MsgHandler := { t with wrapers := t.wrapers.alloc ⟨.HandleTestMsg⟩ } with ht₁
  refine ⟨t₁.store TESTMSGSID.toNat (some t.wrapers.next), ?_, ?_, ?_⟩
  · rw [registerTestMsgs, registerMsgHandler, if_pos (by decide : TESTMSGSID ≤ MAXMESSAGEID)]
  · rw [load, getElem?_store, if_pos ⟨rfl, by decide⟩]
    simp [store, ht₁, Heap.get?_alloc]
  · intro i hi hne
    rw [getElem?_store, if_neg fun h => hne h.1.symm]
    exact hclear i hi

/-- The last slot is not cleared, but it is never filled either. -/
theorem registered_registerMsgs {t : MsgHandler}
    (hlast : t.m_hHandlers[MAXMESSAGEID.toNat]? = some none) :
    ∃ t', t.registerMsgs = .ok t' ∧ t'.Registered := by
  apply registered_registerTestMsgs
  intro i hi
  rw [getElem?_clear _ _ _ hi]
  by_cases hlt : i < MAXMESSAGEID.toNat
  · rw [if_pos (List.mem_range.mpr hlt)]
  · obtain rfl : i = MAXMESSAGEID.toNat := by omega
    rw [if_neg (by simp), hlast]

/-- The table after the first registration. -/
def firstRegistered : MsgHandler :=
  MsgHandler.store { initial with wrapers := Heap.empty.alloc ⟨.HandleTestMsg⟩ }
    TESTMSGSID.toNat (some 0)

theorem registered_firstRegistered : firstRegistered.Registered := by
  obtain ⟨t, ht, hreg⟩ := registered_registerTestMsgs (t := initial) fun i hi => by
    simp [initial, Nat.lt_succ_of_le hi]
  rw [registerTestMsgs, registerMsgHandler,
    if_pos (by decide : TESTMSGSID ≤ MAXMESSAGEID)] at ht
  obtain rfl : firstRegistered = t := Except.ok.inj ht
  exact hreg

/-- The registrations of the two workers succeed. -/
theorem registered_started : ∃ t, started = .ok t ∧ t.Registered := by
  obtain ⟨t₁, h₁, hreg₁⟩ := registered_registerMsgs (t := initial) (by simp [initial])
  obtain ⟨t₂, h₂, hreg₂⟩ :=
    registered_registerMsgs (hreg₁.others _ le_rfl (by decide))
  exact ⟨t₂, by rw [started, h₁]; exact h₂, hreg₂⟩

/-- What is the same for all tables with the registrations can be followed with the table after the
first one. -/
theorem started_bind {β : Type} {f : MsgHandler → Exec β}
    (hf : ∀ {t t' : MsgHandler}, t.Registered → t'.Registered → f t = f t') :
    started >>= f = f firstRegistered := by
  obtain ⟨t, ht, hreg⟩ := registered_started
  rw [ht]
  exact hf hreg registered_firstRegistered

/-! ## Dispatch -/

/-- `handleMsg` calls the function registered for the id of the message, or returns `false`. -/
def Dispatched (t : MsgHandler) (msgNode : ConMsgNode) : Prop :=
  ∀ {σ : Type} (call : MsgFunc → ConMsgNode → σ → Exec σ) (s : σ),
    (∃ func, t.load msgNode.mMsgNode.getMsgId.toNat = .ok ⟨func⟩ ∧
      t.handleMsg call msgNode s = (call func msgNode s).map (·, true)) ∨
    t.handleMsg call msgNode s = .ok (s, false)

/-- `handleMsg` does nothing to the state but call one of the functions. -/
theorem handleMsg_inv {t : MsgHandler} {call : MsgFunc → ConMsgNode → σ → Exec σ}
    {msgNode : ConMsgNode} {s s' : σ} {res : Bool}
    (h : t.handleMsg call msgNode s = .ok (s', res)) :
    s' = s ∨ ∃ func, call func msgNode s = .ok s' := by
  simp only [handleMsg] at h
  split at h
  · obtain ⟨rfl, -⟩ := Prod.mk.inj (Except.ok.inj h)
    exact .inl rfl
  · obtain ⟨wraper, -, h⟩ := Run.of_bind h
    obtain ⟨s₁, hcall, h⟩ := Run.of_bind h
    obtain ⟨rfl, -⟩ := Prod.mk.inj (Except.ok.inj h)
    exact .inr ⟨_, hcall⟩

theorem handleMsg_registered {t : MsgHandler} (ht : t.Registered) {msgNode : ConMsgNode}
    (hid : msgNode.mMsgNode.getMsgId = TESTMSGSID) (call : MsgFunc → ConMsgNode → σ → Exec σ)
    (s : σ) : t.handleMsg call msgNode s = (call .HandleTestMsg msgNode s).map (·, true) := by
  rw [handleMsg, hid, if_neg (by decide), ht.test]
  show (do let s ← call .HandleTestMsg msgNode s; pure (s, true)) = _
  cases call .HandleTestMsg msgNode s <;> rfl

/-- An id the reader lets through, but nobody has registered. -/
theorem load_unregistered {t : MsgHandler} (ht : t.Registered) {msgId : UInt32}
    (hmax : msgId ≤ MAXMESSAGEID) (hid : msgId ≠ TESTMSGSID) :
    t.load msgId.toNat = .error .nullDeref := by
  have hslot := ht.others msgId.toNat (UInt32.le_iff_toNat_le.mp hmax)
    fun he => hid (UInt32.toNat_inj.mp he)
  rw [load, hslot]

theorem handleMsg_unregistered {t : MsgHandler} (ht : t.Registered) {msgNode : ConMsgNode}
    (hmax : msgNode.mMsgNode.getMsgId ≤ MAXMESSAGEID)
    (hid : msgNode.mMsgNode.getMsgId ≠ TESTMSGSID) (call : MsgFunc → ConMsgNode → σ → Exec σ)
    (s : σ) : t.handleMsg call msgNode s = .error .nullDeref := by
  rw [handleMsg, if_neg (UInt32.not_lt.mpr hmax), load_unregistered ht hmax hid]
  rfl

/-- All tables with these registrations dispatch in the same way. -/
theorem handleMsg_congr {t t' : MsgHandler} (ht : t.Registered) (ht' : t'.Registered)
    (call : MsgFunc → ConMsgNode → σ → Exec σ) (msgNode : ConMsgNode) (s : σ) :
    t.handleMsg call msgNode s = t'.handleMsg call msgNode s := by
  by_cases hid : msgNode.mMsgNode.getMsgId = TESTMSGSID
  · rw [handleMsg_registered ht hid, handleMsg_registered ht' hid]
  · by_cases hmax : msgNode.mMsgNode.getMsgId ≤ MAXMESSAGEID
    · rw [handleMsg_unregistered ht hmax hid, handleMsg_unregistered ht' hmax hid]
    · rw [handleMsg, handleMsg, if_pos (UInt32.not_le.mp hmax), if_pos (UInt32.not_le.mp hmax)]

/-- **Dispatch.** With an id the reader lets through, `handleMsg` does what it should exactly when
the id is the registered one. -/
theorem handleMsg_registered_iff {t : MsgHandler} (ht : t.Registered) {msgNode : ConMsgNode}
    (hmax : msgNode.mMsgNode.getMsgId ≤ MAXMESSAGEID) :
    t.Dispatched msgNode ↔ msgNode.mMsgNode.getMsgId = TESTMSGSID := by
  constructor
  · intro hd
    by_contra hid
    rcases @hd Unit (fun _ _ _ => .ok ()) () with ⟨func, hload, -⟩ | h
    · rw [load_unregistered ht hmax hid] at hload
      cases hload
    · rw [handleMsg_unregistered ht hmax hid] at h
      cases h
  · intro hid σ call s
    exact .inl ⟨.HandleTestMsg, by rw [hid, ht.test], handleMsg_registered ht hid call s⟩

end MsgHandler

end SmartServer
