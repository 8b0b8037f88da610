import SmartServer.MsgHandler

/-!
# The life of a wrapper

Three calls write the table of handlers: `registerMsgHandler` builds a wrapper and stores it,
`registerMsgs` empties slots and registers, `deregisterMsgs` deletes wrappers and empties their
slots. What the table should be after them is said by an ideal one (`Registry`), of which every
call that clears clears all of it, and which numbers the wrappers in the order they are built.

**Theorem (`lifecycle_iff`).** In every run of such calls no wrapper is used after it was deleted,
and none is deleted twice. The table is the ideal one, and all wrappers are in a slot or deleted,
if and only if `registerMsgHandler` is only called for an empty slot, `registerMsgs` only when all
slots are empty, and `deregisterMsgs` only when the last slot is.

The three conditions belong to three slips. A slot that is written is not looked at, so the wrapper
in it is lost; the loop of `registerMsgs` does not delete either, so a second worker loses what the
first one has registered; and both loops stop below the last slot (`registered_twice`).
-/

namespace SmartServer

namespace MsgHandler

variable {t t' : MsgHandler}

/-! ## What the calls write -/

/-- The wrapper in slot `i`. -/
def slot (t : MsgHandler) (i : ℕ) : Option ℕ := t.m_hHandlers[i]?.join

theorem slot_initial (i : ℕ) : initial.slot i = none := by
  by_cases hi : i < MAXMESSAGEID.toNat + 1
  · simp [slot, initial, hi]
  · simp [slot, initial, hi]

theorem slot_store (t : MsgHandler) (i : ℕ) (p : Option ℕ) (j : ℕ) :
    (t.store i p).slot j = if i = j ∧ j ≤ MAXMESSAGEID.toNat then p else t.slot j := by
  rw [slot, getElem?_store]
  by_cases hij : i = j ∧ j ≤ MAXMESSAGEID.toNat
  · rw [if_pos hij, if_pos hij]
    rfl
  · rw [if_neg hij, if_neg hij]
    rfl

theorem getElem?_eq_slot {i : ℕ} (hi : i ≤ MAXMESSAGEID.toNat) :
    t.m_hHandlers[i]? = some (t.slot i) := by
  have hlt : i < MAXMESSAGEID.toNat + 1 := by omega
  rw [slot, Vector.getElem?_eq_getElem hlt]
  rfl

theorem slot_eq_none {i : ℕ} (hi : MAXMESSAGEID.toNat < i) : t.slot i = none := by
  rw [slot, Vector.getElem?_eq_none (by omega)]
  rfl

theorem registerMsgHandler_spec (t : MsgHandler) {msgId : UInt32} (hid : msgId ≤ MAXMESSAGEID)
    (func : MsgFunc) :
    ∃ t', t.registerMsgHandler msgId func = .ok t' ∧ t'.wrapers = t.wrapers.alloc ⟨func⟩ ∧
      ∀ j, t'.slot j = if j = msgId.toNat then some t.wrapers.next else t.slot j := by
  have hle : msgId.toNat ≤ MAXMESSAGEID.toNat := UInt32.le_iff_toNat_le.mp hid
  refine ⟨_, if_pos hid, rfl, ?_⟩
  intro j
  rw [slot_store]
  by_cases hj : j = msgId.toNat
  · subst hj
    rw [if_pos ⟨rfl, hle⟩, if_pos rfl]
  · rw [if_neg fun h => hj h.1.symm, if_neg hj]
    rfl

/-- What was in a slot below the last one is gone; in the last one it stays. -/
theorem registerMsgs_spec (t : MsgHandler) :
    ∃ t', t.registerMsgs = .ok t' ∧ t'.wrapers = t.wrapers.alloc ⟨.HandleTestMsg⟩ ∧
      ∀ j, t'.slot j = if j = TESTMSGSID.toNat then some t.wrapers.next
        else if j < MAXMESSAGEID.toNat then none else t.slot j := by
  set t₁ := (List.range MAXMESSAGEID.toNat).foldl (fun t i => t.store i none) t with ht₁
  have hwrapers : ∀ (is : List ℕ) (t : MsgHandler),
      (is.foldl (fun t i => t.store i none) t).wrapers = t.wrapers := by
    intro is
    induction is with
    | nil => exact fun t => rfl
    | cons i is ih => exact fun t => ih (t.store i none)
  have hslot : ∀ j, t₁.slot j = if j < MAXMESSAGEID.toNat then none else t.slot j := by
    intro j
    by_cases hj : j ≤ MAXMESSAGEID.toNat
    · rw [slot, ht₁, getElem?_clear t _ j hj]
      by_cases hlt : j < MAXMESSAGEID.toNat
      · rw [if_pos (List.mem_range.mpr hlt), if_pos hlt]
        rfl
      · rw [if_neg (by simpa using hlt), if_neg hlt]
        rfl
    · rw [slot_eq_none (by omega), slot_eq_none (by omega), ite_self]
  obtain ⟨t', ht', hw, hs⟩ := t₁.registerMsgHandler_spec
    (by decide : TESTMSGSID ≤ MAXMESSAGEID) .HandleTestMsg
  have hnext : t₁.wrapers = t.wrapers := hwrapers _ t
  rw [hnext] at hw hs
  refine ⟨t', ht', hw, ?_⟩
  intro j
  rw [hs, hslot]

end MsgHandler

/-! ## The accounts of the wrappers -/

/-- The table, and the wrappers that have been deleted, in their order. -/
structure HandlerTable where
  table : MsgHandler
  deleted : List ℕ

namespace HandlerTable

inductive Call
  | registerMsgHandler (msgId : UInt32) (func : MsgFunc)
  | registerMsgs
  | deregisterMsgs
deriving DecidableEq

def initial : HandlerTable := ⟨.initial, []⟩

def call (s : HandlerTable) : Call → Exec HandlerTable
  | .registerMsgHandler msgId func => do
    let table ← s.table.registerMsgHandler msgId func
    pure { s with table }
  | .registerMsgs => do
    let table ← s.table.registerMsgs
    pure { s with table }
  | .deregisterMsgs => do
    let (table, deleted) ← s.table.deregisterMsgs
    pure ⟨table, s.deleted ++ deleted⟩

def calls (cs : List Call) : Exec HandlerTable := cs.foldlM call initial

variable {s s' : HandlerTable}

/-- A wrapper is alive. -/
def Alive (s : HandlerTable) (p : ℕ) : Prop := (s.table.wrapers.get? p).isSome

/-- What is in a slot is alive, no wrapper is in two slots, and a wrapper that is not alive has been
deleted once. -/
structure Accounts (s : HandlerTable) : Prop where
  alive : ∀ i p, s.table.slot i = some p → s.Alive p
  unique : ∀ i j p, s.table.slot i = some p → s.table.slot j = some p → i = j
  aliveKept : ∀ p, s.Alive p → p ∉ s.deleted
  deadOnce : ∀ p, p < s.table.wrapers.next → ¬ s.Alive p → s.deleted.count p = 1
  built : ∀ p ∈ s.deleted, p < s.table.wrapers.next

theorem accounts_initial : Accounts initial := by
  refine ⟨?_, ?_, ?_, ?_, ?_⟩
  · intro i p h
    rw [initial, MsgHandler.slot_initial] at h
    cases h
  · intro i j p h
    rw [initial, MsgHandler.slot_initial] at h
    cases h
  · intro p h
    cases h
  · intro p hp
    cases hp
  · intro p hp
    cases hp

theorem Alive.lt_next {p : ℕ} (h : s.Alive p) : p < s.table.wrapers.next := by
  obtain ⟨w, hw⟩ := Option.isSome_iff_exists.mp h
  exact Heap.lt_next_of_get? hw

theorem alive_alloc {t' : MsgHandler} {w : HandlerWraper}
    (hw : t'.wrapers = s.table.wrapers.alloc w) (p : ℕ) :
    Alive ⟨t', s.deleted⟩ p ↔ p = s.table.wrapers.next ∨ s.Alive p := by
  rw [Alive, hw, Heap.get?_alloc]
  by_cases hp : p = s.table.wrapers.next
  · simp [hp]
  · simp [hp, Alive]

/-- A wrapper that is built is not in a slot yet. -/
theorem Accounts.slot_ne_next (ha : Accounts s) (i : ℕ) :
    s.table.slot i ≠ some s.table.wrapers.next := by
  intro h
  exact lt_irrefl _ (ha.alive i _ h).lt_next

/-- A new wrapper in one slot; of the others only some are emptied. -/
theorem Accounts.register (ha : Accounts s) {t' : MsgHandler} {w : HandlerWraper} {i : ℕ}
    (hw : t'.wrapers = s.table.wrapers.alloc w)
    (hslot : ∀ j p, t'.slot j = some p →
      j = i ∧ p = s.table.wrapers.next ∨ s.table.slot j = some p) :
    Accounts ⟨t', s.deleted⟩ := by
  have hnext : t'.wrapers.next = s.table.wrapers.next + 1 := by rw [hw, Heap.next_alloc]
  refine ⟨?_, ?_, ?_, ?_, ?_⟩
  · intro j p hp
    rw [alive_alloc hw]
    rcases hslot j p hp with ⟨-, hp⟩ | hp
    · exact .inl hp
    · exact .inr (ha.alive j p hp)
  · intro j k p hj hk
    rcases hslot j p hj with ⟨rfl, rfl⟩ | hj
    · rcases hslot k _ hk with ⟨rfl, -⟩ | hk
      · rfl
      · exact absurd hk (ha.slot_ne_next k)
    · rcases hslot k p hk with ⟨rfl, rfl⟩ | hk
      · exact absurd hj (ha.slot_ne_next j)
      · exact ha.unique j k p hj hk
  · intro p hp
    rcases (alive_alloc hw p).mp hp with rfl | hp
    · intro hdel
      exact lt_irrefl _ (ha.built _ hdel)
    · exact ha.aliveKept p hp
  · intro p hp hdead
    rw [alive_alloc hw, not_or] at hdead
    show s.deleted.count p = 1
    apply ha.deadOnce p ?_ hdead.2
    have hlt : p < s.table.wrapers.next + 1 := hnext ▸ hp
    have hne := hdead.1
    omega
  · intro p hp
    show p < t'.wrapers.next
    rw [hnext]
    exact Nat.lt_succ_of_lt (ha.built p hp)

theorem alive_free (s : HandlerTable) (i p : ℕ) (deleted : List ℕ) (q : ℕ) :
    Alive ⟨MsgHandler.store { s.table with wrapers := s.table.wrapers.free p } i none, deleted⟩ q ↔
      q ≠ p ∧ s.Alive q := by
  rw [Alive, MsgHandler.store, Heap.get?_free]
  by_cases hq : q = p
  · simp [hq]
  · simp [hq, Alive]

/-- The wrapper in slot `i` is deleted. -/
theorem Accounts.delete (ha : Accounts s) {i p : ℕ} (hp : s.table.slot i = some p) :
    Accounts ⟨MsgHandler.store { s.table with wrapers := s.table.wrapers.free p } i none,
      s.deleted ++ [p]⟩ := by
  have hslot : ∀ j q, MsgHandler.slot
      (MsgHandler.store { s.table with wrapers := s.table.wrapers.free p } i none) j = some q →
      j ≠ i ∧ s.table.slot j = some q := by
    intro j q hq
    rw [MsgHandler.slot_store] at hq
    by_cases hj : i = j ∧ j ≤ MAXMESSAGEID.toNat
    · rw [if_pos hj] at hq
      cases hq
    · rw [if_neg hj] at hq
      refine ⟨?_, hq⟩
      rintro rfl
      have hlt : MAXMESSAGEID.toNat < j := not_le.mp fun h => hj ⟨rfl, h⟩
      rw [MsgHandler.slot_eq_none hlt] at hp
      cases hp
  have hfresh : p ∉ s.deleted := ha.aliveKept p (ha.alive i p hp)
  refine ⟨?_, ?_, ?_, ?_, ?_⟩
  · intro j q hq
    obtain ⟨hj, hold⟩ := hslot j q hq
    rw [alive_free]
    refine ⟨?_, ha.alive j q hold⟩
    rintro rfl
    exact hj (ha.unique j i q hold hp)
  · intro j k q hj hk
    exact ha.unique j k q (hslot j q hj).2 (hslot k q hk).2
  · intro q hq hdel
    obtain ⟨hne, hq⟩ := (alive_free s i p _ q).mp hq
    rcases List.mem_append.mp hdel with hdel | hdel
    · exact ha.aliveKept q hq hdel
    · exact hne (List.mem_singleton.mp hdel)
  · intro q hq hdead
    rw [alive_free, not_and] at hdead
    show (s.deleted ++ [p]).count q = 1
    rw [List.count_append]
    by_cases hqp : q = p
    · rw [hqp, List.count_eq_zero_of_not_mem hfresh, List.count_singleton_self]
    · have hnext : q < s.table.wrapers.next := by simpa [MsgHandler.store] using hq
      rw [ha.deadOnce q hnext (hdead hqp),
        List.count_eq_zero_of_not_mem fun h => hqp (List.mem_singleton.mp h)]
  · intro q hq
    have hlt : q < s.table.wrapers.next := by
      rcases List.mem_append.mp hq with hq | hq
      · exact ha.built q hq
      · rw [List.mem_singleton.mp hq]
        exact (ha.alive i p hp).lt_next
    simpa [MsgHandler.store] using hlt

/-- The first `k` slots have been visited by the loop of `deregisterMsgs`. -/
structure Visited (s : HandlerTable) (k : ℕ) (s' : HandlerTable) : Prop where
  accounts : Accounts s'
  slot : ∀ j, s'.table.slot j = if j < k then none else s.table.slot j
  next : s'.table.wrapers.next = s.table.wrapers.next
  alive : ∀ p, s'.Alive p ↔ s.Alive p ∧ ∀ j, j < k → s.table.slot j ≠ some p

theorem deregisterLoop_spec (ha : Accounts s) {k : ℕ} (hk : k ≤ MAXMESSAGEID.toNat) :
    ∃ t deleted, (List.range k).foldlM MsgHandler.deregisterSlot (s.table, []) =
      .ok (t, deleted) ∧ Visited s k ⟨t, s.deleted ++ deleted⟩ := by
  induction k with
  | zero => exact ⟨s.table, [], rfl, by rwa [List.append_nil], by simp, rfl, by simp [Alive]⟩
  | succ k ih =>
    obtain ⟨t, deleted, hrun, hv⟩ := ih (Nat.le_of_succ_le hk)
    have hself : t.slot k = s.table.slot k := by
      rw [show t.slot k = _ from hv.slot k, if_neg (lt_irrefl k)]
    have hget := t.getElem?_eq_slot (Nat.le_of_succ_le hk)
    rw [List.range_succ, Run.foldlM_concat, hrun]
    simp only [bind, Except.bind, MsgHandler.deregisterSlot, hget]
    cases hp : t.slot k with
    | none =>
      refine ⟨t, deleted, rfl, hv.accounts, ?_, hv.next, ?_⟩
      · intro j
        rw [hv.slot j]
        rcases Nat.lt_trichotomy j k with hj | rfl | hj
        · rw [if_pos hj, if_pos (Nat.lt_succ_of_lt hj)]
        · rw [if_neg (lt_irrefl j), if_pos (Nat.lt_succ_self j), ← hself, hp]
        · rw [if_neg (by omega), if_neg (by omega)]
      · intro p
        rw [hv.alive p, Nat.forall_lt_succ_right, ← hself, hp]
        simp
    | some p =>
      obtain ⟨w, hw⟩ := Option.isSome_iff_exists.mp (hv.accounts.alive k p hp)
      simp only at hw
      simp only [hw]
      refine ⟨_, _, rfl, ?_, ?_, ?_, ?_⟩
      · rw [← List.append_assoc]
        exact hv.accounts.delete hp
      · intro j
        rw [MsgHandler.slot_store]
        by_cases hj : k = j
        · subst hj
          rw [if_pos ⟨rfl, Nat.le_of_succ_le hk⟩, if_pos (Nat.lt_succ_self k)]
        · rw [if_neg fun h => hj h.1]
          show t.slot j = _
          rw [show t.slot j = _ from hv.slot j]
          by_cases hlt : j < k
          · rw [if_pos hlt, if_pos (Nat.lt_succ_of_lt hlt)]
          · rw [if_neg hlt, if_neg (by omega)]
      · simpa [MsgHandler.store] using hv.next
      · intro q
        rw [alive_free ⟨t, s.deleted ++ deleted⟩, hv.alive q, Nat.forall_lt_succ_right, ← hself, hp,
          ne_eq, ne_eq, Option.some_inj]
        tauto

/-! ## The ideal table -/

/-- How many wrappers have been built, and what each slot should hold: the number of a wrapper, and
its function. -/
structure Registry where
  built : ℕ
  slot : ℕ → Option (ℕ × MsgFunc)

namespace Registry

def empty : Registry := ⟨0, fun _ => none⟩

def register (r : Registry) (i : ℕ) (func : MsgFunc) : Registry :=
  ⟨r.built + 1, Function.update r.slot i (some (r.built, func))⟩

def clear (r : Registry) : Registry := { r with slot := fun _ => none }

theorem slot_register (r : Registry) (i : ℕ) (func : MsgFunc) (j : ℕ) :
    (r.register i func).slot j = if j = i then some (r.built, func) else r.slot j :=
  Function.update_apply _ _ _ _

def call (r : Registry) : Call → Registry
  | .registerMsgHandler msgId func => r.register msgId.toNat func
  | .registerMsgs => r.clear.register TESTMSGSID.toNat .HandleTestMsg
  | .deregisterMsgs => r.clear

/-- What the table should be after some calls. -/
def after (cs : List Call) : Registry := cs.foldl call empty

theorem after_concat (cs : List Call) (c : Call) : after (cs ++ [c]) = (after cs).call c := by
  rw [after, List.foldl_append]
  rfl

end Registry

/-- The table after some calls: each slot holds the wrapper of the last registration since it was
cleared, no slot holds one right after `deregisterMsgs`, and a wrapper that was built is in one
slot, or has been deleted once. -/
structure Lifecycle (before : List Call) (s : HandlerTable) : Prop where
  held : ∀ i, i ≤ MAXMESSAGEID.toNat →
    s.table.slot i = ((Registry.after before).slot i).map Prod.fst
  func : ∀ i x, (Registry.after before).slot i = some x → s.table.wrapers.get? x.1 = some ⟨x.2⟩
  cleared : before.getLast? = some .deregisterMsgs →
    ∀ i, i ≤ MAXMESSAGEID.toNat → s.table.slot i = none
  accounted : ∀ p, p < s.table.wrapers.next →
    (∃! i, s.table.slot i = some p) ∧ p ∉ s.deleted ∨
      (∀ i, s.table.slot i ≠ some p) ∧ s.deleted.count p = 1

/-- The ids that the assertions admit. -/
def Call.Admitted : Call → Prop
  | .registerMsgHandler msgId _ => msgId ≤ MAXMESSAGEID
  | .registerMsgs => True
  | .deregisterMsgs => True

/-- The slots that a call should empty or write, and does not look at, are empty. -/
def EmptySlots (s : HandlerTable) : Call → Prop
  | .registerMsgHandler msgId _ => s.table.slot msgId.toNat = none
  | .registerMsgs => ∀ i, i ≤ MAXMESSAGEID.toNat → s.table.slot i = none
  | .deregisterMsgs => s.table.slot MAXMESSAGEID.toNat = none

variable {before : List Call}

/-- As many wrappers have been built as the ideal table says, and their accounts are right. -/
structure Sound (before : List Call) (s : HandlerTable) : Prop where
  accounts : Accounts s
  built : s.table.wrapers.next = (Registry.after before).built

theorem Sound.call (hs : Sound before s) {c : Call} (hc : c.Admitted) :
    ∃ s', s.call c = .ok s' ∧ Sound (before ++ [c]) s' := by
  obtain ⟨ha, hb⟩ := hs
  cases c with
  | registerMsgHandler msgId func =>
    obtain ⟨t, ht, hw, hslot⟩ := s.table.registerMsgHandler_spec hc func
    refine ⟨⟨t, s.deleted⟩, by rw [HandlerTable.call, ht]; rfl, ?_, ?_⟩
    · apply ha.register hw
      intro j p hp
      rw [hslot] at hp
      by_cases hj : j = msgId.toNat
      · rw [if_pos hj] at hp
        exact .inl ⟨hj, (Option.some.inj hp).symm⟩
      · rw [if_neg hj] at hp
        exact .inr hp
    · rw [Registry.after_concat, hw, Heap.next_alloc, hb]
      rfl
  | registerMsgs =>
    obtain ⟨t, ht, hw, hslot⟩ := s.table.registerMsgs_spec
    refine ⟨⟨t, s.deleted⟩, by rw [HandlerTable.call, ht]; rfl, ?_, ?_⟩
    · apply ha.register hw
      intro j p hp
      rw [hslot] at hp
      by_cases hj : j = TESTMSGSID.toNat
      · rw [if_pos hj] at hp
        exact .inl ⟨hj, (Option.some.inj hp).symm⟩
      · rw [if_neg hj] at hp
        by_cases hlt : j < MAXMESSAGEID.toNat
        · rw [if_pos hlt] at hp
          cases hp
        · rw [if_neg hlt] at hp
          exact .inr hp
    · rw [Registry.after_concat, hw, Heap.next_alloc, hb]
      rfl
  | deregisterMsgs =>
    obtain ⟨t, deleted, ht, hv⟩ := deregisterLoop_spec ha le_rfl
    refine ⟨⟨t, s.deleted ++ deleted⟩, ?_, hv.accounts, ?_⟩
    · rw [HandlerTable.call, MsgHandler.deregisterMsgs, ht]
      rfl
    · rw [Registry.after_concat, hv.next, hb]
      rfl

theorem Accounts.deleted_nodup (ha : Accounts s) : s.deleted.Nodup := by
  rw [List.nodup_iff_count_le_one]
  intro p
  by_cases hp : p ∈ s.deleted
  · exact (ha.deadOnce p (ha.built p hp) fun h => ha.aliveKept p h hp).le
  · rw [List.count_eq_zero_of_not_mem hp]
    exact Nat.zero_le 1

/-- With the accounts right, all that can be wrong is that a wrapper is lost. -/
theorem Accounts.accounted_iff (ha : Accounts s) :
    (∀ p, p < s.table.wrapers.next →
        (∃! i, s.table.slot i = some p) ∧ p ∉ s.deleted ∨
          (∀ i, s.table.slot i ≠ some p) ∧ s.deleted.count p = 1) ↔
      ∀ p, s.Alive p → ∃ i, s.table.slot i = some p := by
  constructor
  · intro h p hp
    rcases h p hp.lt_next with ⟨⟨i, hi, -⟩, -⟩ | ⟨-, hone⟩
    · exact ⟨i, hi⟩
    · rw [List.count_eq_zero_of_not_mem (ha.aliveKept p hp)] at hone
      cases hone
  · intro h p hp
    by_cases hal : s.Alive p
    · obtain ⟨i, hi⟩ := h p hal
      exact .inl ⟨⟨i, hi, fun j hj => ha.unique j i p hj hi⟩, ha.aliveKept p hal⟩
    · exact .inr ⟨fun i hi => hal (ha.alive i p hi), ha.deadOnce p hp hal⟩

/-! ## Which calls keep the table right -/

/-- A wrapper that is built has its function, and the others keep theirs. -/
theorem func_register {r : Registry} {t : MsgHandler} {func : MsgFunc}
    (hb : s.table.wrapers.next = r.built)
    (hr : ∀ i x, r.slot i = some x → s.table.wrapers.get? x.1 = some ⟨x.2⟩)
    (hw : t.wrapers = s.table.wrapers.alloc ⟨func⟩) (i j : ℕ) (x : ℕ × MsgFunc)
    (hx : (r.register i func).slot j = some x) : t.wrapers.get? x.1 = some ⟨x.2⟩ := by
  rw [hw, Heap.get?_alloc]
  rw [Registry.slot_register] at hx
  by_cases hj : j = i
  · rw [if_pos hj] at hx
    obtain rfl := Option.some.inj hx
    rw [if_pos hb.symm]
  · rw [if_neg hj] at hx
    have hget := hr j x hx
    rw [if_neg (Heap.lt_next_of_get? hget).ne, hget]

/-- A wrapper that was in a slot is lost when it is found in none of the slots that are left. -/
theorem Lifecycle.not_lost {s' : HandlerTable} {cs : List Call} (ha : Accounts s)
    (ha' : Accounts s') (hl : Lifecycle cs s') (hal : ∀ p, s.Alive p → s'.Alive p) {i p : ℕ}
    (hp : s.table.slot i = some p) : ∃ j, s'.table.slot j = some p :=
  ha'.accounted_iff.mp hl.accounted p (hal p (ha.alive i p hp))

theorem registerMsgHandler_iff (hs : Sound before s) (hl : Lifecycle before s)
    {msgId : UInt32} {func : MsgFunc} (hid : msgId ≤ MAXMESSAGEID) :
    (∃ s', s.call (.registerMsgHandler msgId func) = .ok s' ∧
        Lifecycle (before ++ [.registerMsgHandler msgId func]) s') ↔
      s.EmptySlots (.registerMsgHandler msgId func) := by
  obtain ⟨s', hcall, ha', -⟩ := hs.call (c := .registerMsgHandler msgId func) hid
  obtain ⟨ha, hb⟩ := hs
  obtain ⟨t, ht, hw, hslot⟩ := s.table.registerMsgHandler_spec hid func
  obtain rfl : (⟨t, s.deleted⟩ : HandlerTable) = s' := by
    rw [call, ht] at hcall
    exact Except.ok.inj hcall
  constructor
  · rintro ⟨s', hs', hl'⟩
    obtain rfl := Except.ok.inj (hcall.symm.trans hs')
    cases hp : s.table.slot msgId.toNat with
    | none => exact hp
    | some p =>
      exfalso
      obtain ⟨j, hj⟩ := hl'.not_lost ha ha' (fun q hq => (alive_alloc hw q).mpr (.inr hq)) hp
      rw [hslot] at hj
      by_cases hji : j = msgId.toNat
      · rw [if_pos hji] at hj
        exact (ha.alive _ p hp).lt_next.ne (Option.some.inj hj).symm
      · rw [if_neg hji] at hj
        exact hji (ha.unique j _ p hj hp)
  · intro hempty
    refine ⟨_, hcall, ?_, ?_, ?_, ?_⟩
    · intro i hi
      rw [hslot, Registry.after_concat, Registry.call, Registry.slot_register]
      by_cases hi' : i = msgId.toNat
      · rw [if_pos hi', if_pos hi', hb]
        rfl
      · rw [if_neg hi', if_neg hi', hl.held i hi]
    · rw [Registry.after_concat]
      exact func_register hb hl.func hw msgId.toNat
    · intro hlast
      simp at hlast
    · rw [ha'.accounted_iff]
      intro p hp
      rcases (alive_alloc hw p).mp hp with rfl | hp
      · exact ⟨msgId.toNat, by rw [hslot, if_pos rfl]⟩
      · obtain ⟨i, hi⟩ := ha.accounted_iff.mp hl.accounted p hp
        refine ⟨i, ?_⟩
        rw [hslot, if_neg, hi]
        rintro rfl
        rw [hempty] at hi
        cases hi

theorem registerMsgs_iff (hs : Sound before s) (hl : Lifecycle before s) :
    (∃ s', s.call .registerMsgs = .ok s' ∧ Lifecycle (before ++ [.registerMsgs]) s') ↔
      s.EmptySlots .registerMsgs := by
  obtain ⟨s', hcall, ha', -⟩ := hs.call (c := .registerMsgs) trivial
  obtain ⟨ha, hb⟩ := hs
  obtain ⟨t, ht, hw, hslot⟩ := s.table.registerMsgs_spec
  obtain rfl : (⟨t, s.deleted⟩ : HandlerTable) = s' := by
    rw [call, ht] at hcall
    exact Except.ok.inj hcall
  constructor
  · rintro ⟨s', hs', hl'⟩ i hi
    obtain rfl := Except.ok.inj (hcall.symm.trans hs')
    cases hp : s.table.slot i with
    | none => rfl
    | some p =>
      exfalso
      obtain ⟨j, hj⟩ := hl'.not_lost ha ha' (fun q hq => (alive_alloc hw q).mpr (.inr hq)) hp
      rw [hslot] at hj
      by_cases htest : j = TESTMSGSID.toNat
      · rw [if_pos htest] at hj
        exact (ha.alive i p hp).lt_next.ne (Option.some.inj hj).symm
      rw [if_neg htest] at hj
      by_cases hlt : j < MAXMESSAGEID.toNat
      · rw [if_pos hlt] at hj
        cases hj
      -- what is left is the last slot, which the ideal table has cleared
      rw [if_neg hlt] at hj
      obtain rfl := ha.unique j i p hj hp
      have hheld := hl'.held j hi
      rw [hslot, if_neg htest, if_neg hlt, hj, Registry.after_concat, Registry.call,
        Registry.slot_register, if_neg htest] at hheld
      cases hheld
  · intro hempty
    have hnone : ∀ i, s.table.slot i = none := by
      intro i
      by_cases hi : i ≤ MAXMESSAGEID.toNat
      · exact hempty i hi
      · exact MsgHandler.slot_eq_none (not_le.mp hi)
    refine ⟨_, hcall, ?_, ?_, ?_, ?_⟩
    · intro i hi
      rw [hslot, Registry.after_concat, Registry.call, Registry.slot_register, hnone, ite_self]
      by_cases htest : i = TESTMSGSID.toNat
      · rw [if_pos htest, if_pos htest, hb]
        rfl
      · rw [if_neg htest, if_neg htest]
        rfl
    · rw [Registry.after_concat]
      refine func_register (r := (Registry.after before).clear) hb ?_ hw TESTMSGSID.toNat
      intro i x hx
      cases hx
    · intro hlast
      simp at hlast
    · rw [ha'.accounted_iff]
      intro p hp
      rcases (alive_alloc hw p).mp hp with rfl | hp
      · exact ⟨TESTMSGSID.toNat, by rw [hslot, if_pos rfl]⟩
      · obtain ⟨i, hi⟩ := ha.accounted_iff.mp hl.accounted p hp
        rw [hnone] at hi
        cases hi

theorem deregisterMsgs_iff (hs : Sound before s) (hl : Lifecycle before s) :
    (∃ s', s.call .deregisterMsgs = .ok s' ∧ Lifecycle (before ++ [.deregisterMsgs]) s') ↔
      s.EmptySlots .deregisterMsgs := by
  obtain ⟨ha, hb⟩ := hs
  obtain ⟨t, deleted, ht, hv⟩ := deregisterLoop_spec ha le_rfl
  have hcall : s.call .deregisterMsgs = .ok ⟨t, s.deleted ++ deleted⟩ := by
    rw [call, MsgHandler.deregisterMsgs, ht]
    rfl
  have hlast : t.slot MAXMESSAGEID.toNat = s.table.slot MAXMESSAGEID.toNat := by
    rw [show t.slot _ = _ from hv.slot _, if_neg (lt_irrefl _)]
  constructor
  · rintro ⟨s', hs', hl'⟩
    obtain rfl := Except.ok.inj (hcall.symm.trans hs')
    rw [EmptySlots, ← hlast]
    exact hl'.cleared (by simp) _ le_rfl
  · intro hempty
    have hnone : ∀ i, i ≤ MAXMESSAGEID.toNat → t.slot i = none := by
      intro i hi
      rcases hi.lt_or_eq with hlt | rfl
      · rw [show t.slot i = _ from hv.slot i, if_pos hlt]
      · exact hlast.trans hempty
    refine ⟨_, hcall, ?_, ?_, fun _ => hnone, ?_⟩
    · intro i hi
      rw [Registry.after_concat]
      exact hnone i hi
    · rw [Registry.after_concat]
      intro i x hx
      cases hx
    · rw [hv.accounts.accounted_iff]
      intro p hp
      obtain ⟨hal, hkept⟩ := (hv.alive p).mp hp
      obtain ⟨i, hi⟩ := ha.accounted_iff.mp hl.accounted p hal
      exfalso
      rcases lt_trichotomy i MAXMESSAGEID.toNat with hlt | rfl | hlt
      · exact hkept i hlt hi
      · rw [hempty] at hi
        cases hi
      · rw [MsgHandler.slot_eq_none hlt] at hi
        cases hi

/-- **One call.** -/
theorem call_lifecycle_iff (hs : Sound before s) (hl : Lifecycle before s) {c : Call}
    (hc : c.Admitted) :
    (∃ s', s.call c = .ok s' ∧ Lifecycle (before ++ [c]) s') ↔ s.EmptySlots c := by
  cases c with
  | registerMsgHandler msgId func => exact registerMsgHandler_iff hs hl hc
  | registerMsgs => exact registerMsgs_iff hs hl
  | deregisterMsgs => exact deregisterMsgs_iff hs hl

/-! ## Runs -/

theorem sound_initial : Sound [] initial := ⟨accounts_initial, rfl⟩

theorem lifecycle_initial : Lifecycle [] initial := by
  refine ⟨?_, ?_, ?_, ?_⟩
  · intro i hi
    exact MsgHandler.slot_initial i
  · intro i x hx
    cases hx
  · intro hlast
    cases hlast
  · intro p hp
    cases hp

/-- No run with ids that are admitted fails. -/
theorem calls_sound {cs : List Call} (hids : ∀ c ∈ cs, c.Admitted) :
    ∃ s, calls cs = .ok s ∧ Sound cs s := by
  refine Run.progress Sound sound_initial ?_
  rintro before c after s rfl hs
  exact hs.call (hids c (by simp))

/-- **The life of the wrappers.** Whatever is registered and cleared, nothing is used after it was
deleted or deleted twice. The table is right after each call of a run if and only if no call finds
a wrapper in a slot that it empties or writes without looking. -/
theorem lifecycle_iff (cs : List Call) (hids : ∀ c ∈ cs, c.Admitted) :
    (∃ s, calls cs = .ok s ∧ s.deleted.Nodup) ∧
      ((∀ before, before <+: cs → ∃ s, calls before = .ok s ∧ Lifecycle before s) ↔
        Run.EachStep calls EmptySlots cs) := by
  constructor
  · obtain ⟨s, hrun, hs⟩ := calls_sound hids
    exact ⟨s, hrun, hs.accounts.deleted_nodup⟩
  · refine Run.progress_iff_eachStep lifecycle_initial ?_
    rintro before c after s rfl hrun hl
    obtain ⟨s₁, hrun₁, hs⟩ := calls_sound fun c' hc' => hids c' (List.mem_append_left _ hc')
    obtain rfl := Except.ok.inj (hrun₁.symm.trans hrun)
    exact call_lifecycle_iff hs hl (hids c (by simp))

/-- A table that is cleared with `deregisterMsgs` can be used again. -/
theorem lifecycle_iff_reused :
    ∃ s, calls [.registerMsgs, .deregisterMsgs, .registerMsgs] = .ok s ∧
      Lifecycle [.registerMsgs, .deregisterMsgs, .registerMsgs] s := by
  have hids : ∀ c ∈ [Call.registerMsgs, .deregisterMsgs, .registerMsgs], c.Admitted := by
    intro c hc
    simp only [List.mem_cons, List.not_mem_nil, or_false] at hc
    rcases hc with rfl | rfl | rfl <;> trivial
  refine (lifecycle_iff _ hids).2.mpr ?_ _ List.prefix_rfl
  have hfirst : initial.EmptySlots .registerMsgs := fun i _ => MsgHandler.slot_initial i
  refine Run.eachStep_cons.mpr ⟨hfirst, fun s₁ h₁ => ?_⟩
  obtain ⟨s, hs, hl₁⟩ := (registerMsgs_iff sound_initial lifecycle_initial).mpr hfirst
  obtain rfl := Except.ok.inj (hs.symm.trans h₁)
  have hsecond : s.EmptySlots .deregisterMsgs := hl₁.held _ le_rfl
  refine Run.eachStep_cons.mpr ⟨hsecond, fun s₂ h₂ => ?_⟩
  obtain ⟨s', hs', hsound⟩ := sound_initial.call (c := .registerMsgs) trivial
  obtain rfl := Except.ok.inj (hs'.symm.trans hs)
  obtain ⟨s, hs, hl₂⟩ := (deregisterMsgs_iff hsound hl₁).mpr hsecond
  obtain rfl := Except.ok.inj (hs.symm.trans h₂)
  exact Run.eachStep_cons.mpr ⟨hl₂.cleared rfl, fun _ _ => Run.eachStep_nil⟩

/-- Two workers are built, and the wrapper of the first is lost; a handler is registered for the
last id, and is still there after `deregisterMsgs`. -/
theorem registered_twice :
    (∃ s, calls [.registerMsgs, .registerMsgs] = .ok s ∧ s.Alive 0 ∧ 0 ∉ s.deleted ∧
        (∀ i, s.table.slot i ≠ some 0) ∧ ¬ Lifecycle [.registerMsgs, .registerMsgs] s) ∧
      ∃ s, calls [.registerMsgHandler MAXMESSAGEID .HandleTestMsg, .deregisterMsgs] = .ok s ∧
        s.table.slot MAXMESSAGEID.toNat = some 0 ∧
        ¬ Lifecycle [.registerMsgHandler MAXMESSAGEID .HandleTestMsg, .deregisterMsgs] s := by
  constructor
  · obtain ⟨t₁, ht₁, hw₁, hslot₁⟩ := MsgHandler.initial.registerMsgs_spec
    obtain ⟨t₂, ht₂, hw₂, hslot₂⟩ := t₁.registerMsgs_spec
    have hrun : calls [.registerMsgs, .registerMsgs] = .ok ⟨t₂, []⟩ := by
      simp only [calls, initial, List.foldlM_cons, List.foldlM_nil, call, ht₁, ht₂, bind,
        Except.bind, pure, Except.pure]
    have hal : Alive ⟨t₂, []⟩ 0 := by
      rw [Alive, hw₂, hw₁]
      rfl
    have hlost : ∀ i, t₂.slot i ≠ some 0 := by
      intro i
      rw [hslot₂, hw₁]
      by_cases htest : i = TESTMSGSID.toNat
      · rw [if_pos htest]
        decide
      · rw [if_neg htest, hslot₁, if_neg htest, MsgHandler.slot_initial, ite_self, ite_self]
        exact nofun
    refine ⟨_, hrun, hal, List.not_mem_nil, hlost, ?_⟩
    intro hl
    rcases hl.accounted 0 hal.lt_next with ⟨⟨i, hi, -⟩, -⟩ | ⟨-, hone⟩
    · exact hlost i hi
    · cases hone
  · obtain ⟨t, ht, -, hslot⟩ :=
      MsgHandler.initial.registerMsgHandler_spec (UInt32.le_refl MAXMESSAGEID) .HandleTestMsg
    obtain ⟨s, hs, hsound⟩ := sound_initial.call
      (c := .registerMsgHandler MAXMESSAGEID .HandleTestMsg) (UInt32.le_refl _)
    obtain rfl : (⟨t, []⟩ : HandlerTable) = s := by
      rw [call, initial, ht] at hs
      exact Except.ok.inj hs
    obtain ⟨t', deleted, hloop, hv⟩ := deregisterLoop_spec hsound.accounts le_rfl
    have hlast : t'.slot MAXMESSAGEID.toNat = some 0 := by
      rw [show t'.slot _ = _ from hv.slot _, if_neg (lt_irrefl _), hslot, if_pos rfl]
      rfl
    refine ⟨⟨t', deleted⟩, ?_, hlast, ?_⟩
    · rw [calls, List.foldlM_cons, hs]
      simp only [bind, Except.bind, List.foldlM_cons, List.foldlM_nil, call,
        MsgHandler.deregisterMsgs, hloop, pure, Except.pure, List.nil_append]
    · intro hl
      have hnone := hl.cleared rfl MAXMESSAGEID.toNat le_rfl
      rw [hlast] at hnone
      cases hnone

end HandlerTable

end SmartServer
