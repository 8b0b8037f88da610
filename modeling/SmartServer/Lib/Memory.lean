import Mathlib

/-!
# Blocks, owned lists and heaps

Three memory shapes, each with the invariant that makes an illegal value impossible to build:

* a **block** is a list of bytes of fixed length; `overwrite` stores into it in place;
* an **owned list** is a `list<T *>` that owns its elements: every element has its own address,
  addresses are handed out in increasing order and never again, so an address that is no longer
  in the list is dangling forever;
* a **heap** maps addresses to objects; freeing an address leaves it dead for good.

An address that outlives its object can be recognised in all of them, which is what a model of
code with raw pointers has to be able to say.
-/

/-! ## Blocks -/

namespace Block

variable {α : Type*}

/-- Store `data` at position `off`. -/
def overwrite (blk : List α) (off : ℕ) (data : List α) : List α :=
  blk.take off ++ data ++ blk.drop (off + data.length)

theorem length_overwrite {blk data : List α} {off : ℕ} (h : off + data.length ≤ blk.length) :
    (overwrite blk off data).length = blk.length := by
  simp only [overwrite, List.length_append, List.length_take, List.length_drop]
  omega

/-- What lies below the store is untouched, and the data follows it. -/
theorem take_overwrite {blk data : List α} {off : ℕ} (h : off ≤ blk.length) :
    (overwrite blk off data).take (off + data.length) = blk.take off ++ data := by
  have hlen : (blk.take off ++ data).length = off + data.length := by simp [h]
  rw [overwrite, ← hlen, List.take_left]

theorem take_overwrite_of_le {blk data : List α} {off n : ℕ} (hn : n ≤ off)
    (h : off ≤ blk.length) : (overwrite blk off data).take n = blk.take n := by
  rw [overwrite, List.append_assoc, List.take_append_of_le_length (by simp; omega),
    List.take_take, min_eq_left hn]

end Block

/-! ## Owned lists -/

/-- A list of pointers that owns what they point to. -/
structure OwnedList (α : Type*) where
  /-- The elements with their addresses, front first. -/
  cells : List (ℕ × α)
  /-- The address the next allocation gets. -/
  next : ℕ
  increasing : (cells.map Prod.fst).Pairwise (· < ·)
  fresh : ∀ p ∈ cells.map Prod.fst, p < next
deriving DecidableEq

namespace OwnedList

variable {α : Type*}

def empty : OwnedList α := ⟨[], 0, by simp, by simp⟩

/-- The object at address `p`, when it is still owned. -/
def get? (l : OwnedList α) (p : ℕ) : Option α := l.cells.lookup p

/-- The objects, front first. -/
def values (l : OwnedList α) : List α := l.cells.map Prod.snd

/-- `push_back(new T(a))`; the new object's address is `l.next`. -/
def pushBack (l : OwnedList α) (a : α) : OwnedList α where
  cells := l.cells ++ [(l.next, a)]
  next := l.next + 1
  increasing := by
    rw [List.map_append, List.pairwise_append]
    refine ⟨l.increasing, by simp, ?_⟩
    intro p hp q hq
    obtain rfl : q = l.next := by simpa using hq
    exact l.fresh p hp
  fresh p hp := by
    rw [List.map_append, List.mem_append] at hp
    rcases hp with hp | hp
    · exact Nat.lt_succ_of_lt (l.fresh p hp)
    · obtain rfl : p = l.next := by simpa using hp
      exact Nat.lt_succ_self _

/-- Delete the front object and drop its pointer. -/
def popFront (l : OwnedList α) : OwnedList α where
  cells := l.cells.tail
  next := l.next
  increasing := by rw [List.map_tail]; exact l.increasing.sublist (List.tail_sublist _)
  fresh p hp := l.fresh p (by rw [List.map_tail] at hp; exact List.mem_of_mem_tail hp)

/-- Write the object at address `p` in place. -/
def set (l : OwnedList α) (p : ℕ) (a : α) : OwnedList α where
  cells := l.cells.map fun c => if c.1 = p then (c.1, a) else c
  next := l.next
  increasing := by
    rw [List.map_map, show Prod.fst ∘ (fun c : ℕ × α => if c.1 = p then (c.1, a) else c) =
      Prod.fst from funext fun c => by simp only [Function.comp]; split <;> rfl]
    exact l.increasing
  fresh q hq := l.fresh q (by
    rwa [List.map_map, show Prod.fst ∘ (fun c : ℕ × α => if c.1 = p then (c.1, a) else c) =
      Prod.fst from funext fun c => by simp only [Function.comp]; split <;> rfl] at hq)

@[simp] theorem values_popFront (l : OwnedList α) : l.popFront.values = l.values.tail := by
  simp [values, popFront, List.map_tail]

@[simp] theorem cells_popFront (l : OwnedList α) : l.popFront.cells = l.cells.tail := rfl

/-- An address is in the list exactly when its object is alive. -/
theorem get?_isSome (l : OwnedList α) (p : ℕ) :
    (l.get? p).isSome ↔ p ∈ l.cells.map Prod.fst := by
  rw [get?, List.lookup_isSome_iff]
  simp

/-- An object that is found is one of the list. -/
theorem mem_of_get? {l : OwnedList α} {p : ℕ} {a : α} (h : l.get? p = some a) :
    (p, a) ∈ l.cells := by
  obtain ⟨before, after, hcells, -⟩ := List.lookup_eq_some_iff.mp h
  rw [hcells]
  simp

theorem notMem_init {l : OwnedList α} {init : List (ℕ × α)} {p : ℕ} {a : α}
    (h : l.cells = init ++ [(p, a)]) : p ∉ init.map Prod.fst := by
  intro hp
  have hinc := l.increasing
  rw [h, List.map_append, List.pairwise_append] at hinc
  exact lt_irrefl p (hinc.2.2 p hp p (by simp))

/-- Reading through a pointer to the last element. -/
theorem get?_last {l : OwnedList α} {init : List (ℕ × α)} {p : ℕ} {a : α}
    (h : l.cells = init ++ [(p, a)]) : l.get? p = some a := by
  have hinit : init.lookup p = none := by
    rw [List.lookup_eq_none_iff]
    intro c hc
    rw [bne_iff_ne]
    rintro rfl
    exact notMem_init h (List.mem_map_of_mem hc)
  rw [get?, h, List.lookup_append, hinit]
  simp [List.lookup]

/-- Deleting at the front leaves the objects behind where they are. -/
theorem get?_of_drop {l l' : OwnedList α} {k : ℕ} (h : l'.cells = l.cells.drop k) {p : ℕ} {a : α}
    (hp : l'.get? p = some a) : l.get? p = some a := by
  have hmem : p ∈ (l.cells.drop k).map Prod.fst := by
    rw [← h, ← get?_isSome, hp]
    rfl
  have hfront : (l.cells.take k).lookup p = none := by
    rw [List.lookup_eq_none_iff]
    intro c hc
    rw [bne_iff_ne]
    rintro rfl
    have hinc := l.increasing
    rw [← List.take_append_drop k l.cells, List.map_append, List.pairwise_append] at hinc
    exact lt_irrefl c.1 (hinc.2.2 c.1 (List.mem_map_of_mem hc) c.1 hmem)
  rw [get?, h] at hp
  rw [get?, ← List.take_append_drop k l.cells, List.lookup_append, hfront]
  exact hp

/-- What is written through a pointer is read back. -/
theorem get?_set_self {l : OwnedList α} {p : ℕ} {a : α} (h : l.get? p = some a) (b : α) :
    (l.set p b).get? p = some b := by
  simp only [get?, set] at h ⊢
  generalize l.cells = cells at h ⊢
  induction cells with
  | nil => cases h
  | cons c cells ih =>
    obtain ⟨q, x⟩ := c
    by_cases hq : q = p
    · simp [hq]
    · have hne : (p == q) = false := by simpa using Ne.symm hq
      rw [List.lookup_cons, hne] at h
      rw [List.map_cons, if_neg hq, List.lookup_cons, hne]
      exact ih h

/-- Writing through a pointer to the last element. -/
theorem cells_set_last {l : OwnedList α} {init : List (ℕ × α)} {p : ℕ} {a : α}
    (h : l.cells = init ++ [(p, a)]) (b : α) : (l.set p b).cells = init ++ [(p, b)] := by
  have hinit : init.map (fun c => if c.1 = p then (c.1, b) else c) = init := by
    rw [List.map_congr_left (g := id), List.map_id]
    intro c hc
    rw [if_neg]; · rfl
    rintro rfl
    exact notMem_init h (List.mem_map_of_mem hc)
  simp [set, h, hinit]

end OwnedList

/-! ## Heaps -/

/-- Objects by address. A freed address keeps its place, so it is never handed out again. -/
structure Heap (α : Type*) where
  cells : List (Option α)
deriving DecidableEq

namespace Heap

variable {α : Type*}

def empty : Heap α := ⟨[]⟩

/-- The object at address `p`, when it is alive. -/
def get? (m : Heap α) (p : ℕ) : Option α := m.cells[p]?.join

/-- The address the next allocation gets. -/
def next (m : Heap α) : ℕ := m.cells.length

def alloc (m : Heap α) (a : α) : Heap α := ⟨m.cells ++ [some a]⟩

/-- Write the object at address `p` in place. -/
def set (m : Heap α) (p : ℕ) (a : α) : Heap α := ⟨m.cells.set p (some a)⟩

def free (m : Heap α) (p : ℕ) : Heap α := ⟨m.cells.set p none⟩

@[simp] theorem get?_empty (p : ℕ) : (empty : Heap α).get? p = none := rfl

theorem lt_next_of_get? {m : Heap α} {p : ℕ} {a : α} (h : m.get? p = some a) : p < m.next := by
  by_contra hp
  rw [get?, List.getElem?_eq_none (not_lt.mp hp)] at h
  cases h

/-- What holds of all objects that are alive holds of one that is looked up. -/
theorem forall_get? {m : Heap α} {P : α → Prop} (h : ∀ c ∈ m.cells, ∀ a ∈ c, P a) {p : ℕ} {a : α}
    (hp : m.get? p = some a) : P a :=
  h (some a) (List.mem_of_getElem? (Option.join_eq_some_iff.mp hp)) a rfl

theorem get?_alloc (m : Heap α) (a : α) (p : ℕ) :
    (m.alloc a).get? p = if p = m.next then some a else m.get? p := by
  rcases lt_trichotomy p m.next with hp | rfl | hp
  · rw [if_neg hp.ne, get?, alloc, List.getElem?_append_left hp, get?]
  · simp [get?, alloc, next]
  · rw [if_neg hp.ne', get?, get?, alloc, List.getElem?_eq_none, List.getElem?_eq_none hp.le]
    simpa [next] using hp

theorem get?_set {m : Heap α} {p : ℕ} {a b : α} (h : m.get? p = some b) (q : ℕ) :
    (m.set p a).get? q = if q = p then some a else m.get? q := by
  have hp := lt_next_of_get? h
  by_cases hq : q = p
  · subst hq
    rw [if_pos rfl, get?, set, List.getElem?_set_self hp]
    rfl
  · rw [if_neg hq, get?, set, List.getElem?_set_ne (Ne.symm hq), get?]

/-- What is found after an allocation is the new object, or was there before. -/
theorem of_get?_alloc {m : Heap α} {q : ℕ} {a c : α} (hq : (m.alloc a).get? q = some c) :
    q = m.next ∧ c = a ∨ q ≠ m.next ∧ m.get? q = some c := by
  rw [get?_alloc] at hq
  by_cases hnew : q = m.next
  · rw [if_pos hnew] at hq
    exact .inl ⟨hnew, (Option.some.inj hq).symm⟩
  · rw [if_neg hnew] at hq
    exact .inr ⟨hnew, hq⟩

/-- What is found after a write is what was written, or was there before. -/
theorem of_get?_set {m : Heap α} {p q : ℕ} {a b c : α} (h : m.get? p = some b)
    (hq : (m.set p a).get? q = some c) : q = p ∧ c = a ∨ q ≠ p ∧ m.get? q = some c := by
  rw [get?_set h] at hq
  by_cases hqp : q = p
  · rw [if_pos hqp] at hq
    exact .inl ⟨hqp, (Option.some.inj hq).symm⟩
  · rw [if_neg hqp] at hq
    exact .inr ⟨hqp, hq⟩

theorem set_set (m : Heap α) (p : ℕ) (a b : α) : (m.set p a).set p b = m.set p b := by
  rw [set, set, set, List.set_set]

/-- Writing what is there changes nothing. -/
theorem set_get? {m : Heap α} {p : ℕ} {a : α} (h : m.get? p = some a) : m.set p a = m := by
  have hp : m.cells[p]? = some (some a) := Option.join_eq_some_iff.mp h
  obtain ⟨hlt, hcell⟩ := List.getElem?_eq_some_iff.mp hp
  rw [set, ← hcell, List.set_getElem_self]

theorem get?_free (m : Heap α) (p q : ℕ) :
    (m.free p).get? q = if q = p then none else m.get? q := by
  by_cases hq : q = p
  · subst hq
    rw [if_pos rfl, get?, free]
    by_cases hp : q < m.cells.length
    · rw [List.getElem?_set_self hp]; rfl
    · rw [List.getElem?_eq_none (by simpa using hp)]; rfl
  · rw [if_neg hq, get?, free, List.getElem?_set_ne (Ne.symm hq), get?]

theorem of_get?_free {m : Heap α} {p q : ℕ} {c : α} (hq : (m.free p).get? q = some c) :
    q ≠ p ∧ m.get? q = some c := by
  rw [get?_free] at hq
  by_cases hqp : q = p
  · rw [if_pos hqp] at hq
    cases hq
  · rw [if_neg hqp] at hq
    exact ⟨hqp, hq⟩

@[simp] theorem next_alloc (m : Heap α) (a : α) : (m.alloc a).next = m.next + 1 := by
  simp [next, alloc]

@[simp] theorem next_set (m : Heap α) (p : ℕ) (a : α) : (m.set p a).next = m.next := by
  simp [next, set]

@[simp] theorem next_free (m : Heap α) (p : ℕ) : (m.free p).next = m.next := by
  simp [next, free]

end Heap
