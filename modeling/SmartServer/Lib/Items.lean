import Mathlib

/-!
# Sequences of items

A reader takes what it finds at the front of a list and leaves the rest. `many` reads items up to a
mark that ends them, and `all` reads items up to the end of the list. No item is empty, so `many`
can be computed with as many passes as there are elements and one.

**Derivations** (`many_iff`, `all_iff`). The readers find what `UpToMark` and `Whole` derive, item
by item; no user of them sees the number of passes.

**Reading back** (`many_encode`, `all_encode`). What reads single items back reads sequences back.

**Appending** (`many_append`, `all_append`). When an item does not depend on what comes behind it, a
sequence up to a mark does not either, and the items of two lists, one behind the other, are the
items of the first and the items of the second.
-/

namespace Items

/-- What is found at the front, and what comes behind it. -/
abbrev Reader (β α : Type*) := List β → Option (α × List β)

variable {α β τ : Type*}

/-! ## Up to a mark -/

/-- Fewer than `passes` items, and the mark behind them. -/
def upTo (item : Reader β (α ⊕ τ)) : ℕ → Reader β (List α × τ)
  | 0, _ => none
  | passes + 1, xs =>
    match item xs with
    | none => none
    | some (.inr mark, rest) => some (([], mark), rest)
    | some (.inl a, rest) => (upTo item passes rest).map fun y => ((a :: y.1.1, y.1.2), y.2)

/-- The items up to a mark, and the mark. -/
def many (item : Reader β (α ⊕ τ)) : Reader β (List α × τ) :=
  fun xs => upTo item (xs.length + 1) xs

/-- No item is empty. -/
structure Proper (item : Reader β (α ⊕ τ)) : Prop where
  item_lt : ∀ {xs a rest}, item xs = some (.inl a, rest) → rest.length < xs.length
  mark_le : ∀ {xs mark rest}, item xs = some (.inr mark, rest) → rest.length ≤ xs.length

/-- What is read does not depend on what comes behind it. -/
def Stable (read : Reader β α) : Prop :=
  ∀ {xs a rest}, read xs = some (a, rest) → ∀ more, read (xs ++ more) = some (a, rest ++ more)

section Many

variable {item : Reader β (α ⊕ τ)} {xs rest : List β} {a : α} {as : List α} {mark : τ}

theorem upTo_eq_many (h : Proper item) {passes : ℕ} (hpasses : xs.length < passes) :
    upTo item passes xs = many item xs := by
  suffices hsame : ∀ m n, xs.length < m → xs.length < n → upTo item m xs = upTo item n xs from
    hsame _ _ hpasses (Nat.lt_succ_self _)
  intro m
  clear hpasses
  induction m generalizing xs with
  | zero => intro n hm; cases hm
  | succ m ih =>
    intro n hm hn
    cases n with
    | zero => cases hn
    | succ n =>
      rw [upTo, upTo]
      cases hitem : item xs with
      | none => rfl
      | some x =>
        obtain ⟨x | mark, rest⟩ := x
        · have hlt := h.item_lt hitem
          have hsame : upTo item m rest = upTo item n rest := ih n (by omega) (by omega)
          simp only [hsame]
        · rfl

theorem many_of_none (h : item xs = none) : many item xs = none := by
  rw [many, upTo, h]

theorem many_of_mark (h : item xs = some (.inr mark, rest)) :
    many item xs = some (([], mark), rest) := by
  rw [many, upTo, h]

theorem many_of_item (hproper : Proper item) (h : item xs = some (.inl a, rest)) :
    many item xs = (many item rest).map fun y => ((a :: y.1.1, y.1.2), y.2) := by
  rw [many, upTo, h]
  simp only [upTo_eq_many hproper (hproper.item_lt h)]

/-- The items at the front, the mark behind them, and what is left. -/
inductive UpToMark (item : Reader β (α ⊕ τ)) : List β → List α → τ → List β → Prop
  | mark {xs rest : List β} {mark : τ} : item xs = some (.inr mark, rest) →
      UpToMark item xs [] mark rest
  | item {xs ys rest : List β} {a : α} {as : List α} {mark : τ} : item xs = some (.inl a, ys) →
      UpToMark item ys as mark rest → UpToMark item xs (a :: as) mark rest

/-- **What `many` reads** is what can be derived item by item. -/
theorem many_iff (hproper : Proper item) :
    many item xs = some ((as, mark), rest) ↔ UpToMark item xs as mark rest := by
  constructor
  · intro h
    induction hlen : xs.length using Nat.strong_induction_on generalizing xs as with
    | _ n ih =>
      cases hread : item xs with
      | none =>
        rw [many_of_none hread] at h
        cases h
      | some x =>
        obtain ⟨a | mark', ys⟩ := x
        · rw [many_of_item hproper hread] at h
          obtain ⟨⟨⟨bs, mark'⟩, rest'⟩, hbs, heq⟩ := Option.map_eq_some_iff.mp h
          obtain ⟨hpair, rfl⟩ := Prod.mk.inj heq
          obtain ⟨rfl, rfl⟩ := Prod.mk.inj hpair
          exact .item hread (ih _ (hlen ▸ hproper.item_lt hread) hbs rfl)
        · rw [many_of_mark hread] at h
          obtain ⟨hpair, rfl⟩ := Prod.mk.inj (Option.some.inj h)
          obtain ⟨rfl, rfl⟩ := Prod.mk.inj hpair
          exact .mark hread
  · intro h
    induction h with
    | mark hread => exact many_of_mark hread
    | item hread _ ih =>
      rw [many_of_item hproper hread, ih]
      rfl

theorem many_le (hproper : Proper item) (h : many item xs = some ((as, mark), rest)) :
    rest.length ≤ xs.length := by
  induction (many_iff hproper).mp h with
  | mark hread => exact hproper.mark_le hread
  | item hread hmany ih =>
    exact (ih ((many_iff hproper).mpr hmany)).trans (hproper.item_lt hread).le

/-- What holds of every item that can be read holds of all that are. -/
theorem UpToMark.forall_mem {P : α → Prop} (h : UpToMark item xs as mark rest)
    (hP : ∀ {xs a rest}, item xs = some (.inl a, rest) → P a) : ∀ a ∈ as, P a := by
  induction h with
  | mark _ => exact fun a ha => by cases ha
  | item hread _ ih =>
    intro b hb
    rcases List.mem_cons.mp hb with rfl | hb
    · exact hP hread
    · exact ih b hb

/-- When an item takes no less than its weight, a sequence takes no less than that of its items. -/
theorem UpToMark.weigh (weight : α ⊕ τ → ℕ) (h : UpToMark item xs as mark rest)
    (hitem : ∀ {xs x rest}, item xs = some (x, rest) → weight x + rest.length ≤ xs.length) :
    (as.map fun a => weight (.inl a)).sum + weight (.inr mark) + rest.length ≤ xs.length := by
  induction h with
  | mark hread =>
    rw [List.map_nil, List.sum_nil, Nat.zero_add]
    exact hitem hread
  | item hread _ ih =>
    have hfirst := hitem hread
    rw [List.map_cons, List.sum_cons]
    omega

theorem UpToMark.append (h : UpToMark item xs as mark rest) (hstable : Stable item)
    (more : List β) : UpToMark item (xs ++ more) as mark (rest ++ more) := by
  induction h with
  | mark hread => exact .mark (hstable hread more)
  | item hread _ ih => exact .item (hstable hread more) ih

/-- **A sequence is read back** when its items are. -/
theorem many_encode {encode : α → List β} (hproper : Proper item)
    (hitem : ∀ a ∈ as, ∀ ys, item (encode a ++ ys) = some (.inl a, ys))
    (hmark : item xs = some (.inr mark, rest)) :
    many item (as.flatMap encode ++ xs) = some ((as, mark), rest) := by
  induction as with
  | nil => exact many_of_mark hmark
  | cons a as ih =>
    rw [List.flatMap_cons, List.append_assoc,
      many_of_item hproper (hitem a List.mem_cons_self _),
      ih fun b hb => hitem b (List.mem_cons_of_mem _ hb)]
    rfl

theorem many_append (hproper : Proper item) (hstable : Stable item) : Stable (many item) := by
  intro xs x rest h more
  obtain ⟨as, mark⟩ := x
  exact (many_iff hproper).mpr (((many_iff hproper).mp h).append hstable more)

end Many

/-! ## Up to the end -/

/-- An item, or the end of the list. -/
def orEnd (read : Reader β α) : Reader β (α ⊕ Unit)
  | [] => some (.inr (), [])
  | x :: xs => (read (x :: xs)).map fun y => (.inl y.1, y.2)

/-- The items up to the end of the list. -/
def all (read : Reader β α) (xs : List β) : Option (List α) :=
  (many (orEnd read) xs).map fun y => y.1.1

section All

variable {read : Reader β α} {xs ys rest : List β} {a : α} {as bs : List α}

/-- No item that is read is empty. -/
def NonEmpty (read : Reader β α) : Prop :=
  ∀ {xs a rest}, read xs = some (a, rest) → rest.length < xs.length

theorem orEnd_of_ne (h : xs ≠ []) : orEnd read xs = (read xs).map fun y => (.inl y.1, y.2) := by
  cases xs with
  | nil => exact absurd rfl h
  | cons x xs => rfl

theorem NonEmpty.ne_nil (hread : NonEmpty read) (h : read xs = some (a, rest)) : xs ≠ [] := by
  rintro rfl
  exact absurd (hread h) (Nat.not_lt_zero _)

theorem NonEmpty.proper (hread : NonEmpty read) : Proper (orEnd read) where
  item_lt := by
    intro xs a rest h
    cases xs with
    | nil => cases h
    | cons x xs =>
      obtain ⟨y, hy, heq⟩ := Option.map_eq_some_iff.mp h
      obtain ⟨hinl, rfl⟩ := Prod.mk.inj heq
      exact hread hy
  mark_le := by
    intro xs mark rest h
    cases xs with
    | nil =>
      obtain ⟨-, rfl⟩ := Prod.mk.inj (Option.some.inj h)
      exact le_rfl
    | cons x xs =>
      obtain ⟨y, hy, heq⟩ := Option.map_eq_some_iff.mp h
      cases (Prod.mk.inj heq).1

@[simp] theorem all_nil : all read [] = some [] := rfl

theorem all_of_none (hxs : xs ≠ []) (h : read xs = none) : all read xs = none := by
  rw [all, many_of_none (by rw [orEnd_of_ne hxs, h]; rfl)]
  rfl

theorem all_of_read (hread : NonEmpty read) (h : read xs = some (a, rest)) :
    all read xs = (all read rest).map (a :: ·) := by
  have hitem : orEnd read xs = some (.inl a, rest) := by
    rw [orEnd_of_ne (hread.ne_nil h), h]
    rfl
  rw [all, many_of_item hread.proper hitem, Option.map_map, all, Option.map_map]
  rfl

/-- The items of a list, one behind the other. -/
inductive Whole (read : Reader β α) : List β → List α → Prop
  | nil : Whole read [] []
  | cons {xs ys : List β} {a : α} {as : List α} : read xs = some (a, ys) → Whole read ys as →
      Whole read xs (a :: as)

/-- **What `all` reads** is what can be derived item by item. -/
theorem all_iff (hread : NonEmpty read) : all read xs = some as ↔ Whole read xs as := by
  constructor
  · intro h
    induction hlen : xs.length using Nat.strong_induction_on generalizing xs as with
    | _ n ih =>
      by_cases hxs : xs = []
      · subst hxs
        obtain rfl := Option.some.inj h
        exact .nil
      · cases hfirst : read xs with
        | none =>
          rw [all_of_none hxs hfirst] at h
          cases h
        | some y =>
          obtain ⟨a, ys⟩ := y
          rw [all_of_read hread hfirst] at h
          obtain ⟨bs, hbs, rfl⟩ := Option.map_eq_some_iff.mp h
          exact .cons hfirst (ih _ (hlen ▸ hread hfirst) hbs rfl)
  · intro h
    induction h with
    | nil => rfl
    | cons hfirst _ ih =>
      rw [all_of_read hread hfirst, ih]
      rfl

theorem Whole.forall_mem {P : α → Prop} (h : Whole read xs as)
    (hP : ∀ {xs a rest}, read xs = some (a, rest) → P a) : ∀ a ∈ as, P a := by
  induction h with
  | nil => exact fun a ha => by cases ha
  | cons hfirst _ ih =>
    intro b hb
    rcases List.mem_cons.mp hb with rfl | hb
    · exact hP hfirst
    · exact ih b hb

/-- When an item takes no less than its weight, the list is no shorter than that of its items. -/
theorem Whole.weigh (weight : α → ℕ) (h : Whole read xs as)
    (hitem : ∀ {xs a rest}, read xs = some (a, rest) → weight a + rest.length ≤ xs.length) :
    (as.map weight).sum ≤ xs.length := by
  induction h with
  | nil => exact le_rfl
  | cons hfirst _ ih =>
    have hle := hitem hfirst
    rw [List.map_cons, List.sum_cons]
    omega

/-- **A list of items is read back** when the items are. -/
theorem all_encode {encode : α → List β} (hread : NonEmpty read)
    (hitem : ∀ a ∈ as, ∀ ys, read (encode a ++ ys) = some (a, ys)) :
    all read (as.flatMap encode) = some as := by
  induction as with
  | nil => rfl
  | cons a as ih =>
    rw [List.flatMap_cons, all_of_read hread (hitem a List.mem_cons_self _),
      ih fun b hb => hitem b (List.mem_cons_of_mem _ hb)]
    rfl

/-- **The items of two lists**, one behind the other. -/
theorem all_append (hread : NonEmpty read) (hstable : Stable read) (h : all read xs = some as)
    (ys : List β) : all read (xs ++ ys) = (all read ys).map (as ++ ·) := by
  induction (all_iff hread).mp h with
  | nil =>
    have hid : (fun cs : List α => [] ++ cs) = id := rfl
    rw [List.nil_append, hid, Option.map_id]
    rfl
  | cons hfirst hwhole ih =>
    rw [all_of_read hread (hstable hfirst ys), ih ((all_iff hread).mpr hwhole), Option.map_map]
    rfl

end All

end Items
