import SmartServer.Lib.Memory

/-!
# Bytes that arrive in pieces

A reader asks for a number of bytes and is given fewer, so that a sequence of bytes comes in
several pieces. How it is cut is said by `size`: the piece that begins at place `p` of the stream
has `size p` bytes, but one at least, and none beyond the last. Every way to cut a stream is of this
kind (`sizes`).

**A buffer that every piece is stored into at its beginning** (`overwriteAll`) holds at each place
what the last piece brought that is long enough (`lastAt`). So it is filled rightly exactly when
`Lands` holds, which looks at the pieces alone: it does when there is one piece
(`lands_singleton`). When there are more, nothing is ever stored at the last place, so a buffer of
which nothing is known is filled rightly by one piece only (`forall_lands_cut_iff`).
-/

namespace Pieces

variable {α : Type*}

/-! ## Cutting -/

/-- At most `fuel` pieces of `bytes`, the first of which begins at place `p`. -/
def cutAtMost (size : ℕ → ℕ) : ℕ → ℕ → List α → List (List α)
  | 0, _, _ => []
  | _ + 1, _, [] => []
  | fuel + 1, p, b :: bs =>
    (b :: bs).take (max 1 (size p)) ::
      cutAtMost size fuel (p + max 1 (size p)) ((b :: bs).drop (max 1 (size p)))

/-- The pieces of `bytes`, the first of which begins at place `p`. -/
def cut (size : ℕ → ℕ) (p : ℕ) (bytes : List α) : List (List α) :=
  cutAtMost size bytes.length p bytes

variable {size : ℕ → ℕ} {p : ℕ} {bytes : List α}

theorem cutAtMost_eq {fuel : ℕ} (h : bytes.length ≤ fuel) :
    cutAtMost size fuel p bytes = cut size p bytes := by
  induction fuel using Nat.strong_induction_on generalizing p bytes with
  | _ fuel ih =>
    cases bytes with
    | nil => cases fuel <;> rfl
    | cons b bs =>
      obtain ⟨fuel, rfl⟩ : ∃ n, fuel = n + 1 := ⟨fuel - 1, by simp at h; omega⟩
      have hdrop : ((b :: bs).drop (max 1 (size p))).length ≤ bs.length := by
        rw [List.length_drop, List.length_cons]
        omega
      have hle : bs.length ≤ fuel := Nat.le_of_succ_le_succ h
      rw [cut, List.length_cons, cutAtMost, cutAtMost, ih fuel (Nat.lt_succ_self _)
        (hdrop.trans hle)]
      congr 1
      rcases hle.lt_or_eq with hlt | heq
      · exact (ih bs.length (hlt.trans (Nat.lt_succ_self _)) hdrop).symm
      · rw [heq]
        exact (ih fuel (Nat.lt_succ_self _) (heq ▸ hdrop)).symm

@[simp] theorem cut_nil : cut size p ([] : List α) = [] := rfl

/-- The first piece, and those of what is left. -/
theorem cut_eq (h : bytes ≠ []) :
    cut size p bytes =
      bytes.take (max 1 (size p)) ::
        cut size (p + max 1 (size p)) (bytes.drop (max 1 (size p))) := by
  cases bytes with
  | nil => exact absurd rfl h
  | cons b bs =>
    rw [cut, List.length_cons, cutAtMost, cutAtMost_eq]
    rw [List.length_drop, List.length_cons]
    omega

/-- A piece that may have all bytes is the only one. -/
theorem cut_of_le (h : bytes ≠ []) (hsize : bytes.length ≤ max 1 (size p)) :
    cut size p bytes = [bytes] := by
  rw [cut_eq h, List.take_of_length_le hsize, List.drop_eq_nil_of_le hsize, cut_nil]

theorem flatten_cut : (cut size p bytes).flatten = bytes := by
  induction hn : bytes.length using Nat.strong_induction_on generalizing p bytes with
  | _ n ih =>
    by_cases h : bytes = []
    · rw [h]
      rfl
    · have hpos := List.length_pos_iff.mpr h
      rw [cut_eq h, List.flatten_cons, ih _ _ rfl, List.take_append_drop]
      rw [List.length_drop]
      omega

theorem length_le_of_mem_cut {piece : List α} (h : piece ∈ cut size p bytes) :
    piece.length ≤ bytes.length := by
  have hle := (List.sublist_flatten_of_mem h).length_le
  rwa [flatten_cut] at hle

/-- The `size` that cuts a stream into these pieces. -/
def sizes : List (List α) → ℕ → ℕ
  | [], _ => 0
  | piece :: pieces, p => if p = 0 then piece.length else sizes pieces (p - piece.length)

theorem sizes_append {before : List (List α)} (hne : ∀ piece ∈ before, piece ≠ [])
    (piece : List α) (after : List (List α)) :
    sizes (before ++ piece :: after) before.flatten.length = piece.length := by
  induction before with
  | nil => exact if_pos rfl
  | cons first before ih =>
    have hpos := List.length_pos_iff.mpr (hne first (by simp))
    rw [List.flatten_cons, List.length_append, List.cons_append, sizes, if_neg (by omega),
      Nat.add_sub_cancel_left]
    exact ih fun q hq => hne q (List.mem_cons_of_mem _ hq)

/-! ## Storing every piece at the beginning -/

/-- Store one piece after the other at the beginning. -/
def overwriteAll (blk : List α) (pieces : List (List α)) : List α :=
  pieces.foldl (fun blk piece => Block.overwrite blk 0 piece) blk

/-- What the last piece that is longer than `i` has at place `i`. -/
def lastAt (blk : List α) (pieces : List (List α)) (i : ℕ) : Option α :=
  match pieces.reverse.find? fun piece => i < piece.length with
  | some piece => piece[i]?
  | none => blk[i]?

/-- At every place the last piece that is long enough has the right one of `bytes`; where none is
long enough, it is there already. -/
def Lands (blk bytes : List α) (pieces : List (List α)) : Prop :=
  ∀ i < bytes.length, lastAt blk pieces i = bytes[i]?

instance [DecidableEq α] (blk bytes : List α) (pieces : List (List α)) :
    Decidable (Lands blk bytes pieces) :=
  inferInstanceAs (Decidable (∀ i < bytes.length, lastAt blk pieces i = bytes[i]?))

variable {blk : List α} {pieces : List (List α)}

theorem getElem?_overwrite_zero (blk data : List α) (i : ℕ) :
    (Block.overwrite blk 0 data)[i]? = if i < data.length then data[i]? else blk[i]? := by
  rw [Block.overwrite, List.take_zero, List.nil_append, Nat.zero_add]
  by_cases hi : i < data.length
  · rw [if_pos hi, List.getElem?_append_left hi]
  · rw [if_neg hi, List.getElem?_append_right (not_lt.mp hi), List.getElem?_drop,
      Nat.add_sub_cancel' (not_lt.mp hi)]

theorem overwriteAll_cons (piece : List α) :
    overwriteAll blk (piece :: pieces) = overwriteAll (Block.overwrite blk 0 piece) pieces := rfl

theorem overwriteAll_concat (piece : List α) :
    overwriteAll blk (pieces ++ [piece]) = Block.overwrite (overwriteAll blk pieces) 0 piece := by
  rw [overwriteAll, List.foldl_append]
  rfl

theorem lastAt_concat (piece : List α) (i : ℕ) :
    lastAt blk (pieces ++ [piece]) i =
      if i < piece.length then piece[i]? else lastAt blk pieces i := by
  rw [lastAt, List.reverse_append, List.reverse_singleton, List.singleton_append,
    List.find?_cons]
  by_cases hi : i < piece.length
  · simp only [hi, decide_true, if_true]
  · simp only [hi, decide_false, if_false]
    rfl

/-- **What is in the buffer.** -/
theorem getElem?_overwriteAll (i : ℕ) : (overwriteAll blk pieces)[i]? = lastAt blk pieces i := by
  induction pieces using List.reverseRecOn with
  | nil => rfl
  | append_singleton pieces piece ih =>
    rw [overwriteAll_concat, lastAt_concat, getElem?_overwrite_zero, ih]

theorem lands_iff :
    Lands blk bytes pieces ↔ (overwriteAll blk pieces).take bytes.length = bytes := by
  constructor
  · intro h
    apply List.ext_getElem?
    intro i
    by_cases hi : i < bytes.length
    · rw [List.getElem?_take_of_lt hi, getElem?_overwriteAll, h i hi]
    · rw [List.getElem?_eq_none (by rw [List.length_take]; omega),
        List.getElem?_eq_none (not_lt.mp hi)]
  · intro h i hi
    rw [← getElem?_overwriteAll, ← List.getElem?_take_of_lt hi, h]

theorem length_overwriteAll (h : ∀ piece ∈ pieces, piece.length ≤ blk.length) :
    (overwriteAll blk pieces).length = blk.length := by
  induction pieces using List.reverseRecOn with
  | nil => rfl
  | append_singleton pieces piece ih =>
    have hlen := ih fun p hp => h p (List.mem_append_left _ hp)
    rw [overwriteAll_concat, Block.length_overwrite, hlen]
    rw [Nat.zero_add, hlen]
    exact h piece (by simp)

/-- One piece lands. -/
theorem lands_singleton (blk bytes : List α) : Lands blk bytes [bytes] := by
  intro i hi
  have hlast : lastAt blk ([] ++ [bytes]) i = _ := lastAt_concat bytes i
  exact hlast.trans (if_pos hi)

/-- Nothing is stored at a place that no piece reaches. -/
theorem lastAt_of_le {i : ℕ} (h : ∀ piece ∈ pieces, piece.length ≤ i) :
    lastAt blk pieces i = blk[i]? := by
  induction pieces using List.reverseRecOn with
  | nil => rfl
  | append_singleton pieces piece ih =>
    rw [lastAt_concat, if_neg (not_lt.mpr (h piece (by simp)))]
    exact ih fun q hq => h q (List.mem_append_left _ hq)

/-- When the first piece is not all, no piece reaches the last place. -/
theorem length_lt_of_mem_cut (hsize : max 1 (size p) < bytes.length) {piece : List α}
    (h : piece ∈ cut size p bytes) : piece.length < bytes.length := by
  have hne : bytes ≠ [] := by
    rintro rfl
    cases hsize
  rw [cut_eq hne] at h
  rcases List.mem_cons.mp h with rfl | h
  · rw [List.length_take]
    omega
  · have hle := length_le_of_mem_cut h
    rw [List.length_drop] at hle
    omega

/-- **A buffer that may hold anything** is filled rightly exactly when there is one piece. -/
theorem forall_lands_cut_iff [Nontrivial α] {n : ℕ} (hn : bytes.length ≤ n) (h : bytes ≠ []) :
    (∀ blk : List α, blk.length = n → Lands blk bytes (cut size p bytes)) ↔
      bytes.length ≤ max 1 (size p) := by
  constructor
  · intro hall
    by_contra hsize
    have hlast : bytes.length - 1 < bytes.length :=
      Nat.sub_lt (List.length_pos_iff.mpr h) Nat.one_pos
    obtain ⟨a, ha⟩ := exists_ne (bytes[bytes.length - 1])
    have hland := hall (List.replicate n a) (List.length_replicate) _ hlast
    rw [lastAt_of_le, List.getElem?_replicate_of_lt (hlast.trans_le hn),
      List.getElem?_eq_getElem hlast] at hland
    · exact ha (Option.some.inj hland)
    · intro piece hpiece
      exact Nat.le_sub_one_of_lt (length_lt_of_mem_cut (not_le.mp hsize) hpiece)
  · intro hsize blk _
    rw [cut_of_le h hsize]
    exact lands_singleton blk bytes

end Pieces
