import Mathlib.Logic.Function.Basic
import Mathlib.Logic.Relation

/-!
# Threads and a lock

Threads share a state of type `σ`, and look at it only between `lock` and `unlock`. Besides, thread
`i` has a state of type `α i` of its own, and there is one of type `τ` that is shared without a
lock.

**Theorem (`exists_pending`).** Whatever is reached step by step is reached as well when all that a
thread does between `lock` and `unlock` is one step, but that the section that is going on, if there
is one, has not begun.

The proof moves a section to the moment of its `unlock`. Until then nobody else has looked at what
the lock protects, so the others' steps can be taken as if the section had not begun (`Pending`).
-/

namespace Sections

open Relation (ReflTransGen)

/-- What the threads do. -/
structure Program (ι : Type*) (α : ι → Type*) (σ τ : Type*) where
  /-- A step away from the lock. -/
  outside : ∀ i, α i × τ → α i × τ → Prop
  /-- `lock` returns. -/
  enter : ∀ i, α i → α i → Prop
  /-- A step under the lock. -/
  inside : ∀ i, α i × σ → α i × σ → Prop
  /-- `unlock`. -/
  leave : ∀ i, α i × τ → α i → Prop

@[ext] structure State (ι : Type*) (α : ι → Type*) (σ τ : Type*) where
  threads : ∀ i, α i
  guarded : σ
  shared : τ
  /-- Who holds the lock. -/
  holder : Option ι

variable {ι : Type*} [DecidableEq ι] {α : ι → Type*} {σ τ : Type*} (P : Program ι α σ τ)
  {s s' s₀ : State ι α σ τ}

/-- A step of one thread. -/
inductive Step (s : State ι α σ τ) : State ι α σ τ → Prop
  | outside {i : ι} {a : α i} {t : τ} (hout : s.holder ≠ some i)
      (h : P.outside i (s.threads i, s.shared) (a, t)) :
      Step s { s with threads := Function.update s.threads i a, shared := t }
  | enter {i : ι} {a : α i} (hfree : s.holder = none) (h : P.enter i (s.threads i) a) :
      Step s { s with threads := Function.update s.threads i a, holder := some i }
  | inside {i : ι} {a : α i} {g : σ} (hin : s.holder = some i)
      (h : P.inside i (s.threads i, s.guarded) (a, g)) :
      Step s { s with threads := Function.update s.threads i a, guarded := g }
  | leave {i : ι} {a : α i} (hin : s.holder = some i)
      (h : P.leave i (s.threads i, s.shared) a) :
      Step s { s with threads := Function.update s.threads i a, holder := none }

/-- A step of one thread, when a section under the lock is one step. -/
inductive AtomicStep (s : State ι α σ τ) : State ι α σ τ → Prop
  | outside {i : ι} {a : α i} {t : τ} (h : P.outside i (s.threads i, s.shared) (a, t)) :
      AtomicStep s { s with threads := Function.update s.threads i a, shared := t }
  | underLock {i : ι} {a b c : α i} {g : σ} (henter : P.enter i (s.threads i) a)
      (hinside : ReflTransGen (P.inside i) (a, s.guarded) (b, g))
      (hleave : P.leave i (b, s.shared) c) :
      AtomicStep s { s with threads := Function.update s.threads i c, guarded := g }

/-- `s₀` is `s`, but that the section that is going on, if there is one, has not begun. -/
inductive Pending (s₀ s : State ι α σ τ) : Prop
  | free (hfree : s.holder = none) (heq : s₀ = s)
  | held {i : ι} {a : α i} (hin : s.holder = some i)
      (heq : s₀ = { s with
        threads := Function.update s.threads i (s₀.threads i)
        guarded := s₀.guarded
        holder := none })
      (henter : P.enter i (s₀.threads i) a)
      (hinside : ReflTransGen (P.inside i) (a, s₀.guarded) (s.threads i, s.guarded))

variable {P}

theorem Pending.free_left (h : Pending P s₀ s) : s₀.holder = none := by
  cases h with
  | free hfree heq => exact heq ▸ hfree
  | held _ heq _ _ => rw [heq]

/-- The threads that are not in the section are where they are. -/
theorem Pending.threads_eq (h : Pending P s₀ s) {j : ι} (hout : s.holder ≠ some j) :
    s₀.threads j = s.threads j := by
  cases h with
  | free _ heq => rw [heq]
  | @held i a hin heq _ _ =>
    have hji : j ≠ i := by
      rintro rfl
      exact hout hin
    rw [heq]
    exact Function.update_of_ne hji _ _

theorem Pending.shared_eq (h : Pending P s₀ s) : s₀.shared = s.shared := by
  cases h with
  | free _ heq => rw [heq]
  | held _ heq _ _ => rw [heq]

theorem Pending.outside (hp : Pending P s₀ s) {j : ι} {b : α j} {t : τ}
    (hout : s.holder ≠ some j) :
    Pending P { s₀ with threads := Function.update s₀.threads j b, shared := t }
      { s with threads := Function.update s.threads j b, shared := t } := by
  cases hp with
  | free hfree heq =>
    subst heq
    exact .free hfree rfl
  | @held i a hin heq henter hinside =>
    have hij : i ≠ j := by
      rintro rfl
      exact hout hin
    refine .held (i := i) (a := a) hin ?_ ?_ ?_
    · have hthreads : s₀.threads = Function.update s.threads i (s₀.threads i) :=
        congrArg State.threads heq
      have hholder : s₀.holder = none := congrArg State.holder heq
      simp only [hholder, State.mk.injEq, and_true, Function.update_of_ne hij]
      rw [Function.update_comm hij.symm, ← hthreads]
    · simpa only [Function.update_of_ne hij] using henter
    · simpa only [Function.update_of_ne hij] using hinside

/-- **A step** is none of the other level, or one. -/
theorem Pending.step (hp : Pending P s₀ s) (h : Step P s s') :
    ∃ s₀', ReflTransGen (AtomicStep P) s₀ s₀' ∧ Pending P s₀' s' := by
  cases h with
  | @outside i a t hout h =>
    refine ⟨_, .single (.outside (i := i) (a := a) (t := t) ?_), hp.outside hout⟩
    rwa [hp.threads_eq hout, hp.shared_eq]
  | @enter i a hfree h =>
    cases hp with
    | held hin _ _ _ =>
      rw [hfree] at hin
      cases hin
    | free _ heq =>
      subst heq
      refine ⟨s₀, .refl, .held (i := i) (a := a) rfl ?_ h ?_⟩
      · ext1
        · simp
        · rfl
        · rfl
        · exact hfree
      · show ReflTransGen _ _ (Function.update s₀.threads i a i, s₀.guarded)
        rw [Function.update_self]
  | @inside i a g hin h =>
    cases hp with
    | free hfree _ =>
      rw [hfree] at hin
      cases hin
    | @held j b hj heq henter hinside =>
      obtain rfl : i = j := Option.some.inj (hin.symm.trans hj)
      refine ⟨s₀, .refl, .held (i := i) (a := b) hin ?_ henter ?_⟩
      · simpa only [Function.update_idem] using heq
      · simpa only [Function.update_self] using hinside.tail h
  | @leave i a hin h =>
    have hshared := hp.shared_eq
    have hholder := hp.free_left
    cases hp with
    | free hfree _ =>
      rw [hfree] at hin
      cases hin
    | @held j b hj heq henter hinside =>
      obtain rfl : i = j := Option.some.inj (hin.symm.trans hj)
      have hthreads : s₀.threads = Function.update s.threads i (s₀.threads i) :=
        congrArg State.threads heq
      have hstep : AtomicStep P s₀ { s with
          threads := Function.update s.threads i a, holder := none } := by
        rw [← hshared] at h
        have hsection := AtomicStep.underLock henter hinside h
        rw [hthreads, Function.update_idem, hholder, hshared] at hsection
        exact hsection
      exact ⟨_, .single hstep, .free rfl rfl⟩

/-- **A run**, with the section that is going on left out. -/
theorem exists_pending (hfree : s.holder = none) (h : ReflTransGen (Step P) s s') :
    ∃ s₀, ReflTransGen (AtomicStep P) s s₀ ∧ Pending P s₀ s' := by
  induction h with
  | refl => exact ⟨s, .refl, .free hfree rfl⟩
  | tail _ hstep ih =>
    obtain ⟨s₀, hs₀, hp⟩ := ih
    obtain ⟨s₀', hs₀', hp'⟩ := hp.step hstep
    exact ⟨s₀', hs₀.trans hs₀', hp'⟩

end Sections
