import Mathlib

/-!
# Runs of a system that may fail

A system is given by what one event does to its state, `step : σ → α → Except ε σ`; a run is
`events.foldlM step s₀`, and the first event that fails ends it.

**The run rules.** An invariant may speak about the events so far, so that what a state owes to
its history can be stated without keeping the history in the state. `induction` is for what holds
of every run that did not fail; `progress` shows in addition that it does not.

**Conditions on steps.** Some properties of a run depend on what its steps do (`EachStep`). They
hold in every state of the run when every step meets a condition (`induction_of_eachStep`; for the
failures too, `outcome_of_eachStep`), and when the condition says exactly which steps keep them,
only then (`forall_prefix_iff_eachStep`, and `outcome_iff_eachStep` where a step may fail).
-/

universe u

namespace Run

variable {σ α ε : Type*} {step : σ → α → Except ε σ} {s₀ : σ}

/-- A sequence of two that did not fail did not fail in either. -/
theorem of_bind {β γ : Type u} {x : Except ε β} {f : β → Except ε γ} {r : γ}
    (h : x >>= f = .ok r) :
    ∃ a, x = .ok a ∧ f a = .ok r := by
  cases x with
  | error e => cases h
  | ok a => exact ⟨a, rfl, h⟩

/-- A failure of two steps is one of the first, or one of the second. -/
theorem of_bind_error {β γ : Type u} {x : Except ε β} {f : β → Except ε γ} {e : ε}
    (h : x >>= f = .error e) : x = .error e ∨ ∃ a, x = .ok a ∧ f a = .error e := by
  cases x with
  | error e' => exact .inl (congrArg _ (Except.error.inj h))
  | ok a => exact .inr ⟨a, rfl, h⟩

/-- A run with one more event. -/
theorem foldlM_concat (es : List α) (e : α) :
    (es ++ [e]).foldlM step s₀ = es.foldlM step s₀ >>= fun s => step s e := by
  simp [List.foldlM_append]

/-- The last step of a run that did not fail. -/
theorem of_concat {es : List α} {e : α} {s' : σ} (h : (es ++ [e]).foldlM step s₀ = .ok s') :
    ∃ s, es.foldlM step s₀ = .ok s ∧ step s e = .ok s' := by
  rw [foldlM_concat] at h
  exact of_bind h

section Start

variable {τ ρ : Type u} {start : Except ε τ} {next : τ → ρ → α → Except ε ρ} {r₀ r : ρ}

/-- A run with one more event, when something had to be started before the first. -/
theorem start_concat {t : τ} {es : List α}
    (hrun : (start >>= fun t => es.foldlM (next t) r₀) = .ok r) (ht : start = .ok t) (e : α) :
    (start >>= fun t => (es ++ [e]).foldlM (next t) r₀) = next t r e := by
  rw [ht] at hrun ⊢
  change es.foldlM (next t) r₀ = .ok r at hrun
  change (es ++ [e]).foldlM (next t) r₀ = next t r e
  rw [foldlM_concat, hrun]
  rfl

/-- The last step of such a run. -/
theorem of_start_concat {es : List α} {e : α} {r' : ρ}
    (h : (start >>= fun t => (es ++ [e]).foldlM (next t) r₀) = .ok r') :
    ∃ r, (start >>= fun t => es.foldlM (next t) r₀) = .ok r ∧ ∃ t, next t r e = .ok r' := by
  obtain ⟨t, ht, hrun⟩ := of_bind h
  obtain ⟨r, hr, hstep⟩ := of_concat hrun
  exact ⟨r, by rw [ht]; exact hr, t, hstep⟩

end Start

/-- **What holds at the beginning, and is kept by every step, holds after every run.** -/
theorem induction (Inv : List α → σ → Prop) (init : Inv [] s₀)
    (keep : ∀ es s e s', Inv es s → step s e = .ok s' → Inv (es ++ [e]) s') :
    ∀ {es s}, es.foldlM step s₀ = .ok s → Inv es s := by
  intro es
  induction es using List.reverseRecOn with
  | nil =>
    intro s h
    obtain rfl : s₀ = s := Except.ok.inj h
    exact init
  | append_singleton es e ih =>
    intro s' h
    obtain ⟨s, hs, he⟩ := of_concat h
    exact keep es s e s' (ih hs) he

/-- **A run whose steps are all possible does not fail.** Only the steps of this very run have to
be looked at. -/
theorem progress (Inv : List α → σ → Prop) (init : Inv [] s₀) {es : List α}
    (next : ∀ before e after s, es = before ++ e :: after → Inv before s →
      ∃ s', step s e = .ok s' ∧ Inv (before ++ [e]) s') :
    ∃ s, es.foldlM step s₀ = .ok s ∧ Inv es s := by
  induction es using List.reverseRecOn with
  | nil => exact ⟨s₀, rfl, init⟩
  | append_singleton es e ih =>
    obtain ⟨s, hs, hinv⟩ := ih fun before e' after s hes =>
      next before e' (after ++ [e]) s (by simp [hes])
    obtain ⟨s', he, hinv'⟩ := next es e [] s rfl hinv
    exact ⟨s', by rw [foldlM_concat, hs]; exact he, hinv'⟩

/-- A run that fails has a step that does, and did not fail before. -/
theorem exists_fails {es : List α} {f : ε} (h : es.foldlM step s₀ = .error f) :
    ∃ before e s, before ++ [e] <+: es ∧ before.foldlM step s₀ = .ok s ∧ step s e = .error f := by
  induction es using List.reverseRecOn with
  | nil => cases h
  | append_singleton es e ih =>
    rw [foldlM_concat] at h
    rcases of_bind_error h with hes | ⟨s, hs, he⟩
    · obtain ⟨before, e', s, hpre, hs, he'⟩ := ih hes
      exact ⟨before, e', s, hpre.trans (List.prefix_append _ _), hs, he'⟩
    · exact ⟨es, e, s, List.prefix_rfl, hs, he⟩

/-! ## Conditions on steps -/

/-- Every step of the run over `es` meets the condition `Ok`, in the state it is taken in. -/
def EachStep (run : List α → Except ε σ) (Ok : σ → α → Prop) (es : List α) : Prop :=
  ∀ before e after s, es = before ++ e :: after → run before = .ok s → Ok s e

variable {run : List α → Except ε σ} {Ok : σ → α → Prop}

theorem eachStep_nil : EachStep run Ok [] := by
  intro before e after s h
  simp at h

theorem eachStep_concat {es : List α} {e : α} :
    EachStep run Ok (es ++ [e]) ↔ EachStep run Ok es ∧ ∀ s, run es = .ok s → Ok s e := by
  constructor
  · intro h
    refine ⟨?_, fun s => h es e [] s rfl⟩
    rintro before e' after s rfl
    exact h before e' (after ++ [e]) s (by simp)
  · rintro ⟨h, he⟩ before e' after s hsplit
    rcases List.eq_nil_or_concat after with rfl | ⟨after', e₁, rfl⟩
    · obtain ⟨rfl, hlast⟩ := List.append_inj' hsplit rfl
      obtain rfl := (List.cons.inj hlast).1
      exact he s
    · rw [List.concat_eq_append, ← List.cons_append, ← List.append_assoc] at hsplit
      exact h before e' after' s (List.append_inj' hsplit rfl).1

/-- A condition that these events meet in all states. -/
theorem eachStep_of_forall {es : List α} (h : ∀ e ∈ es, ∀ s, Ok s e) : EachStep run Ok es := by
  rintro before e after s rfl -
  exact h e (by simp) s

theorem EachStep.of_append {es es' : List α} (h : EachStep run Ok (es ++ es')) :
    EachStep run Ok es := by
  rintro before e after s rfl hrun
  exact h before e (after ++ es') s (by simp) hrun

/-- The first step of a run, and the others. -/
theorem eachStep_cons {s : σ} {e : α} {es : List α} :
    EachStep (fun es => es.foldlM step s) Ok (e :: es) ↔
      Ok s e ∧ ∀ s', step s e = .ok s' → EachStep (fun es => es.foldlM step s') Ok es := by
  constructor
  · intro h
    refine ⟨h [] e es s rfl rfl, ?_⟩
    rintro s' hs' before e' after s₁ rfl hrun
    refine h (e :: before) e' after s₁ rfl ?_
    simp only [List.foldlM_cons, hs']
    exact hrun
  · rintro ⟨he, hes⟩ before e' after s₁ hsplit hrun
    cases before with
    | nil =>
      obtain ⟨rfl, -⟩ := List.cons.inj hsplit
      obtain rfl : s = s₁ := Except.ok.inj hrun
      exact he
    | cons e₁ before =>
      obtain ⟨rfl, rfl⟩ := List.cons.inj hsplit
      obtain ⟨s', hs', hrun⟩ := of_bind hrun
      exact hes s' hs' before e' after s₁ rfl hrun

/-- Two conditions that agree where the steps before have met the first of them. -/
theorem eachStep_congr {Ok' : σ → α → Prop}
    (h : ∀ es s e, run es = .ok s → EachStep run Ok es → (Ok s e ↔ Ok' s e)) {es : List α} :
    EachStep run Ok es ↔ EachStep run Ok' es := by
  induction es using List.reverseRecOn with
  | nil => exact iff_of_true eachStep_nil eachStep_nil
  | append_singleton es e ih =>
    rw [eachStep_concat, eachStep_concat]
    constructor
    · rintro ⟨hes, he⟩
      exact ⟨ih.mp hes, fun s hs => (h es s e hs hes).mp (he s hs)⟩
    · rintro ⟨hes, he⟩
      have hes' := ih.mpr hes
      exact ⟨hes', fun s hs => (h es s e hs hes').mpr (he s hs)⟩

/-- **What holds of the outcome**, a state or a failure, of a run whose steps all meet the
condition. A failure is the outcome of all that comes after it. -/
theorem outcome_of_eachStep (Good : Except ε σ → Prop) (init : Good (.ok s₀))
    (next : ∀ s e, Good (.ok s) → Ok s e → Good (step s e)) {es : List α}
    (hok : EachStep (fun es => es.foldlM step s₀) Ok es) : Good (es.foldlM step s₀) := by
  induction es using List.reverseRecOn with
  | nil => exact init
  | append_singleton es e ih =>
    obtain ⟨hes, he⟩ := eachStep_concat.mp hok
    have hgood := ih hes
    rw [foldlM_concat]
    cases hrun : es.foldlM step s₀ with
    | error f =>
      rw [hrun] at hgood
      exact hgood
    | ok s =>
      rw [hrun] at hgood
      exact next s e hgood (he s hrun)

variable (Step : σ → α → σ → Prop)

/-- **What is kept by every step that meets the condition.** -/
theorem induction_of_eachStep (Inv : σ → Prop)
    (last : ∀ es e s', run (es ++ [e]) = .ok s' → ∃ s, run es = .ok s ∧ Step s e s')
    (init : ∀ s, run [] = .ok s → Inv s)
    (keep : ∀ s e s', Inv s → Ok s e → Step s e s' → Inv s') {es : List α} {s : σ}
    (hok : EachStep run Ok es) (hrun : run es = .ok s) : Inv s := by
  induction es using List.reverseRecOn generalizing s with
  | nil => exact init s hrun
  | append_singleton es e ih =>
    obtain ⟨s₁, hs₁, hstep⟩ := last es e s hrun
    obtain ⟨hes, he⟩ := eachStep_concat.mp hok
    exact keep s₁ e s (ih hes hs₁) (he s₁ hs₁) hstep

/-- **The exact condition.** From a state that is good, the steps that meet it are those that lead
to a state that is good. -/
theorem forall_prefix_iff_eachStep (Inv : σ → Prop) {Good : σ → Prop}
    (last : ∀ es e s', run (es ++ [e]) = .ok s' → ∃ s, run es = .ok s ∧ Step s e s')
    (init : ∀ s, run [] = .ok s → Inv s ∧ Good s)
    (keep : ∀ s e s', Inv s → Step s e s' → Inv s')
    (good : ∀ s e s', Inv s → Good s → Step s e s' → (Good s' ↔ Ok s e)) {es : List α} {s : σ}
    (hrun : run es = .ok s) :
    (∀ before s₁, before <+: es → run before = .ok s₁ → Good s₁) ↔ EachStep run Ok es := by
  have hinv : ∀ {es s}, run es = .ok s → Inv s := by
    intro es s h
    have hok : EachStep run (fun _ _ => True) es := eachStep_of_forall fun _ _ _ => trivial
    exact induction_of_eachStep Step Inv last (fun s h => (init s h).1)
      (fun s e s' hs _ => keep s e s' hs) hok h
  induction es using List.reverseRecOn generalizing s with
  | nil =>
    refine iff_of_true ?_ eachStep_nil
    intro before s₁ hbefore hs₁
    rw [List.prefix_nil.mp hbefore] at hs₁
    exact (init s₁ hs₁).2
  | append_singleton es e ih =>
    obtain ⟨s₁, hs₁, hstep⟩ := last es e s hrun
    have hes := ih hs₁
    rw [eachStep_concat]
    constructor
    · intro h
      refine ⟨hes.mp fun before s₂ hbefore =>
        h before s₂ (hbefore.trans (List.prefix_append _ _)), ?_⟩
      intro s₂ hs₂
      obtain rfl := Except.ok.inj (hs₂.symm.trans hs₁)
      have hgood := h es s₂ (List.prefix_append _ _) hs₂
      exact (good s₂ e s (hinv hs₂) hgood hstep).mp (h _ s List.prefix_rfl hrun)
    · rintro ⟨hok, he⟩ before s₂ hbefore hs₂
      have h := hes.mpr hok
      rcases List.prefix_concat_iff.mp hbefore with rfl | hbefore
      · obtain rfl := Except.ok.inj (hs₂.symm.trans hrun)
        have hgood := h es s₁ List.prefix_rfl hs₁
        exact (good s₁ e s₂ (hinv hs₁) hgood hstep).mpr (he s₁ hs₁)
      · exact h before s₂ hbefore hs₂

/-- **The exact condition on outcomes.** As long as all has been good, the steps that meet the
condition are those whose outcome is good, be it a state or a failure. -/
theorem outcome_iff_eachStep (Good : List α → Except ε σ → Prop) (init : Good [] (.ok s₀))
    (fail : ∀ es e f, Good es (.error f) → Good (es ++ [e]) (.error f)) {es : List α}
    (next : ∀ before e after s, es = before ++ e :: after → before.foldlM step s₀ = .ok s →
      Good before (.ok s) → (Good (before ++ [e]) (step s e) ↔ Ok s e)) :
    (∀ before, before <+: es → Good before (before.foldlM step s₀)) ↔
      EachStep (fun es => es.foldlM step s₀) Ok es := by
  induction es using List.reverseRecOn with
  | nil =>
    refine iff_of_true ?_ eachStep_nil
    intro before hbefore
    rw [List.prefix_nil.mp hbefore]
    exact init
  | append_singleton es e ih =>
    have hes := ih fun before e' after s hsplit =>
      next before e' (after ++ [e]) s (by simp [hsplit])
    -- the last outcome, when all before it are good
    have hlast : Good es (es.foldlM step s₀) →
        (Good (es ++ [e]) ((es ++ [e]).foldlM step s₀) ↔
          ∀ s, es.foldlM step s₀ = .ok s → Ok s e) := by
      intro hgood
      rw [foldlM_concat]
      cases hrun : es.foldlM step s₀ with
      | error f =>
        rw [hrun] at hgood
        exact iff_of_true (fail es e f hgood) fun s hs => by cases hs
      | ok s =>
        rw [hrun] at hgood
        refine (next es e [] s rfl hrun hgood).trans ⟨?_, fun he => he s rfl⟩
        rintro he _ ⟨⟩
        exact he
    rw [eachStep_concat]
    constructor
    · intro h
      have hbefore : ∀ before, before <+: es → Good before (before.foldlM step s₀) :=
        fun before hb => h before (hb.trans (List.prefix_append _ _))
      exact ⟨hes.mp hbefore, (hlast (hbefore es List.prefix_rfl)).mp (h _ List.prefix_rfl)⟩
    · rintro ⟨hok, he⟩ before hbefore
      have h := hes.mpr hok
      rcases List.prefix_concat_iff.mp hbefore with rfl | hbefore
      · exact (hlast (h es List.prefix_rfl)).mpr he
      · exact h before hbefore

/-- The same, when no failure is good. -/
theorem progress_iff_eachStep {Good : List α → σ → Prop} (init : Good [] s₀) {es : List α}
    (next : ∀ before e after s, es = before ++ e :: after → before.foldlM step s₀ = .ok s →
      Good before s → ((∃ s', step s e = .ok s' ∧ Good (before ++ [e]) s') ↔ Ok s e)) :
    (∀ before, before <+: es → ∃ s, before.foldlM step s₀ = .ok s ∧ Good before s) ↔
      EachStep (fun es => es.foldlM step s₀) Ok es := by
  refine outcome_iff_eachStep (fun es x => ∃ s, x = .ok s ∧ Good es s) ⟨s₀, rfl, init⟩ ?_ ?_
  · rintro es e f ⟨s, hs, -⟩
    cases hs
  · rintro before e after s hsplit hrun ⟨_, ⟨⟩, hgood⟩
    exact next before e after s hsplit hrun hgood

end Run
