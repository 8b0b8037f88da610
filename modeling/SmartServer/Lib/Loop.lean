import Mathlib

/-!
# Loops that may fail

A loop body maps a state to an error, to the next state, or to a result that leaves the loop.
`Loop.run` executes at most `fuel` passes, so that it is structurally recursive and can be
evaluated; `none` says that the passes did not suffice.

**The loop rule** (`run_of_variant`). An invariant the body keeps, and a variant every further
pass decreases, give the result of the loop for all large enough fuel: no fuel is left in
what a user of the rule states or proves. For a loop that is known to end, `run_ok` adds to what
is known of its result, with an invariant alone. `Reached` are the states a loop passes through.
-/

/-- What a pass through the body of a loop decides: go round again, or leave the loop. -/
inductive Pass (σ ρ : Type*)
  | again (s : σ)
  | leave (r : ρ)

namespace Loop

variable {σ ρ ε : Type*}

/-- At most `fuel` passes through `body`. -/
def run (body : σ → Except ε (Pass σ ρ)) : ℕ → σ → Option (Except ε ρ)
  | 0, _ => none
  | fuel + 1, s =>
    match body s with
    | .error e => some (.error e)
    | .ok (.leave r) => some (.ok r)
    | .ok (.again s') => run body fuel s'

/-- What one pass has to establish from a state with variant `v`: the postcondition when it
ends the loop, the invariant and a smaller variant when it does not. -/
def Establishes (Inv : σ → Prop) (variant : σ → ℕ) (Post : Except ε ρ → Prop) (v : ℕ) :
    Except ε (Pass σ ρ) → Prop
  | .error e => Post (.error e)
  | .ok (.leave r) => Post (.ok r)
  | .ok (.again s) => Inv s ∧ variant s < v

theorem Establishes.mono {Inv : σ → Prop} {variant : σ → ℕ} {Post : Except ε ρ → Prop}
    {v w : ℕ} (hvw : v ≤ w) {r : Except ε (Pass σ ρ)} (h : Establishes Inv variant Post v r) :
    Establishes Inv variant Post w r := by
  cases r with
  | error e => exact h
  | ok pass =>
    cases pass with
    | leave r => exact h
    | again s => exact ⟨h.1, h.2.trans_le hvw⟩

/-- **The loop rule.** If every pass from a state satisfying the invariant establishes the
invariant with a smaller variant, or ends the loop in the postcondition, then the loop ends,
and it does so in the postcondition. -/
theorem run_of_variant (body : σ → Except ε (Pass σ ρ)) (variant : σ → ℕ) {Inv : σ → Prop}
    {Post : Except ε ρ → Prop}
    (hbody : ∀ s, Inv s → Establishes Inv variant Post (variant s) (body s)) :
    ∀ (fuel : ℕ) {s : σ}, Inv s → variant s < fuel →
      ∃ r, run body fuel s = some r ∧ Post r := by
  intro fuel
  induction fuel with
  | zero => intro s _ h; omega
  | succ fuel ih =>
    intro s hs hfuel
    have hpass := hbody s hs
    simp only [run]
    cases hb : body s with
    | error e => exact ⟨_, rfl, by simpa [hb, Establishes] using hpass⟩
    | ok pass =>
      cases pass with
      | leave r => exact ⟨_, rfl, by simpa [hb, Establishes] using hpass⟩
      | again s' =>
        obtain ⟨hinv, hlt⟩ : Inv s' ∧ variant s' < variant s := by
          simpa [hb, Establishes] using hpass
        exact ih hinv (by omega)

/-- **Partial correctness.** An invariant gives what holds of the result of a loop that has ended
without an error. -/
theorem run_ok {body : σ → Except ε (Pass σ ρ)} {Inv : σ → Prop} {Post : ρ → Prop}
    (hagain : ∀ s s', Inv s → body s = .ok (.again s') → Inv s')
    (hleave : ∀ s r, Inv s → body s = .ok (.leave r) → Post r) :
    ∀ {fuel : ℕ} {s : σ} {r : ρ}, Inv s → run body fuel s = some (.ok r) → Post r := by
  intro fuel
  induction fuel with
  | zero => intro s r _ h; cases h
  | succ fuel ih =>
    intro s r hs h
    rw [run] at h
    cases hb : body s with
    | error e => rw [hb] at h; cases h
    | ok pass =>
      rw [hb] at h
      cases pass with
      | leave r' =>
        obtain rfl : r' = r := Except.ok.inj (Option.some.inj h)
        exact hleave s r' hs hb
      | again s' => exact ih (hagain s s' hs hb) h

/-- Two bodies that agree wherever the loop comes run to the same end. -/
theorem run_congr {body body' : σ → Except ε (Pass σ ρ)} {Inv : σ → Prop}
    (hsame : ∀ s, Inv s → body s = body' s)
    (hagain : ∀ s s', Inv s → body' s = .ok (.again s') → Inv s') :
    ∀ {fuel : ℕ} {s : σ}, Inv s → run body fuel s = run body' fuel s := by
  intro fuel
  induction fuel with
  | zero => intro s _; rfl
  | succ fuel ih =>
    intro s hs
    simp only [run, hsame s hs]
    cases hb : body' s with
    | error e => rfl
    | ok pass =>
      cases pass with
      | leave r => rfl
      | again s' => exact ih (hagain s s' hs hb)

/-- The states in which a pass begins. -/
inductive Reached (body : σ → Except ε (Pass σ ρ)) (s₀ : σ) : σ → Prop
  | start : Reached body s₀ s₀
  | again {s s' : σ} : Reached body s₀ s → body s = .ok (.again s') → Reached body s₀ s'

/-- An invariant the body keeps holds at the beginning of every pass. -/
theorem Reached.inv {body : σ → Except ε (Pass σ ρ)} {Inv : σ → Prop} {s₀ s : σ}
    (hagain : ∀ s s', Inv s → body s = .ok (.again s') → Inv s') (h₀ : Inv s₀)
    (h : Reached body s₀ s) : Inv s := by
  induction h with
  | start => exact h₀
  | again _ hb ih => exact hagain _ _ ih hb

end Loop
