import Mathlib.Tactic.Common

/-!
What a schedule leads to.

* `Eventually`: following a schedule from a state, a state with a property is reached, as long as
  every state on the way is as it should be.
* `Eventually.of_measure`: it is enough that each scheduled step makes a measure smaller.
* `Eventually.not_of_stuck`: it is not so where the schedule has no step.
-/

namespace Concurrent

variable {σ : Type}

/-- Following `next` from a state, a state with `P` is reached, as long as every state left on the
way is `ok`. -/
inductive Eventually (next : σ → Option σ) (ok P : σ → Prop) : σ → Prop
  | now {s : σ} (h : P s) : Eventually next ok P s
  | later {s s' : σ} (hnext : next s = some s') (h : ok s → Eventually next ok P s') :
      Eventually next ok P s

namespace Eventually

variable {next : σ → Option σ} {ok P : σ → Prop}

/-- What a property leads to, that is reached which leads to the property. -/
lemma trans {Q : σ → Prop} {s : σ} (h : Eventually next ok P s)
    (hPQ : ∀ s, P s → Eventually next ok Q s) : Eventually next ok Q s := by
  induction h with
  | now h => exact hPQ _ h
  | later hnext _ ih => exact .later hnext ih

/-- **The measure rule**: under an invariant the schedule has a step, which reaches the property,
or keeps the invariant and makes a measure smaller. -/
lemma of_measure (I : σ → Prop) (m : σ → ℕ)
    (step : ∀ s, I s → ∃ s', next s = some s' ∧ (ok s → P s' ∨ I s' ∧ m s' < m s)) :
    ∀ s, I s → Eventually next ok P s := by
  suffices h : ∀ n s, m s < n → I s → Eventually next ok P s from
    fun s hs => h (m s + 1) s (Nat.lt_succ_self _) hs
  intro n
  induction n with
  | zero => exact fun s hlt _ => absurd hlt (Nat.not_lt_zero _)
  | succ n ih =>
      intro s hlt hs
      obtain ⟨s', hnext, hstep⟩ := step s hs
      refine .later hnext fun hok => ?_
      rcases hstep hok with h | ⟨hs', hless⟩
      · exact .now h
      · exact ih s' (by omega) hs'

/-- Where the schedule has no step, nothing more is reached. -/
lemma not_of_stuck {s : σ} (hnext : next s = none) (hP : ¬P s) : ¬Eventually next ok P s := by
  intro h
  cases h with
  | now h => exact hP h
  | later h => rw [hnext] at h; cases h

end Eventually

end Concurrent
