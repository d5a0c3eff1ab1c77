import Mathlib.Data.Option.Basic
import Mathlib.Tactic.Common

/-!
Following a path step by step.

* `Navigable`: a type of values with the steps that can be taken at them. `follow`: where a path
  leads; `Along`: every step taken meets the value it is taken at.
* `Simulation`: a view of the values of one such type as those of another, and a translation of
  the steps back. `Simulation.follow_eq`: paths lead to the same places, by induction on the path.
-/

namespace Navigation

/-- Which steps meet which values, and where they lead, if anywhere. -/
structure Navigable (α ε : Type*) where
  Meets : α → ε → Prop
  child : α → ε → Option α

namespace Navigable

variable {α ε : Type*} (N : Navigable α ε)

/-- Where a path leads; none if some step leads nowhere. -/
def follow : α → List ε → Option α
  | a, [] => some a
  | a, e :: p => (N.child a e).bind fun b => follow b p

/-- Every step taken meets the value it is taken at. -/
def Along : α → List ε → Prop
  | _, [] => True
  | a, e :: p => N.Meets a e ∧ ∀ b, N.child a e = some b → Along b p

end Navigable

variable {α β ε φ : Type*}

/-- The values of `N` that satisfy `I`, viewed through `f`, behave under the steps of `M` that
satisfy `J` as they do themselves under the translated steps. -/
structure Simulation (N : Navigable α ε) (M : Navigable β φ) (I : α → Prop) (J : φ → Prop)
    (f : α → β) (g : φ → ε) : Prop where
  meets : ∀ {a e}, I a → J e → M.Meets (f a) e → N.Meets a (g e)
  child : ∀ {a e}, I a → J e → M.Meets (f a) e → M.child (f a) e = (N.child a (g e)).map f
  keeps : ∀ {a e b}, I a → N.child a e = some b → I b

/-- **Paths lead to the same places** on both sides of a simulation. -/
theorem Simulation.follow_eq {N : Navigable α ε} {M : Navigable β φ} {I : α → Prop}
    {J : φ → Prop} {f : α → β} {g : φ → ε} (h : Simulation N M I J f g) :
    ∀ {p : List φ} {a : α}, I a → (∀ e ∈ p, J e) → M.Along (f a) p →
      N.Along a (p.map g) ∧ M.follow (f a) p = (N.follow a (p.map g)).map f ∧
        ∀ b, N.follow a (p.map g) = some b → I b
  | [], a, ha, _, _ => by
      refine ⟨trivial, rfl, fun b hb => ?_⟩
      rw [← Option.some.inj hb]
      exact ha
  | e :: p, a, ha, hp, halong => by
      obtain ⟨hmeets, hrest⟩ := halong
      have he := hp e List.mem_cons_self
      have hchild := h.child ha he hmeets
      rw [List.map_cons, Navigable.Along, Navigable.follow, Navigable.follow, hchild]
      rw [hchild] at hrest
      cases hc : N.child a (g e) with
      | none => exact ⟨⟨h.meets ha he hmeets, by simp⟩, rfl, by simp⟩
      | some b =>
          rw [hc] at hrest
          obtain ⟨halong', hfollow, hkeeps⟩ := follow_eq h (h.keeps ha hc)
            (fun e' he' => hp e' (List.mem_cons_of_mem _ he')) (hrest (f b) rfl)
          refine ⟨⟨h.meets ha he hmeets, fun b' hb' => ?_⟩, hfollow, hkeeps⟩
          rw [← Option.some.inj hb']
          exact halong'

end Navigation
