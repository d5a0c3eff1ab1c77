import Mathlib.Logic.Function.Basic
import Mathlib.Tactic.Common

/-!
Threads with call stacks and one lock that is not re-entrant.

* `Locked`: the stacks, innermost frame first, and the thread that holds the lock. A section of
  code that holds the lock lasts as long as a critical frame is on the stack.
* `Locked.replace`: a thread replaces its innermost frame. It takes the lock where that brings the
  first critical frame, and waits where the lock is not free; it gives the lock back where no
  critical frame is left.
* `Locked.Disciplined`: a thread holds the lock exactly while its innermost frame is critical, so
  that no other code runs under the lock. `Disciplined.replace`: the steps that keep this;
  `Disciplined.replace_of_holder`: then the holder never waits.
-/

namespace Concurrent

variable {ι φ : Type}

/-- The stacks of the threads, and the thread that holds the lock. -/
structure Locked (ι φ : Type) where
  stack : ι → List φ
  holder : Option ι

namespace Locked

variable [DecidableEq ι] (critical : φ → Bool)

/-- Thread `i` replaces its innermost frame `f`, above `rest`, by `fs`. -/
def replace (L : Locked ι φ) (i : ι) (f : φ) (fs rest : List φ) : Option (Locked ι φ) :=
  let stack := Function.update L.stack i (fs ++ rest)
  if critical f then
    some ⟨stack, if fs.any critical then L.holder else none⟩
  else if fs.any critical then
    if L.holder.isNone then some ⟨stack, some i⟩ else none
  else some ⟨stack, L.holder⟩

/-- The lock is held by the thread with a critical frame, which is its innermost. -/
structure Disciplined (L : Locked ι φ) : Prop where
  holder_iff : ∀ i, L.holder = some i ↔ ∃ f rest, L.stack i = f :: rest ∧ critical f = true
  below : ∀ i f rest, L.stack i = f :: rest → ∀ g ∈ rest, critical g = false

variable {critical} {L L' : Locked ι φ} {i : ι} {f : φ} {fs rest : List φ}

lemma stack_of_replace (h : L.replace critical i f fs rest = some L') :
    L'.stack = Function.update L.stack i (fs ++ rest) := by
  rw [replace] at h
  split_ifs at h <;> cases h <;> rfl

namespace Disciplined

omit [DecidableEq ι] in
/-- An innermost frame is critical exactly if its thread holds the lock. -/
lemma critical_iff (hL : L.Disciplined critical) (hi : L.stack i = f :: rest) :
    critical f = true ↔ L.holder = some i := by
  rw [hL.holder_iff i]
  constructor
  · exact fun h => ⟨f, rest, hi, h⟩
  · rintro ⟨g, rest', hg, h⟩
    rw [hi] at hg
    obtain ⟨rfl, rfl⟩ := List.cons.inj hg
    exact h

/-- **The holder of the lock never waits.** -/
lemma replace_of_holder (hL : L.Disciplined critical) (hi : L.stack i = f :: rest)
    (hheld : L.holder = some i) (fs : List φ) : ∃ L', L.replace critical i f fs rest = some L' := by
  have hf : critical f = true := (hL.critical_iff hi).mpr hheld
  exact ⟨_, by rw [replace, if_pos hf]⟩

/-- A thread that waits does so for another one, which holds the lock. -/
lemma holder_of_waits (hL : L.Disciplined critical) (hi : L.stack i = f :: rest)
    (hwait : L.replace critical i f fs rest = none) : ∃ j, L.holder = some j ∧ j ≠ i := by
  have hf : ¬critical f = true := fun hf => by
    obtain ⟨L', hL'⟩ := hL.replace_of_holder hi ((hL.critical_iff hi).mp hf) fs
    rw [hwait] at hL'
    cases hL'
  cases hheld : L.holder with
  | none =>
      rw [Locked.replace, if_neg hf, hheld] at hwait
      split_ifs at hwait with _ hfree
      exact absurd rfl hfree
  | some j =>
      refine ⟨j, rfl, ?_⟩
      rintro rfl
      exact hf ((hL.critical_iff hi).mpr hheld)

/-- Who holds the lock after a step: the thread that made it if it has a critical frame, and
otherwise whoever held it before. -/
lemma holder_replace (hL : L.Disciplined critical) (hi : L.stack i = f :: rest)
    (h : L.replace critical i f fs rest = some L') (k : ι) :
    L'.holder = some k ↔ if k = i then fs.any critical = true else L.holder = some k := by
  have hcritical := hL.critical_iff hi
  rw [Locked.replace] at h
  by_cases hf : critical f = true
  · have hheld := hcritical.mp hf
    rw [if_pos hf] at h
    cases h
    by_cases hk : k = i
    · by_cases hany : fs.any critical = true <;> simp [hk, hany, hheld]
    · by_cases hany : fs.any critical = true <;> simp [hk, Ne.symm hk, hany, hheld]
  · have hheld : L.holder ≠ some i := fun hheld => hf (hcritical.mpr hheld)
    rw [if_neg hf] at h
    by_cases hany : fs.any critical = true
    · rw [if_pos hany] at h
      split_ifs at h with hfree
      cases h
      have hnone := Option.isNone_iff_eq_none.mp hfree
      by_cases hk : k = i
      · simp [hk, hany]
      · simp [hk, Ne.symm hk, hnone]
    · rw [if_neg hany] at h
      cases h
      by_cases hk : k = i
      · simp [hk, hany, hheld]
      · simp [hk]

/-- **The discipline is kept** by a thread that puts no critical frame below another one. -/
lemma replace (hL : L.Disciplined critical) (hi : L.stack i = f :: rest)
    (hfs : ∀ g ∈ fs.tail, critical g = false) (h : L.replace critical i f fs rest = some L') :
    L'.Disciplined critical := by
  have hrest := hL.below i f rest hi
  have hstack := stack_of_replace h
  refine ⟨fun k => ?_, fun k g rest' hg g' hg' => ?_⟩
  · rw [hL.holder_replace hi h k, hstack]
    by_cases hk : k = i
    · subst hk
      rw [if_pos rfl, Function.update_self]
      cases fs with
      | nil =>
          constructor
          · intro hany
            simp at hany
          · rintro ⟨g, rest', rfl, hg⟩
            rw [hrest g List.mem_cons_self] at hg
            cases hg
      | cons g gs =>
          have hgs : gs.any critical = false := by simpa using hfs
          simp [hgs]
    · rw [if_neg hk, Function.update_of_ne hk]
      exact hL.holder_iff k
  · rw [hstack] at hg
    by_cases hk : k = i
    · subst hk
      rw [Function.update_self] at hg
      cases fs with
      | nil =>
          have hg : rest = g :: rest' := hg
          exact hrest g' (hg ▸ List.mem_cons_of_mem g hg')
      | cons f' gs =>
          obtain ⟨rfl, rfl⟩ := List.cons.inj hg
          exact (List.mem_append.mp hg').elim (hfs g') (hrest g')
    · rw [Function.update_of_ne hk] at hg
      exact hL.below k g rest' hg g' hg'

end Disciplined

end Locked

end Concurrent
