import Mathlib.Data.List.Basic
import Mathlib.Tactic.Common

/-!
Search trees over words, with nodes that may be shared.

* `Entry`: a node, whose children a function gives, or a leaf. `walk`: the leaf that a word leads
  to from an entry, and how many of its letters it took.
* `Leaf`: the paths from an entry to its leaves. `walk_eq_some_iff`: a walk ends at the leaf whose
  path the word begins with; everything else about walks follows from it.
* `walk_congr`: a walk depends on the letters it reads alone. `Leaf.unique`: a word begins
  with at most one path.
* `follow`: the entry at the end of a word.
-/

namespace PrefixTree

variable {ν β δ : Type*}

/-- What a node has below it for a letter. -/
inductive Entry (ν δ : Type*) where
  | node (n : ν)
  | leaf (d : δ)

variable (child : ν → β → Entry ν δ)

/-- The leaf that a word leads to, and the number of letters read; none if the word ends at a
node. -/
def walk : Entry ν δ → List β → Option (δ × ℕ)
  | .leaf d, _ => some (d, 0)
  | .node _, [] => none
  | .node n, b :: w => (walk (child n b) w).map fun r => (r.1, r.2 + 1)

/-- The word is the path from the entry to a leaf. -/
inductive Leaf : Entry ν δ → List β → δ → Prop
  | here (d : δ) : Leaf (.leaf d) [] d
  | step {n : ν} {b : β} {p : List β} {d : δ} (h : Leaf (child n b) p d) : Leaf (.node n) (b :: p) d

/-- The entry at the end of a word; none if the word goes on behind a leaf. -/
def follow : Entry ν δ → List β → Option (Entry ν δ)
  | e, [] => some e
  | .leaf _, _ :: _ => none
  | .node n, b :: w => follow (child n b) w

variable {child}

/-- **A walk ends at the leaf whose path the word begins with.** -/
theorem walk_eq_some_iff {e : Entry ν δ} {w : List β} {d : δ} {k : ℕ} :
    walk child e w = some (d, k) ↔ k ≤ w.length ∧ Leaf child e (w.take k) d := by
  induction w generalizing e k with
  | nil =>
      cases e with
      | leaf d' =>
          rw [walk, List.take_nil]
          constructor
          · intro h
            cases h
            exact ⟨Nat.le_refl _, .here d⟩
          · rintro ⟨hk, h⟩
            cases h
            rw [Nat.le_zero.mp hk]
      | node n =>
          rw [walk, List.take_nil]
          constructor
          · intro h
            cases h
          · rintro ⟨-, h⟩
            cases h
  | cons b w ih =>
      cases e with
      | leaf d' =>
          rw [walk]
          constructor
          · intro h
            cases h
            exact ⟨Nat.zero_le _, .here d⟩
          · rintro ⟨hk, h⟩
            cases k with
            | zero =>
                cases h
                rfl
            | succ k => cases h
      | node n =>
          rw [walk, Option.map_eq_some_iff]
          constructor
          · rintro ⟨⟨d', k'⟩, h, heq⟩
            cases heq
            obtain ⟨hk, hleaf⟩ := ih.mp h
            exact ⟨Nat.succ_le_succ hk, .step hleaf⟩
          · rintro ⟨hk, h⟩
            cases k with
            | zero => cases h
            | succ k =>
                cases h with
                | step h => exact ⟨(d, k), ih.mpr ⟨Nat.le_of_succ_le_succ hk, h⟩, rfl⟩

/-- A word that begins with the path to a leaf leads there. -/
lemma Leaf.walk_eq {e : Entry ν δ} {p w : List β} {d : δ} (h : Leaf child e p d) (hp : p <+: w) :
    walk child e w = some (d, p.length) := by
  refine walk_eq_some_iff.mpr ⟨hp.length_le, ?_⟩
  rw [← List.prefix_iff_eq_take.mp hp]
  exact h

/-- **A walk depends on the letters it reads alone.** -/
lemma walk_congr {e : Entry ν δ} {w w' : List β} {d : δ} {k : ℕ}
    (h : walk child e w = some (d, k)) (heq : w.take k = w'.take k) (hlen : k ≤ w'.length) :
    walk child e w' = some (d, k) := by
  obtain ⟨-, hleaf⟩ := walk_eq_some_iff.mp h
  rw [heq] at hleaf
  exact walk_eq_some_iff.mpr ⟨hlen, hleaf⟩

/-- **A word begins with at most one path to a leaf.** -/
lemma Leaf.unique {e : Entry ν δ} {p q w : List β} {d d' : δ} (hp : Leaf child e p d)
    (hq : Leaf child e q d') (hpw : p <+: w) (hqw : q <+: w) : p = q ∧ d = d' := by
  have hwalk := (hp.walk_eq hpw).symm.trans (hq.walk_eq hqw)
  simp only [Option.some.injEq, Prod.mk.injEq] at hwalk
  refine ⟨?_, hwalk.1⟩
  calc p = w.take p.length := List.prefix_iff_eq_take.mp hpw
    _ = w.take q.length := by rw [hwalk.2]
    _ = q := (List.prefix_iff_eq_take.mp hqw).symm

end PrefixTree
