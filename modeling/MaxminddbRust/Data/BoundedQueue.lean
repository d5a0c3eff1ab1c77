import Mathlib.Data.List.DropRight
import Mathlib.Data.List.Nodup
import Mathlib.Tactic.Common

/-!
A queue of bounded length that evicts its oldest element to make room.

* `push`: evict the front if the queue is full, then push at the back.
* `push_rtake`: if the queue holds the last `cap` elements of a log, it still does after a push
  onto both. So a queue that is only ever pushed to is the last `cap` pushes, in order.
* `nodup_map_push`: pushing a value with a new key keeps the keys distinct.
-/

namespace BoundedQueue

variable {α β : Type*}

/-- Push at the back of a queue that holds at most `cap` elements. -/
def push (cap : ℕ) (q : List α) (x : α) : List α :=
  (if q.length ≥ cap then q.tail else q) ++ [x]

lemma length_rtake_le (log : List α) (cap : ℕ) : (log.rtake cap).length ≤ cap := by
  rw [List.rtake, List.length_drop]
  omega

/-- **A queue is the end of its log**: pushing onto the last `cap` elements of a log gives the
last `cap` elements of the longer log. -/
lemma push_rtake {cap : ℕ} (hcap : 0 < cap) (log : List α) (x : α) :
    push cap (log.rtake cap) x = (log ++ [x]).rtake cap := by
  rw [push, List.rtake, List.rtake, List.length_drop, List.length_append, List.length_singleton]
  by_cases h : cap ≤ log.length
  · have hfull : log.length - (log.length - cap) ≥ cap := by omega
    have hstart : log.length + 1 - cap = log.length - cap + 1 := by omega
    rw [if_pos hfull, List.tail_drop, hstart, List.drop_append_of_le_length (by omega)]
  · have hroom : ¬log.length - (log.length - cap) ≥ cap := by omega
    have hstart : log.length - cap = 0 := by omega
    have hstart' : log.length + 1 - cap = 0 := by omega
    rw [if_neg hroom, hstart, hstart', List.drop_zero, List.drop_zero]

lemma mem_of_mem_push {cap : ℕ} {q : List α} {x y : α} (h : y ∈ push cap q x) : y ∈ q ∨ y = x := by
  rw [push, List.mem_append, List.mem_singleton] at h
  refine h.imp_left fun h => ?_
  split at h
  · exact List.mem_of_mem_tail h
  · exact h

/-- Distinct keys stay distinct if the new key is new. -/
lemma nodup_map_push {cap : ℕ} {q : List α} {x : α} {f : α → β} (h : (q.map f).Nodup)
    (hx : f x ∉ q.map f) : ((push cap q x).map f).Nodup := by
  have hsub : ((if q.length ≥ cap then q.tail else q).map f).Sublist (q.map f) := by
    split
    · exact (List.tail_sublist q).map f
    · exact List.Sublist.refl _
  rw [push, List.map_append, List.map_singleton]
  refine List.nodup_append.mpr ⟨h.sublist hsub, List.nodup_singleton _, fun a ha b hb hab => ?_⟩
  rw [List.mem_singleton.mp hb] at hab
  exact hx (hab ▸ hsub.subset ha)

end BoundedQueue
