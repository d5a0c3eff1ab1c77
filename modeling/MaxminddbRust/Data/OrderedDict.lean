import Mathlib.Data.List.Induction
import Mathlib.Data.List.Nodup
import Mathlib.Tactic.Common

/-!
Insertion-ordered dictionaries as association lists.

* `insert`: assignment to a key. A key that is present keeps its position and takes the new
  value; a new key goes to the end.
* `ofEntries`: repeated assignment, in order.
* `ofEntries_eq`: the outcome without the loop: the distinct keys in the order of their first
  occurrence, each with its last value.
* `ofEntries_of_nodup`, `lookup_ofEntries`: entries with distinct keys are kept as they are, and
  a lookup finds the last assignment.
-/

namespace OrderedDict

variable {κ ν : Type} [BEq κ]

/-- Assignment of `v` to the key `k`. -/
def insert : List (κ × ν) → κ → ν → List (κ × ν)
  | [], k, v => [(k, v)]
  | (k', v') :: d, k, v => if k' == k then (k', v) :: d else (k', v') :: insert d k v

/-- The dictionary filled by assigning the entries in order. -/
def ofEntries (es : List (κ × ν)) : List (κ × ν) :=
  es.foldl (fun d e => insert d e.1 e.2) []

@[simp] lemma ofEntries_nil : ofEntries ([] : List (κ × ν)) = [] := rfl

lemma ofEntries_concat (es : List (κ × ν)) (k : κ) (v : ν) :
    ofEntries (es ++ [(k, v)]) = insert (ofEntries es) k v := by
  simp [ofEntries]

variable [LawfulBEq κ]

lemma insert_cons_self (d : List (κ × ν)) (k : κ) (v v' : ν) :
    insert ((k, v') :: d) k v = (k, v) :: d := by
  simp [insert]

lemma insert_cons_of_ne (d : List (κ × ν)) {k k' : κ} (h : k' ≠ k) (v v' : ν) :
    insert ((k', v') :: d) k v = (k', v') :: insert d k v := by
  simp [insert, h]

lemma lookup_cons_of_ne {k k' : κ} (h : k ≠ k') (v : ν) (d : List (κ × ν)) :
    ((k', v) :: d).lookup k = d.lookup k := by
  rw [List.lookup_cons, beq_eq_false_iff_ne.mpr h]

/-- Assignment to a key that is there keeps the keys. -/
lemma keys_insert_of_mem {d : List (κ × ν)} {k : κ} (h : k ∈ d.map Prod.fst) (v : ν) :
    (insert d k v).map Prod.fst = d.map Prod.fst := by
  induction d with
  | nil => simp at h
  | cons e d ih =>
      obtain ⟨k', v'⟩ := e
      by_cases hk : k' = k
      · subst hk
        rw [insert_cons_self]
        rfl
      · rw [List.map_cons, List.mem_cons] at h
        rw [insert_cons_of_ne d hk, List.map_cons, List.map_cons,
          ih (h.resolve_left (Ne.symm hk))]

/-- A new key goes to the end. -/
lemma insert_of_notMem {d : List (κ × ν)} {k : κ} (v : ν) (h : k ∉ d.map Prod.fst) :
    insert d k v = d ++ [(k, v)] := by
  induction d with
  | nil => rfl
  | cons e d ih =>
      obtain ⟨k', v'⟩ := e
      rw [List.map_cons, List.mem_cons, not_or] at h
      rw [insert_cons_of_ne d (Ne.symm h.1), ih h.2, List.cons_append]

lemma lookup_insert_self (d : List (κ × ν)) (k : κ) (v : ν) :
    (insert d k v).lookup k = some v := by
  induction d with
  | nil => simp [insert]
  | cons e d ih =>
      obtain ⟨k', v'⟩ := e
      by_cases h : k' = k
      · subst h
        simp [insert_cons_self]
      · rw [insert_cons_of_ne d h, lookup_cons_of_ne (Ne.symm h), ih]

/-- Assignment to a key leaves the others alone. -/
lemma lookup_insert_of_ne (d : List (κ × ν)) {k k' : κ} (h : k' ≠ k) (v : ν) :
    (insert d k v).lookup k' = d.lookup k' := by
  induction d with
  | nil => rw [insert, lookup_cons_of_ne h]
  | cons e d ih =>
      obtain ⟨k₀, v₀⟩ := e
      by_cases h₀ : k₀ = k
      · subst h₀
        rw [insert_cons_self, lookup_cons_of_ne h, lookup_cons_of_ne h]
      · rw [insert_cons_of_ne d h₀, List.lookup_cons, List.lookup_cons, ih]

omit ν in
/-- The distinct elements of a list, after one more: it goes to the end if it is new. -/
lemma eraseDups_concat (l : List κ) (k : κ) :
    (l ++ [k]).eraseDups = if k ∈ l then l.eraseDups else l.eraseDups ++ [k] := by
  rw [List.eraseDups_append]
  by_cases h : k ∈ l
  · simp [List.removeAll, h]
  · simp [List.removeAll, h, List.eraseDups_cons]

/-- The keys of a filled dictionary: the distinct keys in the order of first occurrence. -/
lemma keys_ofEntries (es : List (κ × ν)) :
    (ofEntries es).map Prod.fst = (es.map Prod.fst).eraseDups := by
  induction es using List.reverseRecOn with
  | nil => simp
  | append_singleton es e ih =>
      obtain ⟨k, v⟩ := e
      have hmem : k ∈ (ofEntries es).map Prod.fst ↔ k ∈ es.map Prod.fst := by
        rw [ih, List.mem_eraseDups]
      rw [ofEntries_concat, List.map_append, List.map_singleton, eraseDups_concat, ← ih]
      by_cases h : k ∈ es.map Prod.fst
      · rw [if_pos h, keys_insert_of_mem (hmem.mpr h)]
      · rw [if_neg h, insert_of_notMem v (mt hmem.mp h), List.map_append, List.map_singleton]

/-- A filled dictionary has distinct keys. -/
lemma nodup_keys_ofEntries (es : List (κ × ν)) : ((ofEntries es).map Prod.fst).Nodup := by
  induction es using List.reverseRecOn with
  | nil => simp
  | append_singleton es e ih =>
      obtain ⟨k, v⟩ := e
      rw [ofEntries_concat]
      by_cases h : k ∈ (ofEntries es).map Prod.fst
      · rwa [keys_insert_of_mem h]
      · rw [insert_of_notMem v h, List.map_append, List.nodup_append]
        refine ⟨ih, List.nodup_singleton k, fun a ha b hb hab => h ?_⟩
        have hbk : b = k := by simpa using hb
        rwa [← hbk, ← hab]

/-- A lookup in a filled dictionary finds the last value assigned to the key. -/
lemma lookup_ofEntries (es : List (κ × ν)) (k : κ) :
    (ofEntries es).lookup k = es.reverse.lookup k := by
  induction es using List.reverseRecOn with
  | nil => simp
  | append_singleton es e ih =>
      obtain ⟨k', v⟩ := e
      rw [ofEntries_concat, List.reverse_append, List.reverse_singleton, List.singleton_append]
      by_cases h : k = k'
      · subst h
        rw [lookup_insert_self, List.lookup_cons_self]
      · rw [lookup_insert_of_ne _ h, lookup_cons_of_ne h, ih]

/-- An association list with distinct keys is its keys with their lookups. -/
lemma eq_filterMap_keys : ∀ {d : List (κ × ν)}, (d.map Prod.fst).Nodup →
    d = (d.map Prod.fst).filterMap fun k => (d.lookup k).map fun v => (k, v)
  | [], _ => rfl
  | (k, v) :: d, h => by
      rw [List.map_cons, List.nodup_cons] at h
      have ih := eq_filterMap_keys h.2
      have hcongr : (d.map Prod.fst).filterMap
            (fun k' => (((k, v) :: d).lookup k').map fun v' => (k', v'))
          = (d.map Prod.fst).filterMap fun k' => (d.lookup k').map fun v' => (k', v') := by
        refine List.filterMap_congr fun k' hk' => ?_
        have hne : k' ≠ k := fun he => h.1 (he ▸ hk')
        rw [lookup_cons_of_ne hne]
      rw [List.map_cons, List.filterMap_cons, hcongr, ← ih]
      simp

/-- **A filled dictionary, without the loop**: the distinct keys in the order of their first
occurrence, each with its last value. -/
theorem ofEntries_eq (es : List (κ × ν)) :
    ofEntries es = (es.map Prod.fst).eraseDups.filterMap
      fun k => (es.reverse.lookup k).map fun v => (k, v) := by
  have h := eq_filterMap_keys (nodup_keys_ofEntries es)
  simp only [keys_ofEntries, lookup_ofEntries] at h
  exact h

/-- Entries with distinct keys are kept as they are. -/
lemma ofEntries_of_nodup {es : List (κ × ν)} (h : (es.map Prod.fst).Nodup) :
    ofEntries es = es := by
  induction es using List.reverseRecOn with
  | nil => rfl
  | append_singleton es e ih =>
      obtain ⟨k, v⟩ := e
      rw [List.map_append, List.nodup_append] at h
      have hk : k ∉ es.map Prod.fst := fun hk => h.2.2 k hk k (by simp) rfl
      rw [ofEntries_concat, ih h.1, insert_of_notMem v hk]

end OrderedDict
