import MaxminddbRust.Data.OrderedDict

/-!
Bounded memo tables of a fallible function: an association list that stores outcomes of `f` until
it holds `cap` of them, and never replaces or drops one.

* `Sound`: every stored outcome is the one `f` gives.
* `fetch`: the outcome at a key, stored or computed, and the table after it.
* `fetch_fst`: fetching from a sound table is computing; `Sound.fetch`: a fetch keeps it sound.
* `HoldsFirst`: the table holds the outcomes at the first `cap` distinct keys, of those fetched so
  far, at which `f` has one. `HoldsFirst.fetch`: so it does after every fetch.
-/

namespace Memo

variable {κ ν ε : Type} [BEq κ] [LawfulBEq κ]

/-- Every stored outcome is the one `f` gives. -/
def Sound (f : κ → Except ε ν) (table : List (κ × ν)) : Prop := ∀ e ∈ table, f e.1 = .ok e.2

/-- The outcome at `k` and the table after fetching it. -/
def fetch (f : κ → Except ε ν) (cap : ℕ) (table : List (κ × ν)) (k : κ) :
    Except ε ν × List (κ × ν) :=
  match table.lookup k with
  | some v => (.ok v, table)
  | none => match f k with
    | .error e => (.error e, table)
    | .ok v => (.ok v, if table.length < cap then table ++ [(k, v)] else table)

variable {f : κ → Except ε ν} {cap : ℕ} {table : List (κ × ν)}

omit [BEq κ] [LawfulBEq κ] in
lemma sound_nil : Sound f ([] : List (κ × ν)) := fun _ h => absurd h List.not_mem_nil

/-- A stored outcome is found under its key. -/
lemma Sound.of_lookup : ∀ {table : List (κ × ν)}, Sound f table → ∀ {k : κ} {v : ν},
    table.lookup k = some v → f k = .ok v
  | [], _, k, v, h => by simp at h
  | (k', v') :: table, hs, k, v, h => by
      by_cases hk : k = k'
      · subst hk
        rw [List.lookup_cons_self] at h
        cases h
        exact hs _ List.mem_cons_self
      · rw [OrderedDict.lookup_cons_of_ne hk] at h
        exact Sound.of_lookup (fun e he => hs e (List.mem_cons_of_mem _ he)) h

/-- **Fetching is computing.** -/
lemma fetch_fst (h : Sound f table) (cap : ℕ) (k : κ) : (fetch f cap table k).1 = f k := by
  rw [fetch]
  cases hl : table.lookup k with
  | some v => exact (h.of_lookup hl).symm
  | none => cases f k <;> rfl

omit [LawfulBEq κ] in
/-- A fetch keeps the table sound. -/
lemma Sound.fetch (h : Sound f table) (cap : ℕ) (k : κ) : Sound f (fetch f cap table k).2 := by
  rw [Memo.fetch]
  cases table.lookup k with
  | some v => exact h
  | none =>
      cases hf : f k with
      | error e => exact h
      | ok v =>
          show Sound f (if table.length < cap then table ++ [(k, v)] else table)
          split
          · intro e he
            rcases List.mem_append.mp he with he | he
            · exact h e he
            · rw [List.mem_singleton.mp he]
              exact hf
          · exact h

/-! ### What a table holds -/

/-- The keys at which `f` has an outcome, each at its first occurrence. -/
def computed (f : κ → Except ε ν) (keys : List κ) : List κ :=
  (keys.filter fun k => (f k).toBool).eraseDups

/-- The table holds the outcomes at the first `cap` distinct keys that have one. -/
structure HoldsFirst (f : κ → Except ε ν) (cap : ℕ) (keys : List κ) (table : List (κ × ν)) :
    Prop where
  sound : Sound f table
  keys_eq : table.map Prod.fst = (computed f keys).take cap

omit [LawfulBEq κ] in
lemma holdsFirst_nil (f : κ → Except ε ν) (cap : ℕ) : HoldsFirst f cap [] [] :=
  ⟨sound_nil, by simp [computed]⟩

omit [LawfulBEq κ] in
/-- A key without an outcome leaves the computed ones as they are. -/
lemma computed_concat_of_error {k : κ} {e : ε} (h : f k = .error e) (keys : List κ) :
    computed f (keys ++ [k]) = computed f keys := by
  simp [computed, List.filter_append, h, Except.toBool]

/-- A key with an outcome goes to the end if it is new. -/
lemma computed_concat_of_ok {k : κ} {v : ν} (h : f k = .ok v) (keys : List κ) :
    computed f (keys ++ [k])
      = if k ∈ computed f keys then computed f keys else computed f keys ++ [k] := by
  have hfilter : (keys ++ [k]).filter (fun k => (f k).toBool)
      = keys.filter (fun k => (f k).toBool) ++ [k] := by
    simp [List.filter_append, h, Except.toBool]
  rw [computed, hfilter, OrderedDict.eraseDups_concat]
  simp only [computed, List.mem_eraseDups]

/-- A lookup misses exactly the keys that are not there. -/
lemma lookup_eq_none_iff {table : List (κ × ν)} {k : κ} :
    table.lookup k = none ↔ k ∉ table.map Prod.fst := by
  induction table with
  | nil => simp
  | cons e table ih =>
      obtain ⟨k', v⟩ := e
      by_cases hk : k = k'
      · subst hk
        simp [List.lookup_cons_self]
      · rw [OrderedDict.lookup_cons_of_ne hk, ih]
        simp [hk]

/-- A key without an outcome leaves a sound table as it is. -/
lemma fetch_of_error (h : Sound f table) {k : κ} {e : ε} (hk : f k = .error e) (cap : ℕ) :
    fetch f cap table k = (.error e, table) := by
  rw [fetch]
  cases hl : table.lookup k with
  | some v =>
      rw [h.of_lookup hl] at hk
      cases hk
  | none => rw [hk]

/-- **A fetch keeps the table at the first distinct keys.** -/
lemma HoldsFirst.fetch {keys : List κ} (h : HoldsFirst f cap keys table) (k : κ) :
    HoldsFirst f cap (keys ++ [k]) (fetch f cap table k).2 := by
  cases hk : f k with
  | error e =>
      rw [fetch_of_error h.sound hk]
      exact ⟨h.sound, by rw [computed_concat_of_error hk, h.keys_eq]⟩
  | ok v =>
      refine ⟨h.sound.fetch cap k, ?_⟩
      have hlength : table.length = min cap (computed f keys).length := by
        rw [← List.length_map (f := Prod.fst), h.keys_eq, List.length_take]
      rw [computed_concat_of_ok hk, Memo.fetch]
      cases hl : table.lookup k with
      | some v' =>
          have hmem : k ∈ computed f keys := by
            by_contra hnot
            rw [lookup_eq_none_iff.mpr fun hm => hnot (List.mem_of_mem_take (h.keys_eq ▸ hm))] at hl
            cases hl
          rw [if_pos hmem]
          exact h.keys_eq
      | none =>
          have hnot : k ∉ (computed f keys).take cap := h.keys_eq ▸ lookup_eq_none_iff.mp hl
          simp only [hk]
          by_cases hfull : table.length < cap
          · -- a table that is not full holds every computed key
            have hall : (computed f keys).take cap = computed f keys :=
              List.take_of_length_le (by omega)
            rw [hall] at hnot
            rw [if_pos hfull, if_neg hnot, List.map_append, h.keys_eq, hall,
              List.take_of_length_le (by simp; omega)]
            rfl
          · rw [if_neg hfull, h.keys_eq]
            split
            · rfl
            · rw [List.take_append_of_le_length (by omega)]

omit [LawfulBEq κ] in
/-- A fetch adds to the table at its end. -/
lemma prefix_fetch (f : κ → Except ε ν) (cap : ℕ) (table : List (κ × ν)) (k : κ) :
    table <+: (fetch f cap table k).2 := by
  rw [fetch]
  cases table.lookup k with
  | some v => exact List.prefix_rfl
  | none =>
      cases f k with
      | error e => exact List.prefix_rfl
      | ok v =>
          show table <+: if table.length < cap then table ++ [(k, v)] else table
          split
          · exact List.prefix_append _ _
          · exact List.prefix_rfl

omit [LawfulBEq κ] in
/-- A table never holds more than `cap` outcomes. -/
lemma HoldsFirst.length_le {keys : List κ} (h : HoldsFirst f cap keys table) :
    table.length ≤ cap := by
  rw [← List.length_map (f := Prod.fst), h.keys_eq, List.length_take]
  exact Nat.min_le_left _ _

end Memo
