import MaxminddbRust.PathLock

/-!
The safety of the path cache's lock.

* `Memory.deaths`: the objects that die when references are dropped. `PathCall.EvictsQuietly`: what
  dies with the entry that a call evicts runs no Python code.
* `LockSafe`: what the lock is for. `QuietEvictionStep`: a step that evicts quietly, and whose
  Python code leaves the drops of other threads quiet.
* `lockSafe_of_quietEvictions`: every state of a run of such steps is safe, and every call returns
  if its thread and, where it waits, the holder of the lock go on.
* `pathLock_safe`: from such a state an eviction is safe to its end exactly if it is quiet.
* `pathLock_reentered`: the eviction can run Python code under the lock, which then waits for it.
-/

namespace MaxminddbRust

open Concurrent

/-! ### What dies with an evicted entry -/

namespace Memory

variable {m : Memory} {a : ℕ} {as : List ℕ}

lemma potential_decref (m : Memory) (a : ℕ) : (m.decref a).potential = m.potential := rfl

/-- What is left to drop after the last reference to a live object. -/
lemma potential_free_lt (hlast : m.isLast a = true) (as : List ℕ) :
    2 * (m.items a ++ as).length + (m.free a).potential
      < 2 * (a :: as).length + m.potential := by
  have hfree := m.potential_free (of_decide_eq_true hlast).1
  rw [List.length_append, List.length_cons]
  omega

/-- The objects that die, one after the other, when references to these are dropped, if no Python
code makes a new reference to one of them. -/
def deaths (m : Memory) : List ℕ → List ℕ
  | [] => []
  | a :: as =>
      if m.isLast a then a :: (m.free a).deaths (m.items a ++ as) else (m.decref a).deaths as
termination_by as => 2 * as.length + m.potential
decreasing_by
  · exact potential_free_lt ‹_› as
  · rw [potential_decref, List.length_cons]
    omega

/-- Dropping the references runs no Python code: no object that dies does. -/
def DropsQuietly (m : Memory) (as : List ℕ) : Prop := ∀ a ∈ m.deaths as, m.deathCode a = false

instance (m : Memory) (as : List ℕ) : Decidable (m.DropsQuietly as) :=
  inferInstanceAs (Decidable (∀ a ∈ m.deaths as, m.deathCode a = false))

lemma dropsQuietly_nil : m.DropsQuietly [] := by simp [DropsQuietly, deaths]

/-- The last reference is dropped. -/
lemma dropsQuietly_cons_of_isLast (hlast : m.isLast a = true) :
    m.DropsQuietly (a :: as) ↔
      m.deathCode a = false ∧ (m.free a).DropsQuietly (m.items a ++ as) := by
  rw [DropsQuietly, deaths, if_pos hlast, List.forall_mem_cons]
  rfl

/-- A reference that is not the last one is dropped. -/
lemma dropsQuietly_cons_of_not_isLast (hlast : ¬m.isLast a = true) :
    m.DropsQuietly (a :: as) ↔ (m.decref a).DropsQuietly as := by
  rw [DropsQuietly, deaths, if_neg hlast]
  rfl

/-- What is still referenced elsewhere does not die. -/
lemma dropsQuietly_of_not_isLast (hlast : ¬m.isLast a = true) : m.DropsQuietly [a] :=
  (dropsQuietly_cons_of_not_isLast hlast).mpr dropsQuietly_nil

lemma drop_of_isLast (hlast : m.isLast a = true) (hcode : m.deathCode a = false) :
    m.drop (.decref a) = (m.free a, (m.items a).map .decref) := by
  rw [drop, if_pos hlast, if_neg (by simp [hcode])]

lemma drop_of_not_isLast (hlast : ¬m.isLast a = true) :
    m.drop (.decref a) = (m.decref a, []) := by
  rw [drop, if_neg hlast]

/-- A quiet drop runs no code in its first step, which leaves a quiet drop. -/
lemma drop_of_dropsQuietly (h : m.DropsQuietly (a :: as)) :
    m.codeDue (.decref a) = false ∧ ∃ bs,
      (m.drop (.decref a)).2 ++ as.map .decref = bs.map .decref ∧
      (m.drop (.decref a)).1.DropsQuietly bs := by
  by_cases hlast : m.isLast a = true
  · obtain ⟨hcode, hquiet⟩ := (dropsQuietly_cons_of_isLast hlast).mp h
    rw [drop_of_isLast hlast hcode]
    exact ⟨by simp [codeDue, hcode], m.items a ++ as, List.map_append.symm, hquiet⟩
  · rw [drop_of_not_isLast hlast]
    exact ⟨by simp [codeDue, hlast], as, rfl, (dropsQuietly_cons_of_not_isLast hlast).mp h⟩

end Memory

/-- The entry that the second critical section evicts for a tuple. -/
def SharedMemory.evicted (w : ℕ) (s : SharedMemory) (t : PyTuple) : Option CachedPath :=
  if s.poisoned then none
  else match lookupCachedPathInCache w t s.entries with
    | some _ => none
    | none => if s.entries.length ≥ pathCacheMaxEntries then s.entries.head? else none

namespace PathCall

/-- What dies with the entry that the call evicts in its next step runs no Python code. -/
def EvictsQuietly (w : ℕ) (s : SharedMemory) : PathCall → Prop
  | inserting t _ => ∀ e ∈ s.evicted w t, s.memory.DropsQuietly [e.1.addr]
  | _ => True

/-- The call drops no reference, or none whose drop runs Python code. -/
def DropsQuietly (m : Memory) : PathCall → Prop
  | dropping _ _ work => ∃ as, work = as.map .decref ∧ m.DropsQuietly as
  | _ => True

variable {w : ℕ} {s : SharedMemory} {t : PyTuple} {p : OwnedPath} {c c' : PathCall}

/-- The eviction. -/
lemma run_inserting_of_evicted {e : CachedPath} (h : s.evicted w t = some e) :
    (inserting t p).run w s
      = ({ s with entries := s.entries.tail }, .goto (dropping t p [.decref e.1.addr])) := by
  rw [SharedMemory.evicted] at h
  by_cases hp : s.poisoned = true
  · rw [if_pos hp] at h
    cases h
  · rw [if_neg hp] at h
    cases hlookup : lookupCachedPathInCache w t s.entries with
    | some cachedPath => simp [hlookup] at h
    | none =>
        simp only [hlookup] at h
        by_cases hfull : s.entries.length ≥ pathCacheMaxEntries
        · rw [if_pos hfull] at h
          rw [run, if_neg hp, hlookup]
          simp only [if_pos hfull, h]
          rfl
        · rw [if_neg hfull] at h
          cases h

/-- Without an eviction the second critical section drops nothing. -/
lemma run_inserting_of_not_evicted (h : s.evicted w t = none)
    (hrun : ((inserting t p).run w s).2 = .goto c') (m : Memory) : c'.DropsQuietly m := by
  rw [SharedMemory.evicted] at h
  by_cases hp : s.poisoned = true
  · rw [run, if_pos hp] at hrun
    cases hrun
  · rw [if_neg hp] at h
    rw [run, if_neg hp] at hrun
    cases hlookup : lookupCachedPathInCache w t s.entries with
    | some cachedPath =>
        rw [hlookup] at hrun
        cases hrun
    | none =>
        simp only [hlookup] at h hrun
        by_cases hfull : s.entries.length ≥ pathCacheMaxEntries
        · rw [if_pos hfull] at h hrun
          rw [h] at hrun
          cases hrun
          exact ⟨[], rfl, Memory.dropsQuietly_nil⟩
        · rw [if_neg hfull] at hrun
          cases hrun
          exact trivial

lemma not_codeDue_of_dropsQuietly {m : Memory} (h : c.DropsQuietly m) : ¬c.CodeDue m := by
  cases c with
  | dropping t p work =>
      obtain ⟨as, rfl, hquiet⟩ := h
      cases as with
      | nil => exact id
      | cons a as =>
          intro hdue
          have hcode := (Memory.drop_of_dropsQuietly hquiet).1
          exact Bool.false_ne_true (hcode.symm.trans hdue)
  | _ => exact id

lemma dropsQuietly_of_not_critical (hc : ¬c.critical = true) (m : Memory) : c.DropsQuietly m := by
  cases c with
  | dropping t p work => exact absurd rfl hc
  | _ => exact trivial

lemma evictsQuietly_of_not_critical (hc : ¬c.critical = true) : c.EvictsQuietly w s := by
  cases c with
  | inserting t p => exact absurd rfl hc
  | _ => exact trivial

/-- A critical section evicts once at most: after a step inside it nothing is left to evict. -/
lemma evictsQuietly_of_run {s' : SharedMemory} (hc : c.critical = true)
    (hrun : (c.run w s).2 = .goto c') : c'.EvictsQuietly w s' := by
  cases c with
  | looking t override =>
      by_cases hp : s.poisoned = true
      · rw [run, if_pos hp] at hrun
        cases hrun
        exact trivial
      · rw [run, if_neg hp] at hrun
        cases hlookup : lookupCachedPathInCache w t s.entries <;> rw [hlookup] at hrun <;>
          cases hrun
        exact trivial
  | inserting t p =>
      by_cases hp : s.poisoned = true
      · rw [run, if_pos hp] at hrun
        cases hrun
      · rw [run, if_neg hp] at hrun
        cases hlookup : lookupCachedPathInCache w t s.entries <;> rw [hlookup] at hrun
        · simp only at hrun
          split_ifs at hrun <;> cases hrun <;> exact trivial
        · cases hrun
  | dropping t p work =>
      cases work with
      | nil =>
          cases hrun
          exact trivial
      | cons d work =>
          by_cases hdue : s.memory.codeDue d = true
          · rw [run_dropping_of_due hdue] at hrun
            cases hrun
          · rw [run_dropping hdue] at hrun
            cases hrun
            exact trivial
  | pushing t p => cases hrun
  | _ => cases hc

/-- **Quiet evictions are dropped quietly**: from a quiet point whose eviction is quiet, a call
goes on to a quiet point. -/
lemma dropsQuietly_run (hdrops : c.DropsQuietly s.memory) (hevicts : c.EvictsQuietly w s)
    (hrun : (c.run w s).2 = .goto c') : c'.DropsQuietly (c.run w s).1.memory := by
  cases c with
  | start path => cases path <;> cases hrun <;> exact trivial
  | looking t override =>
      by_cases hp : s.poisoned = true
      · rw [run, if_pos hp] at hrun
        cases hrun
        exact trivial
      · rw [run, if_neg hp] at hrun
        cases hlookup : lookupCachedPathInCache w t s.entries <;> rw [hlookup] at hrun <;>
          cases hrun
        exact trivial
  | parsing path =>
      rw [run] at hrun
      cases hparse : parsePath w path <;> rw [hparse] at hrun
      · cases hrun
      · cases path <;> cases hrun
        exact trivial
  | parsed t p =>
      cases hrun
      exact trivial
  | inserting t p =>
      cases hevicted : s.evicted w t with
      | none => exact run_inserting_of_not_evicted hevicted hrun _
      | some e =>
          rw [run_inserting_of_evicted hevicted] at hrun ⊢
          cases hrun
          exact ⟨[e.1.addr], rfl, hevicts e hevicted⟩
  | dropping t p work =>
      obtain ⟨as, rfl, hquiet⟩ := hdrops
      cases as with
      | nil =>
          cases hrun
          exact trivial
      | cons a as =>
          obtain ⟨hcode, bs, hbs, hquiet'⟩ := Memory.drop_of_dropsQuietly hquiet
          have hstep := run_dropping (w := w) (t := t) (p := p) (s := s) (d := .decref a)
            (by rw [hcode]; exact Bool.false_ne_true) (as.map .decref)
          rw [List.map_cons, hstep] at hrun ⊢
          cases hrun
          exact ⟨bs, hbs, hquiet'⟩
  | pushing t p => cases hrun

/-- Outside its critical sections a call leaves the cache and the memory alone. -/
lemma run_of_not_critical (hc : c.critical = false) : (c.run w s).1 = s := by
  cases c with
  | start path => cases path <;> rfl
  | parsing path =>
      rw [run]
      cases parsePath w path with
      | error e => rfl
      | ok ownedPath => cases path <;> rfl
  | parsed t p => rfl
  | _ => cases hc

end PathCall

namespace Machine

/-! ### What the lock is for -/

section Safety

variable {ι : Type}

/-- The next step of the innermost call of the thread evicts quietly, if it evicts an entry. -/
def EvictsQuietly (w : ℕ) (M : Machine ι) (i : ι) : Prop :=
  ∀ c rest, M.stack i = .call c :: rest → c.EvictsQuietly w M.shared

/-- The drops that are in progress run no Python code. -/
def DropsQuietly (M : Machine ι) : Prop :=
  ∀ i c rest, M.stack i = .call c :: rest → c.DropsQuietly M.shared.memory

variable [DecidableEq ι]

/-- No Python code runs under the lock, no thread takes the lock that it holds, and every call
that is the innermost frame of its thread gets an answer: if its thread and, where it waits, the
holder of the lock go on, and they evict quietly, it returns. -/
structure LockSafe (w : ℕ) (M : Machine ι) : Prop where
  noPython : ∀ i rest, M.holder = some i → M.stack i ≠ .python :: rest
  noReentry : ∀ i c rest, M.holder = some i → M.stack i = .call c :: rest → ¬c.Acquires
  answered : ∀ i c rest, M.stack i = .call c :: rest →
    Eventually (serve w i) (fun N => ∀ j, N.EvictsQuietly w j)
      (fun N => N.stack i = rest ∧ ∃ log a, N.answers = M.answers ++ log ++ [(i, a)]) M

/-- A step that evicts quietly, if it evicts an entry. If it is one of Python code, it leaves the
drops in progress quiet, which are those of other threads; while Python holds its interpreter lock
there are none. -/
def QuietEvictionStep (w : ℕ) (M M' : Machine ι) : Prop :=
  ∃ i, Step w i M M' ∧ M.EvictsQuietly w i ∧
    ∀ rest, M.stack i = .python :: rest → M.DropsQuietly → M'.DropsQuietly

end Safety

variable {ι : Type} [DecidableEq ι] {w : ℕ} {i : ι} {M M' : Machine ι} {c : PathCall}
  {rest : List Frame}

/-! ### Quiet evictions -/

omit [DecidableEq ι] in
lemma not_codeDue_of_dropsQuietly (h : M.DropsQuietly) (i : ι) : ¬M.CodeDue i := by
  rintro ⟨c, rest, hi, hdue⟩
  exact PathCall.not_codeDue_of_dropsQuietly (h i c rest hi) hdue

/-- A step of a call that evicts quietly leaves the drops in progress quiet. -/
lemma dropsQuietly_of_callStep (hM : M.Disciplined Frame.critical) (hdrops : M.DropsQuietly)
    (hi : M.stack i = .call c :: rest) (hevicts : c.EvictsQuietly w M.shared)
    (hstep : M.callStep w i = some M') : M'.DropsQuietly := by
  have hdue := PathCall.not_codeDue_of_dropsQuietly (hdrops i c rest hi)
  rw [callStep_eq hi, Option.map_eq_some_iff] at hstep
  obtain ⟨L, hL, rfl⟩ := hstep
  have hstack := Locked.stack_of_replace hL
  intro j cj restj hj
  show cj.DropsQuietly (c.run w M.shared).1.memory
  replace hj : L.stack j = .call cj :: restj := hj
  rw [hstack] at hj
  by_cases hji : j = i
  · subst hji
    rw [Function.update_self] at hj
    rcases PathCall.run_of_not_codeDue (w := w) hdue with ⟨c', hrun⟩ | ⟨a, hrun⟩ <;>
      rw [hrun] at hj
    · cases hj
      exact PathCall.dropsQuietly_run (hdrops j c rest hi) hevicts hrun
    · refine PathCall.dropsQuietly_of_not_critical ?_ _
      have hbelow := hM.below j _ rest hi (.call cj)
        (by rw [show rest = .call cj :: restj from hj]; exact List.mem_cons_self)
      exact fun hc => Bool.false_ne_true (hbelow.symm.trans hc)
  · rw [Function.update_of_ne hji] at hj
    by_cases hcj : cj.critical = true
    · -- the other thread holds the lock, so this call does nothing to the memory
      have hheld := (hM.critical_iff hj).mp hcj
      have hc : c.critical = false := by
        by_contra hc
        have hheld' := (hM.critical_iff hi).mp (Bool.not_eq_false _ ▸ hc)
        rw [hheld, Option.some.injEq] at hheld'
        exact hji hheld'
      rw [PathCall.run_of_not_critical hc]
      exact hdrops j cj restj hj
    · exact PathCall.dropsQuietly_of_not_critical hcj _

/-- **Quiet evictions keep the lock's discipline**, and the drops in progress quiet. -/
lemma QuietEvictionStep.keeps (hM : M.Disciplined Frame.critical) (hdrops : M.DropsQuietly)
    (h : QuietEvictionStep w M M') : M'.Disciplined Frame.critical ∧ M'.DropsQuietly := by
  obtain ⟨i, hstep, hevicts, hpython⟩ := h
  refine ⟨hstep.disciplined hM (not_codeDue_of_dropsQuietly hdrops i), ?_⟩
  cases hstep with
  | call h =>
      cases hi : M.stack i with
      | nil => simp [callStep, hi] at h
      | cons f rest =>
          cases f with
          | python => simp [callStep, hi] at h
          | call c => exact dropsQuietly_of_callStep hM hdrops hi (hevicts c rest hi) h
  | enter path h => exact hpython _ h hdrops
  | @iterate path rest hpath h =>
      intro j c restj hj
      by_cases hji : j = i
      · subst hji
        simp [withStack] at hj
      · refine hdrops j c restj ?_
        simpa [withStack, hji] using hj
  | ret h => exact hpython _ h hdrops
  | python m h keeps => exact hpython _ h hdrops
  | poison => exact hdrops

omit [DecidableEq ι] in
lemma initial_dropsQuietly (m : Memory) : (initial m : Machine ι).DropsQuietly := by
  intro i c rest hi
  cases hi

/-- The run lemma. -/
lemma quietEvictions_keep (hM : M.Disciplined Frame.critical) (hdrops : M.DropsQuietly)
    (run : Relation.ReflTransGen (QuietEvictionStep w) M M') :
    M'.Disciplined Frame.critical ∧ M'.DropsQuietly := by
  induction run with
  | refl => exact ⟨hM, hdrops⟩
  | tail _ hstep ih => exact hstep.keeps ih.1 ih.2

/-! ### Every call is answered -/

/-- What is left to do until a call of thread `i` returns: by the call, by the holder of the lock
if it is another thread, and for the objects that they drop. -/
def distance (i : ι) (M : Machine ι) : ℕ :=
  M.weight i + (match M.holder with
    | some j => if j = i then 0 else M.weight j
    | none => 0) + M.shared.memory.potential

/-- A step of the call itself brings it closer to its return. -/
lemma distance_lt_of_call (hi : M.stack i = .call c :: rest) {c' : PathCall}
    (h : Advanced i c rest M M') (hi' : M'.stack i = .call c' :: rest)
    (hless : c'.weight + M'.shared.memory.potential < c.weight + M.shared.memory.potential) :
    distance i M' < distance i M := by
  have hother : (match M'.holder with
      | some j => if j = i then 0 else M'.weight j
      | none => 0) ≤ match M.holder with
      | some j => if j = i then 0 else M.weight j
      | none => 0 := by
    cases hheld : M'.holder with
    | none => exact Nat.zero_le _
    | some j =>
        by_cases hj : j = i
        · simp [hj]
        · obtain ⟨hstack, hholder⟩ := h.others j hj
          rw [hholder.mp hheld]
          simp [hj, weight, hstack]
  rw [distance, distance, weight_of_call hi, weight_of_call hi']
  omega

/-- A step of the holder, while the call waits, brings the call closer to its return. -/
lemma distance_lt_of_holder {j : ι} (hj : j ≠ i) {cj : PathCall} {restj : List Frame}
    (hstack : M.stack j = .call cj :: restj) (hheld : M.holder = some j)
    (h : Advanced j cj restj M M') : distance i M' < distance i M := by
  have hi : M'.weight i = M.weight i := by rw [weight, weight, (h.others i hj.symm).1]
  have hnot : M'.holder ≠ some i := by
    rw [ne_eq, (h.others i hj.symm).2, hheld, Option.some.injEq]
    exact hj
  have hM : distance i M = M.weight i + cj.weight + M.shared.memory.potential := by
    rw [distance, hheld, ← weight_of_call hstack]
    simp [hj]
  rw [hM, distance, hi]
  cases hheld' : M'.holder with
  | none =>
      rcases h.goes with ⟨c', -, -, hless⟩ | ⟨a, -, -, -, hless⟩ <;>
        · simp only
          omega
  | some k =>
      have hk : k = j := by
        by_contra hk
        have hsame := (h.others k hk).2.mp hheld'
        rw [hheld, Option.some.injEq] at hsame
        exact hk hsame.symm
      subst hk
      rcases h.goes with ⟨c', hstack', -, hless⟩ | ⟨a, -, -, hfree, -⟩
      · simp only [if_neg hj, weight_of_call hstack']
        omega
      · exact absurd hheld' hfree

/-- **Every call is answered**: where the lock is disciplined and the drops in progress are quiet,
a call returns if its thread and, where it waits, the holder of the lock go on, as long as they
evict quietly. -/
lemma answered_of_disciplined (hM : M.Disciplined Frame.critical) (hdrops : M.DropsQuietly)
    (hi : M.stack i = .call c :: rest) :
    Eventually (serve w i) (fun N => ∀ j, N.EvictsQuietly w j)
      (fun N => N.stack i = rest ∧ ∃ log a, N.answers = M.answers ++ log ++ [(i, a)]) M := by
  refine Eventually.of_measure (fun N => (N.Disciplined Frame.critical ∧ N.DropsQuietly) ∧
    (∃ log, N.answers = M.answers ++ log) ∧ ∃ c, N.stack i = .call c :: rest) (distance i) ?_ M
    ⟨⟨hM, hdrops⟩, ⟨[], by simp⟩, c, hi⟩
  rintro N ⟨⟨hN, hquiet⟩, ⟨log, hlog⟩, c, hi⟩
  cases hstep : N.callStep w i with
  | some N' =>
      refine ⟨N', by rw [serve, hstep]; rfl, fun hevicts => ?_⟩
      have hquiet' := dropsQuietly_of_callStep hN hquiet hi (hevicts i c rest hi) hstep
      have hadv := advanced_of_callStep hN hi (not_codeDue_of_dropsQuietly hquiet i) hstep
      rcases hadv.goes with ⟨c', hi', hans, hless⟩ | ⟨a, hrest, hans, -, -⟩
      · exact .inr ⟨⟨⟨hadv.disciplined, hquiet'⟩, ⟨log, hans.trans hlog⟩, c', hi'⟩,
          distance_lt_of_call hi hadv hi' hless⟩
      · exact .inl ⟨hrest, log, a, by rw [hans, hlog]⟩
  | none =>
      -- the call waits for another thread, which holds the lock and does not wait
      have hwait :
          N.replace Frame.critical i (.call c) (c.run w N.shared).2.frames rest = none := by
        rw [callStep_eq hi, Option.map_eq_none_iff] at hstep
        exact hstep
      obtain ⟨j, hheld, hj⟩ := hN.holder_of_waits hi hwait
      obtain ⟨cj, restj, hstack, -⟩ := exists_call_of_holder hN hheld
      obtain ⟨L, hL⟩ := hN.replace_of_holder hstack hheld (cj.run w N.shared).2.frames
      have hstepj := callStep_eq (w := w) hstack
      rw [hL, Option.map_some] at hstepj
      refine ⟨_, by rw [serve, hstep, Option.none_or, hheld, Option.bind_some, hstepj],
        fun hevicts => .inr ?_⟩
      have hquiet' := dropsQuietly_of_callStep hN hquiet hstack (hevicts j cj restj hstack) hstepj
      have hadv := advanced_of_callStep hN hstack (not_codeDue_of_dropsQuietly hquiet j) hstepj
      refine ⟨⟨⟨hadv.disciplined, hquiet'⟩, ?_, c, ?_⟩, distance_lt_of_holder hj hstack hheld hadv⟩
      · rcases hadv.goes with ⟨c', -, hans, -⟩ | ⟨a, -, hans, -⟩
        · exact ⟨log, hans.trans hlog⟩
        · exact ⟨log ++ [(j, a)], by rw [hans, hlog, List.append_assoc]⟩
      · rw [(hadv.others i hj.symm).1, hi]

/-- Where the lock is disciplined and the drops in progress are quiet, it is safe. -/
lemma lockSafe_of_disciplined (w : ℕ) (hM : M.Disciplined Frame.critical)
    (hdrops : M.DropsQuietly) : LockSafe w M where
  noPython i rest hheld hi := by
    obtain ⟨c, rest', hi', -⟩ := exists_call_of_holder hM hheld
    rw [hi] at hi'
    cases hi'
  noReentry i c rest hheld hi hacq := by
    have hcritical : c.critical = true := (hM.critical_iff hi).mpr hheld
    rw [PathCall.critical_of_acquires hacq] at hcritical
    cases hcritical
  answered i c rest hi := answered_of_disciplined hM hdrops hi

/-- **The lock of the path cache is safe** in every run in which what dies with an evicted entry
runs no Python code. -/
lemma lockSafe_of_quietEvictions {m : Memory}
    (run : Relation.ReflTransGen (QuietEvictionStep w) (initial m) M) : LockSafe w M := by
  obtain ⟨hM, hdrops⟩ := quietEvictions_keep (initial_disciplined m) (initial_dropsQuietly m) run
  exact lockSafe_of_disciplined w hM hdrops

/-! ### Calls with tuples of one index -/

section Numbers

/-- A tuple of one index, at the address of the same number. Its class does not override
`__iter__`. -/
def numberTuple (k : ℕ) : PyTuple := ⟨k, [.int k], true⟩

/-- The entries of the first `n` tuples. -/
def numberEntries (n : ℕ) : List CachedPath :=
  (List.range n).map fun k => (numberTuple k, [.Index k])

/-- The answers to calls with the first `n` tuples. -/
def numberAnswers (n : ℕ) : List (Unit × PyResult OwnedPath) :=
  (List.range n).map fun k => ((), .ok [.Index k])

/-- The memory with the first 65 tuples, to each of which Python has one reference, and the cache
one to each of the first `n`. The death of the first tuple runs code. -/
def numberMemory (n : ℕ) : Memory where
  live := Finset.range 65
  refs a := if a < n then 2 else 1
  items _ := []
  deathCode a := a == 0

/-- The only thread runs Python code. -/
def idle (s : SharedMemory) (ans : List (Unit × PyResult OwnedPath)) : Machine Unit :=
  ⟨⟨fun _ => [.python], none⟩, s, ans⟩

/-- It is at a point of a call. -/
def busy (c : PathCall) (s : SharedMemory) (ans : List (Unit × PyResult OwnedPath)) :
    Machine Unit :=
  (idle s ans).atPoint () [.python] c s ans

/-- The cache has the entries of the first `n` tuples, and the thread runs Python code. -/
def filled (n : ℕ) : Machine Unit :=
  idle ⟨numberEntries n, false, numberMemory n⟩ (numberAnswers n)

/-- The call is one with a tuple of one index. -/
def OfNumber : PathCall → Prop
  | .start path | .parsing path => ∃ k, path = .tuple (numberTuple k) none
  | .looking t override => override = none ∧ ∃ k, t = numberTuple k
  | .parsed t _ | .inserting t _ | .dropping t _ _ | .pushing t _ => ∃ k, t = numberTuple k

/-- The machine has tuples of one index only. -/
def OfNumbers (M : Machine Unit) : Prop :=
  (∀ e ∈ M.shared.entries, ∃ k, e.1 = numberTuple k) ∧
    ∀ i c, .call c ∈ M.stack i → OfNumber c

/-- A quiet eviction step between such machines. -/
def NumberStep (M M' : Machine Unit) : Prop := QuietEvictionStep 64 M M' ∧ M'.OfNumbers

variable {s s' : SharedMemory} {ans : List (Unit × PyResult OwnedPath)}

lemma ofNumbers_busy (hentries : ∀ e ∈ s.entries, ∃ k, e.1 = numberTuple k) (hc : OfNumber c) :
    (busy c s ans).OfNumbers := by
  refine ⟨hentries, fun i d hd => ?_⟩
  have hstack : (busy c s ans).stack i = [.call c, .python] := stack_atPoint
  rw [hstack] at hd
  obtain rfl : d = c := by simpa using hd
  exact hc

/-- A step to another point of a call. -/
lemma numberStep_goto {c' : PathCall} (hrun : c.run 64 s = (s', .goto c'))
    (hevicts : c.EvictsQuietly 64 s) (hentries : ∀ e ∈ s'.entries, ∃ k, e.1 = numberTuple k)
    (hc' : OfNumber c') : NumberStep (busy c s ans) (busy c' s' ans) := by
  have hstack : (busy c s ans).stack () = [.call c, .python] := stack_atPoint
  refine ⟨⟨(), .call (callStep_goto hrun), ?_, ?_⟩, ofNumbers_busy hentries hc'⟩
  · intro d rest hd
    rw [hstack] at hd
    cases hd
    exact hevicts
  · intro rest hpython
    rw [hstack] at hpython
    cases hpython

/-- The last step of a call. -/
lemma numberStep_answer {a : PyResult OwnedPath} (hrun : c.run 64 s = (s', .answer a))
    (hevicts : c.EvictsQuietly 64 s) (hentries : ∀ e ∈ s'.entries, ∃ k, e.1 = numberTuple k) :
    NumberStep (busy c s ans) (idle s' (ans ++ [((), a)])) := by
  have hstack : (busy c s ans).stack () = [.call c, .python] := stack_atPoint
  have hreturned : (idle s ans).returned () [.python] s' (ans ++ [((), a)])
      = idle s' (ans ++ [((), a)]) := by
    have hpython : Function.update (idle s ans).stack () [.python] = fun _ => [.python] := by
      funext u
      simp
    rw [returned, hpython]
    rfl
  refine ⟨⟨(), .call (hreturned ▸ callStep_answer hrun), ?_, ?_⟩, hentries, ?_⟩
  · intro d rest hd
    rw [hstack] at hd
    cases hd
    exact hevicts
  · intro rest hpython
    rw [hstack] at hpython
    cases hpython
  · intro i d hd
    exact absurd hd (by simp [idle])

/-- A call with a tuple comes to its second critical section if the cache has no entry for it. -/
lemma reaches_inserting {k : ℕ} (hp : ¬s.poisoned = true)
    (miss : lookupCachedPathInCache 64 (numberTuple k) s.entries = none)
    (parsed : parsePath 64 (.tuple (numberTuple k) none) = .ok [.Index k])
    (hentries : ∀ e ∈ s.entries, ∃ k, e.1 = numberTuple k) :
    Relation.ReflTransGen NumberStep (idle s ans)
      (busy (.inserting (numberTuple k) [.Index k]) s ans) := by
  have henter : NumberStep (idle s ans) (busy (.start (.tuple (numberTuple k) none)) s ans) := by
    refine ⟨⟨(), .enter _ rfl, ?_, ?_⟩, ofNumbers_busy hentries ⟨k, rfl⟩⟩
    · intro c rest h
      cases h
    · intro rest _ _ i c rest' hi
      have hstack : (busy (.start (.tuple (numberTuple k) none)) s ans).stack i
          = [.call (.start (.tuple (numberTuple k) none)), .python] := stack_atPoint
      rw [hstack] at hi
      cases hi
      exact trivial
  have hlooking : (PathCall.looking (numberTuple k) none).run 64 s
      = (s, .goto (.parsing (.tuple (numberTuple k) none))) := by
    rw [PathCall.run, if_neg hp, miss]
  have hparsing : (PathCall.parsing (.tuple (numberTuple k) none)).run 64 s
      = (s, .goto (.parsed (numberTuple k) [.Index k])) := by
    rw [PathCall.run, parsed]
  exact ((((Relation.ReflTransGen.single henter).tail
    (numberStep_goto rfl trivial hentries ⟨rfl, k, rfl⟩)).tail
    (numberStep_goto hlooking trivial hentries ⟨k, rfl⟩)).tail
    (numberStep_goto hparsing trivial hentries ⟨k, rfl⟩)).tail
    (numberStep_goto rfl trivial hentries ⟨k, rfl⟩)

lemma parsePath_numberTuple {k : ℕ} (hk : k ≤ 64) :
    parsePath 64 (.tuple (numberTuple k) none) = .ok [.Index k] := by
  have hword : toIsize 64 k = some (k : ℤ) := by
    rw [toIsize, isizeMin, isizeMax, if_pos (by omega)]
  have helement : parseElement 64 (.int k) = .ok (.Index k) := by
    rw [parseElement_int, hword]
    simp [signedIndexToOwnedPathElement]
  rw [parsePath_tuple_of_plain rfl]
  exact parseItems_nil_cons_eq_ok_iff.mpr ⟨_, [], helement, rfl, rfl⟩

/-- No tuple finds the entry of another one. -/
lemma lookup_numberTuple {k : ℕ} {entries : List CachedPath}
    (h : ∀ e ∈ entries, ∃ j, j ≠ k ∧ e = (numberTuple j, [.Index j])) (hk : k ≤ 64) :
    lookupCachedPathInCache 64 (numberTuple k) entries = none := by
  rw [lookupCachedPathInCache, Option.map_eq_none_iff, Option.or_eq_none_iff,
    List.find?_eq_none, List.find?_eq_none]
  constructor
  · intro e he
    obtain ⟨j, hj, rfl⟩ := h e he
    simpa [numberTuple] using hj
  · intro e he hmatch
    obtain ⟨j, hj, rfl⟩ := h e he
    have hparse := parsePath_numberTuple hk
    rw [parsePath_tuple_of_plain rfl, pathTupleMatchesOwned_iff.mp hmatch] at hparse
    exact hj (by simpa using hparse)

lemma mem_numberEntries {n k : ℕ} (hk : n ≤ k) {e : CachedPath} (he : e ∈ numberEntries n) :
    ∃ j, j ≠ k ∧ e = (numberTuple j, [.Index j]) := by
  obtain ⟨j, hj, rfl⟩ := List.mem_map.mp he
  have hlt := List.mem_range.mp hj
  exact ⟨j, by omega, rfl⟩

lemma incref_numberMemory (n : ℕ) : (numberMemory n).incref n = numberMemory (n + 1) := by
  have hrefs : Function.update (numberMemory n).refs n ((numberMemory n).refs n + 1)
      = (numberMemory (n + 1)).refs := by
    funext a
    by_cases ha : a = n
    · subst ha
      simp [numberMemory]
    · have hlt : a < n ↔ a < n + 1 := by omega
      rw [Function.update_of_ne ha]
      simp only [numberMemory, hlt]
  rw [Memory.incref, hrefs]
  rfl

lemma exists_number_of_mem {n : ℕ} : ∀ e ∈ numberEntries n, ∃ k, e.1 = numberTuple k := by
  intro e he
  obtain ⟨k, -, rfl⟩ := List.mem_map.mp he
  exact ⟨k, rfl⟩

/-- While there is room, a call with the next tuple adds its entry. -/
lemma filled_succ {n : ℕ} (hn : n < 64) :
    Relation.ReflTransGen NumberStep (filled n) (filled (n + 1)) := by
  let s : SharedMemory := ⟨numberEntries n, false, numberMemory n⟩
  have hp : ¬s.poisoned = true := Bool.false_ne_true
  have miss : lookupCachedPathInCache 64 (numberTuple n) s.entries = none :=
    lookup_numberTuple (fun e he => mem_numberEntries le_rfl he) (by omega)
  have room : ¬s.entries.length ≥ pathCacheMaxEntries := by
    simp [s, numberEntries, pathCacheMaxEntries]
    omega
  have hpush : (PathCall.inserting (numberTuple n) [.Index n]).run 64 s
      = (s, .goto (.pushing (numberTuple n) [.Index n])) := by
    rw [PathCall.run, if_neg hp, miss, if_neg room]
  have hevicted : s.evicted 64 (numberTuple n) = none := by
    rw [SharedMemory.evicted, if_neg hp, miss]
    exact if_neg room
  have hentries : s.entries ++ [(numberTuple n, [.Index n])] = numberEntries (n + 1) := by
    rw [numberEntries, List.range_succ, List.map_append]
    rfl
  have hanswers : numberAnswers n ++ [((), .ok [.Index n])] = numberAnswers (n + 1) := by
    rw [numberAnswers, numberAnswers, List.range_succ, List.map_append]
    rfl
  have hmemory : s.memory.incref (numberTuple n).addr = numberMemory (n + 1) :=
    incref_numberMemory n
  have hreach : Relation.ReflTransGen NumberStep (idle s (numberAnswers n))
      (busy (.pushing (numberTuple n) [.Index n]) s (numberAnswers n)) :=
    (reaches_inserting hp miss (parsePath_numberTuple (by omega)) exists_number_of_mem).tail
      (numberStep_goto hpush (by simp [PathCall.EvictsQuietly, hevicted]) exists_number_of_mem
        ⟨n, rfl⟩)
  have hanswer : (PathCall.pushing (numberTuple n) [.Index n]).run 64 s
      = (⟨numberEntries (n + 1), false, numberMemory (n + 1)⟩, .answer (.ok [.Index n])) := by
    rw [PathCall.run, hentries, hmemory]
  have hlast := hreach.tail (numberStep_answer hanswer trivial exists_number_of_mem)
  rwa [hanswers] at hlast

/-- The cache can be filled. -/
lemma reaches_filled {n : ℕ} (hn : n ≤ 64) :
    Relation.ReflTransGen NumberStep (initial (numberMemory 0)) (filled n) := by
  induction n with
  | zero => exact .refl
  | succ n ih => exact (ih (by omega)).trans (filled_succ (by omega))

/-- The call with the 65th tuple is about to evict the oldest entry. -/
def evicting : Machine Unit :=
  busy (.inserting (numberTuple 64) [.Index 64]) ⟨numberEntries 64, false, numberMemory 64⟩
    (numberAnswers 64)

/-- It is about to push its own entry: the reference to the first tuple has been dropped. -/
def pushingLast : Machine Unit :=
  busy (.pushing (numberTuple 64) [.Index 64])
    ⟨(numberEntries 64).tail, false, (numberMemory 64).decref 0⟩ (numberAnswers 64)

lemma lookup_last : lookupCachedPathInCache 64 (numberTuple 64) (numberEntries 64) = none :=
  lookup_numberTuple (fun _ he => mem_numberEntries le_rfl he) le_rfl

lemma reaches_evicting :
    Relation.ReflTransGen NumberStep (initial (numberMemory 0)) evicting :=
  (reaches_filled le_rfl).trans (reaches_inserting Bool.false_ne_true lookup_last
    (parsePath_numberTuple le_rfl) exists_number_of_mem)

/-- The oldest entry is evicted, whatever the memory is. -/
lemma evicted_last (m : Memory) : SharedMemory.evicted 64 ⟨numberEntries 64, false, m⟩
    (numberTuple 64) = some (numberTuple 0, [.Index 0]) := by
  rw [SharedMemory.evicted, if_neg Bool.false_ne_true, lookup_last]
  rfl

/-- Python refers to the first tuple. -/
lemma not_isLast_zero : ¬(numberMemory 64).isLast 0 = true := by
  simp [Memory.isLast, numberMemory]

lemma reaches_pushingLast :
    Relation.ReflTransGen NumberStep (initial (numberMemory 0)) pushingLast := by
  have htail : ∀ e ∈ (numberEntries 64).tail, ∃ k, e.1 = numberTuple k :=
    fun e he => exists_number_of_mem e (List.mem_of_mem_tail he)
  have hquiet : (PathCall.inserting (numberTuple 64) [.Index 64]).EvictsQuietly 64
      ⟨numberEntries 64, false, numberMemory 64⟩ := by
    intro e he
    rw [evicted_last, Option.mem_some_iff] at he
    exact he ▸ Memory.dropsQuietly_of_not_isLast not_isLast_zero
  have hdropping : (PathCall.dropping (numberTuple 64) [.Index 64] [.decref 0]).run 64
      ⟨(numberEntries 64).tail, false, numberMemory 64⟩
      = (⟨(numberEntries 64).tail, false, (numberMemory 64).decref 0⟩,
        .goto (.dropping (numberTuple 64) [.Index 64] [])) := by
    rw [PathCall.run_dropping (by simp [Memory.codeDue, not_isLast_zero]),
      Memory.drop_of_not_isLast not_isLast_zero]
    rfl
  exact ((reaches_evicting.tail
    (numberStep_goto (PathCall.run_inserting_of_evicted (evicted_last _)) hquiet htail
      ⟨64, rfl⟩)).tail
    (numberStep_goto hdropping trivial htail ⟨64, rfl⟩)).tail
    (numberStep_goto rfl trivial htail ⟨64, rfl⟩)

lemma quietEvictions_of_numberSteps {M N : Machine Unit}
    (run : Relation.ReflTransGen NumberStep M N) :
    Relation.ReflTransGen (QuietEvictionStep 64) M N :=
  Relation.ReflTransGen.mono (fun _ _ h => h.1) _ _ run

end Numbers

/-! ### The exact condition of an eviction -/

/-- A step of the call with which thread `i` holds the lock. -/
def HeldStep (w : ℕ) (i : ι) (M M' : Machine ι) : Prop :=
  M.holder = some i ∧ M.callStep w i = some M'

/-- Every state to the end of the section in which thread `i` is, by its own steps, is safe. -/
def SafeSection (w : ℕ) (i : ι) (M : Machine ι) : Prop :=
  ∀ N, Relation.ReflTransGen (HeldStep w i) M N → LockSafe w N

/-- A step of the holder's call leads to a call that has no eviction in its next step. -/
lemma evictsQuietly_of_callStep (hM : M.Disciplined Frame.critical) (hdrops : M.DropsQuietly)
    (h : HeldStep w i M M') : M'.EvictsQuietly w i := by
  obtain ⟨hheld, hstep⟩ := h
  obtain ⟨c, rest, hi, hc⟩ := exists_call_of_holder hM hheld
  have hdue := PathCall.not_codeDue_of_dropsQuietly (hdrops i c rest hi)
  rw [callStep_eq hi, Option.map_eq_some_iff] at hstep
  obtain ⟨L, hL, rfl⟩ := hstep
  intro c' rest' hi'
  replace hi' : L.stack i = .call c' :: rest' := hi'
  rw [Locked.stack_of_replace hL, Function.update_self] at hi'
  rcases PathCall.run_of_not_codeDue (w := w) hdue with ⟨d, hrun⟩ | ⟨a, hrun⟩ <;>
    rw [hrun] at hi'
  · cases hi'
    exact PathCall.evictsQuietly_of_run hc hrun
  · refine PathCall.evictsQuietly_of_not_critical ?_
    have hbelow := hM.below i _ rest hi (.call c')
      (by rw [show rest = .call c' :: rest' from hi']; exact List.mem_cons_self)
    exact fun hc' => Bool.false_ne_true (hbelow.symm.trans hc')

/-- If its eviction is quiet, the rest of the section is a run of quiet evictions. -/
lemma quietEvictions_of_heldSteps (hM : M.Disciplined Frame.critical) (hdrops : M.DropsQuietly)
    (hevicts : M.EvictsQuietly w i) (run : Relation.ReflTransGen (HeldStep w i) M M') :
    Relation.ReflTransGen (QuietEvictionStep w) M M' ∧ M'.EvictsQuietly w i := by
  induction run with
  | refl => exact ⟨.refl, hevicts⟩
  | @tail N N' _ hstep ih =>
      obtain ⟨hrun, hevicts⟩ := ih
      obtain ⟨hN, hquiet⟩ := quietEvictions_keep hM hdrops hrun
      have hcall : ∀ rest, N.stack i ≠ .python :: rest := fun rest hi => by
        have hnone := hstep.2
        rw [callStep, hi] at hnone
        cases hnone
      exact ⟨hrun.tail ⟨i, .call hstep.2, hevicts, fun rest hi => absurd hi (hcall rest)⟩,
        evictsQuietly_of_callStep hN hquiet hstep⟩

/-- The holder's call is at a point of its section. -/
lemma eq_atPoint (hheld : M.holder = some i) (hi : M.stack i = .call c :: rest)
    (hc : c.critical = true) : M = M.atPoint i rest c M.shared M.answers := by
  obtain ⟨⟨stack, holder⟩, shared, answers⟩ := M
  obtain rfl : holder = some i := hheld
  rw [atPoint, if_pos hc, ← hi, Function.update_eq_self]

/-- A safe drop runs no code in its first step, which leaves a safe drop. -/
lemma SafeSection.drop {t : PyTuple} {p : OwnedPath} {d : Drop} {work : List Drop}
    {s : SharedMemory} {ans : List (ι × PyResult OwnedPath)}
    (h : SafeSection w i (M.atPoint i rest (.dropping t p (d :: work)) s ans)) :
    s.memory.codeDue d = false ∧
      SafeSection w i (M.atPoint i rest (.dropping t p ((s.memory.drop d).2 ++ work))
        { s with memory := (s.memory.drop d).1 } ans) := by
  by_cases hdue : s.memory.codeDue d = true
  · have hsafe := h _ (.single ⟨rfl, callStep_interrupt (by rfl) (by rfl)
      (PathCall.run_dropping_of_due hdue work)⟩)
    exact absurd (Function.update_self i _ M.stack) (hsafe.noPython i _ rfl)
  · exact ⟨Bool.not_eq_true _ ▸ hdue, fun N hN =>
      h N (.head ⟨rfl, callStep_goto (PathCall.run_dropping hdue work)⟩ hN)⟩

/-- A safe drop is quiet. The cases are those of `deaths`. -/
lemma dropsQuietly_of_safeSection {t : PyTuple} {p : OwnedPath} {entries : List CachedPath}
    {poisoned : Bool} {ans : List (ι × PyResult OwnedPath)} (m : Memory) (as : List ℕ)
    (h : SafeSection w i (M.atPoint i rest (.dropping t p (as.map .decref))
      ⟨entries, poisoned, m⟩ ans)) : m.DropsQuietly as := by
  induction m, as using Memory.deaths.induct with
  | case1 m => exact Memory.dropsQuietly_nil
  | case2 m a as hlast ih =>
      obtain ⟨hdue, hsafe⟩ := h.drop
      have hcode : m.deathCode a = false := by simpa [Memory.codeDue, hlast] using hdue
      rw [Memory.drop_of_isLast hlast hcode, ← List.map_append] at hsafe
      exact (Memory.dropsQuietly_cons_of_isLast hlast).mpr ⟨hcode, ih hsafe⟩
  | case3 m a as hlast ih =>
      obtain ⟨-, hsafe⟩ := h.drop
      rw [Memory.drop_of_not_isLast hlast] at hsafe
      exact (Memory.dropsQuietly_cons_of_not_isLast hlast).mpr (ih hsafe)

/-- **The lock of the path cache**: in every run in which what dies with an evicted entry runs no
Python code, every state is safe: no Python code runs under the lock, no thread takes the lock that
it holds, and every call is answered. From each of these states a call that evicts an entry is
safe to the end of its section exactly if what dies with the entry runs no Python code. -/
theorem pathLock_safe (w : ℕ) (m : Memory)
    (run : Relation.ReflTransGen (QuietEvictionStep w) (initial m) M) :
    LockSafe w M ∧ ∀ i t p rest e, M.stack i = .call (.inserting t p) :: rest →
      M.shared.evicted w t = some e →
      (SafeSection w i M ↔ M.shared.memory.DropsQuietly [e.1.addr]) := by
  obtain ⟨hM, hdrops⟩ := quietEvictions_keep (initial_disciplined m) (initial_dropsQuietly m) run
  refine ⟨lockSafe_of_disciplined w hM hdrops, fun i t p rest e hi hevicted =>
    ⟨fun hsafe => ?_, fun hquiet N hN => ?_⟩⟩
  · have hheld : M.holder = some i := (hM.critical_iff hi).mp rfl
    have hgoto : (M.atPoint i rest (.inserting t p) M.shared M.answers).callStep w i = some _ :=
      callStep_goto (PathCall.run_inserting_of_evicted hevicted)
    rw [← eq_atPoint hheld hi rfl] at hgoto
    exact dropsQuietly_of_safeSection M.shared.memory [e.1.addr]
      fun N hN => hsafe N (.head ⟨hheld, hgoto⟩ hN)
  · have hevicts : M.EvictsQuietly w i := by
      intro c rest' hi'
      rw [hi] at hi'
      cases hi'
      intro e' he'
      rw [hevicted, Option.mem_some_iff] at he'
      exact he' ▸ hquiet
    exact lockSafe_of_quietEvictions
      (run.trans (quietEvictions_of_heldSteps hM hdrops hevicts hN).1)

/-- The cache is full, and Python refers to the tuple of its oldest entry, whose death would run
code: the call with the 65th tuple evicts it, and is safe to the end of its section. -/
theorem pathLock_safe_evicting :
    evicting.shared.evicted 64 (numberTuple 64) = some (numberTuple 0, [.Index 0]) ∧
      evicting.shared.memory.deathCode 0 = true ∧ LockSafe 64 evicting ∧
      SafeSection 64 () evicting ∧ LockSafe 64 pushingLast := by
  obtain ⟨hsafe, hsection⟩ := pathLock_safe 64 (numberMemory 0)
    (quietEvictions_of_numberSteps reaches_evicting)
  refine ⟨evicted_last _, rfl, hsafe, ?_, ?_⟩
  · exact (hsection () _ _ _ _ stack_atPoint (evicted_last _)).mpr
      (Memory.dropsQuietly_of_not_isLast not_isLast_zero)
  · exact (pathLock_safe 64 (numberMemory 0)
      (quietEvictions_of_numberSteps reaches_pushingLast)).1

/-! ### Python code under the lock -/

section Reentry

/-- The machine can come from one state to the other. -/
def Reaches (w : ℕ) : Machine ι → Machine ι → Prop :=
  Relation.ReflTransGen fun M M' => ∃ i, Step w i M M'

lemma reaches_of_numberSteps {M N : Machine Unit}
    (run : Relation.ReflTransGen NumberStep M N) : Reaches 64 M N :=
  Relation.ReflTransGen.mono (fun _ _ h => h.1.imp fun _ hstep => hstep.1) _ _ run

/-- The thread gives up its reference to the first cached tuple, the oldest one. -/
lemma keeps_decref :
    (filled 64).Keeps ((numberMemory 64).decref 0) := by
  intro i a howned
  have hentries : (filled 64).owned i a = (List.range 64).count a := by
    have haddr : ((numberEntries 64).map fun e => e.1.addr) = List.range 64 := by
      simp [numberEntries, numberTuple, Function.comp_def]
    show ((numberEntries 64).map fun e => e.1.addr).count a + 0 = _
    rw [haddr, Nat.add_zero]
  rw [hentries] at howned ⊢
  have hlt : a < 64 := List.mem_range.mp (List.count_pos_iff.mp howned)
  have hone : (List.range 64).count a ≤ 1 := List.nodup_iff_count_le_one.mp List.nodup_range a
  refine ⟨Finset.mem_range.mpr (by omega), hone.trans ?_⟩
  rw [Memory.decref]
  by_cases ha : a = 0
  · simp [ha, numberMemory]
  · simp [ha, hlt, numberMemory]

/-- A call waits for good for a lock that its own thread holds. -/
lemma not_answered_of_reentry (hheld : M.holder = some i) (hi : M.stack i = .call c :: rest)
    (hacq : c.Acquires) :
    ¬Eventually (serve w i) (fun N => ∀ j, N.EvictsQuietly w j)
      (fun N => N.stack i = rest ∧ ∃ log a, N.answers = M.answers ++ log ++ [(i, a)]) M := by
  have hstep : M.callStep w i = none := by
    rw [callStep_eq hi, Option.map_eq_none_iff, Locked.replace]
    cases c with
    | start path =>
        cases path with
        | tuple t override =>
            simp [PathCall.run, Reply.frames, Frame.critical, PathCall.critical, hheld]
        | _ => exact hacq.elim
    | parsed t path =>
        simp [PathCall.run, Reply.frames, Frame.critical, PathCall.critical, hheld]
    | _ => exact hacq.elim
  have hserve : serve w i M = none := by
    rw [serve, hstep, hheld, Option.none_or, Option.bind_some, hstep]
  refine Eventually.not_of_stuck hserve ?_
  rintro ⟨hrest, -⟩
  rw [hi] at hrest
  exact List.cons_ne_self _ _ hrest

/-- **The eviction can run Python code under the lock**: with the cache full of the first 64 tuples
and no other reference to the first one, a call with the next tuple evicts it, and the code of its
death runs while the call holds the lock. If it calls `get_path` with a tuple, then this call waits
for the lock that its own thread holds, and is never answered. -/
theorem pathLock_reentered : ∃ M M' : Machine Unit,
    Reaches 64 (initial (numberMemory 0)) M ∧ Step 64 () M M' ∧
    (M.holder = some () ∧ ∃ rest, M.stack () = .python :: rest) ∧
    (M'.holder = some () ∧ ∃ c rest, M'.stack () = .call c :: rest ∧ c.Acquires ∧
      ¬Eventually (serve 64 ()) (fun N => ∀ j, N.EvictsQuietly 64 j)
        (fun N => N.stack () = rest ∧ ∃ log a, N.answers = M'.answers ++ log ++ [((), a)]) M') ∧
    ¬LockSafe 64 M ∧ ¬LockSafe 64 M' := by
  let s : SharedMemory := ⟨numberEntries 64, false, (numberMemory 64).decref 0⟩
  have hpython : Step 64 () (filled 64) (idle s (numberAnswers 64)) := .python _ rfl keeps_decref
  have hinserting : Reaches 64 (initial (numberMemory 0))
      (busy (.inserting (numberTuple 64) [.Index 64]) s (numberAnswers 64)) :=
    ((reaches_of_numberSteps (reaches_filled le_rfl)).tail ⟨(), hpython⟩).trans
      (reaches_of_numberSteps (reaches_inserting Bool.false_ne_true lookup_last
        (parsePath_numberTuple le_rfl) exists_number_of_mem))
  have hdue : s.memory.codeDue (.decref 0) = true := by
    simp [s, Memory.codeDue, Memory.isLast, Memory.decref, numberMemory]
  have hinterrupt := PathCall.run_dropping_of_due (w := 64) (t := numberTuple 64)
    (p := [.Index 64]) (s := ⟨s.entries.tail, false, s.memory⟩) hdue []
  have hdropping := hinserting.tail ⟨(), .call (callStep_goto
    (PathCall.run_inserting_of_evicted (evicted_last _)))⟩
  have hreached := hdropping.tail ⟨(), .call (callStep_interrupt rfl rfl hinterrupt)⟩
  refine ⟨_, _, hreached, .enter (.tuple (numberTuple 0) none) rfl, ⟨rfl, _, rfl⟩,
    ⟨rfl, _, _, rfl, trivial, not_answered_of_reentry rfl rfl trivial⟩,
    fun hsafe => hsafe.noPython () _ rfl rfl,
    fun hsafe => hsafe.noReentry () _ _ rfl rfl trivial⟩

end Reentry

end Machine

end MaxminddbRust
