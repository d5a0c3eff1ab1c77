import MaxminddbRust.Concurrent.Pool
import Mathlib.Data.List.Induction

/-!
Linearizability of a pool of callers with respect to an object that answers at once.

* `AtomicObject`: an object that answers each operation in one step.
* `Linearized`: an account of a history of calls and returns that places every operation at one
  point between its call and its return, where the object answers it; `Linearizable`: there is
  such an account.
* `Linearized.pullback`: an account of one object is an account of another one that answers alike
  from the states it is a view of.
* `history`: the calls and returns of a run, as the callers see them.
* `Linearizes`: the local proof obligations. Every call has at most one label at which it takes
  effect; there the object answers what the call will return, at the other labels nothing
  happens to it, and a call without such a label has one answer in every state.
* `Holds.linearizable`: the obligations give a linearizable history in every run.
-/

namespace Concurrent

/-- An object that answers each operation in one step. -/
structure AtomicObject (τ A β : Type) where
  init : A
  step : τ → A → β × A

/-- A call or a return, as the callers see it. -/
inductive CallEvent (ι τ β : Type) where
  | call (i : ι) (c : τ)
  | ret (i : ι) (c : τ) (b : β)

variable {ι τ ℓ σ α β A : Type}

/-- What the callers see of an event. -/
def Event.seen (view : α → β) : Event ι τ ℓ α → Option (CallEvent ι τ β)
  | call i c => some (.call i c)
  | ret i c _ a => some (.ret i c (view a))
  | _ => none

/-- The calls and returns of a run. -/
def history (view : α → β) (es : List (Event ι τ ℓ α)) : List (CallEvent ι τ β) :=
  es.filterMap (Event.seen view)

lemma history_concat_of_none {view : α → β} {es : List (Event ι τ ℓ α)} {e : Event ι τ ℓ α}
    (h : e.seen view = none) : history view (es ++ [e]) = history view es := by
  rw [history, List.filterMap_append, ← history]
  simp [h]

lemma history_concat_of_some {view : α → β} {es : List (Event ι τ ℓ α)} {e : Event ι τ ℓ α}
    {o : CallEvent ι τ β} (h : e.seen view = some o) :
    history view (es ++ [e]) = history view es ++ [o] := by
  rw [history, List.filterMap_append, ← history]
  simp [h]

/-- Steps of the environment are not seen. -/
lemma history_replicate_env_append (view : α → β) (n : ℕ) (es : List (Event ι τ ℓ α)) :
    history view (List.replicate n .env ++ es) = history view es := by
  induction n with
  | zero => rfl
  | succ n ih =>
      rw [List.replicate_succ, List.cons_append, history, List.filterMap_cons_none rfl]
      exact ih

/-- A call or a return whose result is seen in another way. -/
def CallEvent.map {γ : Type} (f : β → γ) : CallEvent ι τ β → CallEvent ι τ γ
  | call i c => .call i c
  | ret i c b => .ret i c (f b)

lemma history_map (view : α → β) (es : List (Event ι τ ℓ α)) :
    history view es = (history id es).map (CallEvent.map view) := by
  rw [history, history, List.map_filterMap]
  refine List.filterMap_congr fun e _ => ?_
  cases e <;> rfl

/-- **An account of a history**: the operations in the order in which the object answers them,
the state it is in afterwards, and for each caller the operation it waits for, with the answer if
that has been given. Between the call and the return of an operation lies one `point`, at which
the object answers; the return gives that answer. -/
inductive Linearized [DecidableEq ι] (O : AtomicObject τ A β) :
    List (CallEvent ι τ β) → List (ι × τ × β) → A → (ι → Option (τ × Option β)) → Prop
  | nil : Linearized O [] [] O.init fun _ => none
  | call {H : List (CallEvent ι τ β)} {ops : List (ι × τ × β)} {a : A}
      {st : ι → Option (τ × Option β)} {i : ι} {c : τ} (h : Linearized O H ops a st)
      (idle : st i = none) :
      Linearized O (H ++ [.call i c]) ops a (Function.update st i (some (c, none)))
  | point {H : List (CallEvent ι τ β)} {ops : List (ι × τ × β)} {a a' : A}
      {st : ι → Option (τ × Option β)} {i : ι} {c : τ} {b : β} (h : Linearized O H ops a st)
      (pending : st i = some (c, none)) (answer : O.step c a = (b, a')) :
      Linearized O H (ops ++ [(i, c, b)]) a' (Function.update st i (some (c, some b)))
  | ret {H : List (CallEvent ι τ β)} {ops : List (ι × τ × β)} {a : A}
      {st : ι → Option (τ × Option β)} {i : ι} {c : τ} {b : β} (h : Linearized O H ops a st)
      (answered : st i = some (c, some b)) :
      Linearized O (H ++ [.ret i c b]) ops a (Function.update st i none)

/-- A history of which there is an account. -/
def Linearizable [DecidableEq ι] (O : AtomicObject τ A β) (H : List (CallEvent ι τ β)) : Prop :=
  ∃ ops a st, Linearized O H ops a st

/-- The calls of a history are those of its run. -/
lemma mem_of_call_mem_history {view : α → β} {es : List (Event ι τ ℓ α)} {i : ι} {c : τ}
    (h : .call i c ∈ history view es) : .call i c ∈ es := by
  obtain ⟨e, he, hseen⟩ := List.mem_filterMap.mp h
  cases e with
  | call j d =>
      cases Option.some.inj hseen
      exact he
  | ret => cases Option.some.inj hseen
  | step | env => cases hseen

/-- The calls of a run that ends with an event. -/
lemma call_of_call_mem_concat {es : List (Event ι τ ℓ α)} {e : Event ι τ ℓ α} {j : ι} {d : τ}
    (h : .call j d ∈ es ++ [e]) : .call j d ∈ es ∨ e = .call j d := by
  rcases List.mem_append.mp h with h | h
  · exact Or.inl h
  · exact Or.inr (List.mem_singleton.mp h).symm

/-- The calls of a history that ends with the run of a call alone. -/
lemma call_of_call_mem_exec {es : List (Event ι τ ℓ α)} {i j : ι} {c d : τ} {ls tr : List ℓ} {a : α}
    (h : .call j d ∈ es ++ [.call i c] ++ ls.map (.step i c) ++ [.ret i c tr a]) :
    .call j d ∈ es ∨ j = i ∧ d = c := by
  simpa using h

namespace Linearized

variable [DecidableEq ι] {O : AtomicObject τ A β} {H : List (CallEvent ι τ β)}
  {ops : List (ι × τ × β)} {a : A} {st : ι → Option (τ × Option β)}

/-- What a caller waits for, it has called. -/
lemma called (h : Linearized O H ops a st) : ∀ i c b, st i = some (c, b) → .call i c ∈ H := by
  have hupdate : ∀ {st : ι → Option (τ × Option β)} {i : ι} {o : Option (τ × Option β)}
      {H H' : List (CallEvent ι τ β)}, (∀ j c b, st j = some (c, b) → .call j c ∈ H) → H ⊆ H' →
      (∀ c b, o = some (c, b) → .call i c ∈ H') →
      ∀ j c b, Function.update st i o j = some (c, b) → .call j c ∈ H' := by
    intro st i o H H' hst hsub ho j c b hj
    by_cases hji : j = i
    · subst hji
      rw [Function.update_self] at hj
      exact ho c b hj
    · rw [Function.update_of_ne hji] at hj
      exact hsub (hst j c b hj)
  induction h with
  | nil => exact fun i c b h => nomatch h
  | call _ _ ih =>
      refine hupdate ih (List.subset_append_left _ _) fun c b hb => ?_
      cases hb
      exact List.mem_append_right _ (List.mem_singleton_self _)
  | point _ hpending _ ih =>
      refine hupdate ih (List.Subset.refl _) fun c b hb => ?_
      cases hb
      exact ih _ _ _ hpending
  | ret _ _ ih => exact hupdate ih (List.subset_append_left _ _) fun c b hb => nomatch hb

/-- **Accounts pull back** along a view of the states of one object as those of another, if both
answer the calls made alike. -/
theorem pullback {B : Type} {O' : AtomicObject τ B β} {f : B → A} {ok : τ → Prop}
    (hinit : f O'.init = O.init)
    (hstep : ∀ c b, ok c → O.step c (f b) = ((O'.step c b).1, f (O'.step c b).2))
    (h : Linearized O H ops a st) (hok : ∀ i c, .call i c ∈ H → ok c) :
    ∃ b, f b = a ∧ Linearized O' H ops b st := by
  induction h with
  | nil => exact ⟨O'.init, hinit, .nil⟩
  | call _ idle ih =>
      obtain ⟨b, hb, hlin⟩ := ih fun i c hc => hok i c (List.mem_append_left _ hc)
      exact ⟨b, hb, hlin.call idle⟩
  | @point _ _ _ _ _ i c _ hlin pending answer ih =>
      obtain ⟨b, rfl, hlin'⟩ := ih hok
      rw [hstep c b (hok i c (hlin.called i c none pending))] at answer
      obtain ⟨rfl, rfl⟩ := Prod.mk.inj answer
      exact ⟨_, rfl, hlin'.point pending rfl⟩
  | ret _ answered ih =>
      obtain ⟨b, hb, hlin⟩ := ih fun i c hc => hok i c (List.mem_append_left _ hc)
      exact ⟨b, hb, hlin.ret answered⟩

end Linearized

/-! ### Points of a call -/

/-- Something holds of the shared state at one point of a run from which on a caller has been in
one and the same call. -/
def System.AtPoint [DecidableEq ι] (S : System τ ℓ σ α) (s₀ : σ) (es : List (Event ι τ ℓ α)) (i : ι)
    (c : τ) (p : σ → Prop) : Prop :=
  ∃ es₁ es₂, ∃ P : Pool ι τ ℓ σ α, es = es₁ ++ es₂ ∧ S.Run s₀ es₁ P ∧
    (∃ t, P.tasks i = some t ∧ t.call = c) ∧ (∀ d tr a, .ret i d tr a ∉ es₂) ∧ p P.shared

section Points

variable [DecidableEq ι] {C : Contract τ ℓ σ α} {S : System τ ℓ σ α} {s₀ : σ}
  {es : List (Event ι τ ℓ α)} {P : Pool ι τ ℓ σ α}

/-- The last step of a run. -/
lemma System.Run.last {e : Event ι τ ℓ α} (run : S.Run s₀ (es ++ [e]) P) :
    ∃ P₀, S.Run s₀ es P₀ ∧ S.Step P₀ e P := by
  generalize hes : es ++ [e] = es' at run
  cases run with
  | nil => simp at hes
  | snoc run hs =>
      obtain ⟨rfl, he⟩ := List.append_inj' hes rfl
      obtain rfl := List.singleton_inj.mp he
      exact ⟨_, run, hs⟩

/-- A run that goes on from where nobody is calling. -/
lemma System.Run.trans {s₁ : σ} {es' : List (Event ι τ ℓ α)} (run : S.Run s₀ es (Pool.start s₁))
    (run' : S.Run s₁ es' P) : S.Run s₀ (es ++ es') P := by
  induction run' with
  | nil => rwa [List.append_nil]
  | snoc _ hs ih =>
      rw [← List.append_assoc]
      exact ih.snoc hs

/-- The first part of a run. -/
lemma System.Run.of_append {es' : List (Event ι τ ℓ α)} (run : S.Run s₀ (es ++ es') P) :
    ∃ P₀, S.Run s₀ es P₀ := by
  induction es' using List.reverseRecOn generalizing P with
  | nil => exact ⟨P, by rwa [List.append_nil] at run⟩
  | append_singleton es' e ih =>
      rw [← List.append_assoc] at run
      obtain ⟨P₀, run₀, -⟩ := run.last
      exact ih run₀

/-- Before a call returns, it is in flight with the value to return. -/
lemma System.Run.task_of_ret {es' : List (Event ι τ ℓ α)} {i : ι} {c : τ} {tr : List ℓ} {a : α}
    (run : S.Run s₀ (es ++ .ret i c tr a :: es') P) :
    ∃ P₀, S.Run s₀ es P₀ ∧ P₀.tasks i = some ⟨c, tr, .ret a⟩ := by
  rw [← List.singleton_append, ← List.append_assoc] at run
  obtain ⟨P₁, run₁⟩ := run.of_append
  obtain ⟨P₀, run₀, hs⟩ := run₁.last
  cases hs with
  | ret h => exact ⟨P₀, run₀, h⟩

/-- A point stays one while the caller does not return. -/
lemma System.AtPoint.concat {i : ι} {c : τ} {p : σ → Prop} (h : S.AtPoint s₀ es i c p)
    {e : Event ι τ ℓ α} (he : ∀ d tr a, e ≠ .ret i d tr a) : S.AtPoint s₀ (es ++ [e]) i c p := by
  obtain ⟨es₁, es₂, P, rfl, run, ht, hret, hp⟩ := h
  refine ⟨es₁, es₂ ++ [e], P, List.append_assoc _ _ _, run, ht, fun d tr a hmem => ?_, hp⟩
  rcases List.mem_append.mp hmem with hmem | hmem
  · exact hret d tr a hmem
  · exact he d tr a (List.mem_singleton.mp hmem).symm

lemma System.AtPoint.imp {i : ι} {c : τ} {p q : σ → Prop} (h : S.AtPoint s₀ es i c p)
    (hpq : ∀ s, p s → q s) : S.AtPoint s₀ es i c q := by
  obtain ⟨es₁, es₂, P, hes, run, ht, hret, hp⟩ := h
  exact ⟨es₁, es₂, P, hes, run, ht, hret, hpq _ hp⟩

/-- The call of one caller, after the entry of one has changed. -/
private lemma task_of_update {tasks : ι → Option (Task τ ℓ σ α)} {i j : ι}
    {o : Option (Task τ ℓ σ α)} {t : Task τ ℓ σ α} (h : Function.update tasks j o i = some t) :
    i = j ∧ o = some t ∨ j ≠ i ∧ tasks i = some t := by
  by_cases hij : i = j
  · subst hij
    rw [Function.update_self] at h
    exact Or.inl ⟨rfl, h⟩
  · rw [Function.update_of_ne hij] at h
    exact Or.inr ⟨Ne.symm hij, h⟩

/-- **What a call in flight has emitted, it has emitted at a point since it was called**, by a step
that obeys its guarantee. -/
lemma Contract.Holds.atPoint (hC : C.Holds S) (h₀ : C.inv s₀) (run : S.Run s₀ es P) :
    ∀ i t, P.tasks i = some t → ∀ l ∈ t.emitted,
      S.AtPoint s₀ es i t.call fun s => ∃ s', C.guar t.call s l s' := by
  induction run with
  | nil => exact fun i t h => by simp [Pool.start] at h
  | @snoc es e P P' run hs ih =>
      intro i t ht l hl
      cases hs with
      | @call j c idle hstart =>
          rcases task_of_update ht with ⟨-, ho⟩ | ⟨-, ht⟩
          · cases ho
            cases hl
          · exact (ih i t ht l hl).concat fun _ _ _ h => by cases h
      | @step j c tr label update next h =>
          rcases task_of_update ht with ⟨rfl, ho⟩ | ⟨-, ht⟩
          · cases ho
            rcases List.mem_append.mp hl with hl | hl
            · exact (ih i _ h l hl).concat fun _ _ _ h => by cases h
            · obtain rfl := List.mem_singleton.mp hl
              refine ⟨es, [_], P, rfl, run, ⟨_, h, rfl⟩, fun d tr' a hmem => ?_, _,
                (Contract.Holds.of_atom (hC.sound h₀ run) h).2.2.1⟩
              cases List.mem_singleton.mp hmem
          · exact (ih i t ht l hl).concat fun _ _ _ h => by cases h
      | @ret j c tr a h =>
          rcases task_of_update ht with ⟨-, ho⟩ | ⟨hji, ht⟩
          · cases ho
          · refine (ih i t ht l hl).concat fun _ _ _ h => ?_
            cases h
            exact hji rfl
      | env => exact (ih i t ht l hl).concat fun _ _ _ h => by cases h

end Points

/-! ### The proof obligations -/

/-- What has to be shown of a contract: how the object's state is read off the shared state, at
which labels a call takes effect, and that the object then answers what the call returns. -/
structure Linearizes (C : Contract τ ℓ σ α) (S : System τ ℓ σ α) (O : AtomicObject τ A β)
    (abs : σ → A) (view : α → β) (commits : ℓ → Bool) (ok : τ → Prop) : Prop where
  silent : ∀ c s l s', C.inv s → C.guar c s l s' → commits l = false → abs s' = abs s
  commit : ∀ c s l s' tr x, ok c → C.inv s → C.guar c s l s' → commits l = true → l ∈ tr →
    C.post c tr x → O.step c (abs s) = (view x, abs s')
  once : ∀ c tr x, ok c → C.post c tr x → (tr.filter commits).length ≤ 1
  idle : ∀ c tr x, ok c → C.post c tr x → (∀ l ∈ tr, commits l = false) →
    ∀ a, O.step c a = (view x, a)
  env : ∀ running s s', S.env running s s' → abs s' = abs s

/-- How a call in flight stands in the account: it has taken effect, and can only return the
answer it was given, or it has not. -/
inductive Accounts (C : Contract τ ℓ σ α) (view : α → β) (commits : ℓ → Bool) :
    Option (Task τ ℓ σ α) → Option (τ × Option β) → Prop
  | idle : Accounts C view commits none none
  | pending {t : Task τ ℓ σ α} (h : ∀ l ∈ t.emitted, commits l = false) :
      Accounts C view commits (some t) (some (t.call, none))
  | answered {t : Task τ ℓ σ α} {b : β} {l : ℓ} (hl : l ∈ t.emitted) (hc : commits l = true)
      (h : ∀ tr x, C.post t.call (t.emitted ++ tr) x → view x = b) :
      Accounts C view commits (some t) (some (t.call, some b))

namespace Accounts

variable {C : Contract τ ℓ σ α} {view : α → β} {commits : ℓ → Bool}

/-- The accounts of all callers after the entries of one have changed. -/
lemma update [DecidableEq ι] {tasks : ι → Option (Task τ ℓ σ α)}
    {st : ι → Option (τ × Option β)} (h : ∀ j, Accounts C view commits (tasks j) (st j)) {i : ι}
    {o : Option (Task τ ℓ σ α)} {q : Option (τ × Option β)} (hi : Accounts C view commits o q) :
    ∀ j, Accounts C view commits (Function.update tasks i o j) (Function.update st i q j) := by
  intro j
  by_cases hji : j = i
  · subst hji
    rw [Function.update_self, Function.update_self]
    exact hi
  · rw [Function.update_of_ne hji, Function.update_of_ne hji]
    exact h j

/-- A label at which nothing takes effect leaves a call where it stands. -/
lemma silent {c : τ} {tr : List ℓ} {p q : Prog ℓ σ α} {o : Option (τ × Option β)} {l : ℓ}
    (h : Accounts C view commits (some ⟨c, tr, p⟩) o) (hl : commits l = false) :
    Accounts C view commits (some ⟨c, tr ++ [l], q⟩) o := by
  cases h with
  | pending h =>
      refine .pending (t := ⟨c, tr ++ [l], q⟩) fun l' hl' => ?_
      rcases List.mem_append.mp hl' with hl' | hl'
      · exact h l' hl'
      · rw [List.mem_singleton.mp hl', hl]
  | answered hmem hc h =>
      refine .answered (t := ⟨c, tr ++ [l], q⟩) (List.mem_append_left _ hmem) hc
        fun tr' x hx => h (l :: tr') x ?_
      rwa [List.append_assoc, List.singleton_append] at hx

end Accounts

/-! ### Linearizability of runs -/

section Runs

variable [DecidableEq ι] {C : Contract τ ℓ σ α} {S : System τ ℓ σ α}

/-- The calls in flight after one caller's entry changed. -/
private lemma called_of_update {es : List (Event ι τ ℓ α)} {e : Event ι τ ℓ α}
    {tasks : ι → Option (Task τ ℓ σ α)} {i : ι} {o : Option (Task τ ℓ σ α)}
    (h : ∀ j t, tasks j = some t → .call j t.call ∈ es)
    (ho : ∀ t, o = some t → .call i t.call ∈ es ++ [e]) :
    ∀ j t, Function.update tasks i o j = some t → .call j t.call ∈ es ++ [e] := by
  intro j t hj
  by_cases hji : j = i
  · subst hji
    rw [Function.update_self] at hj
    exact ho t hj
  · rw [Function.update_of_ne hji] at hj
    exact List.mem_append_left _ (h j t hj)

/-- A call in flight has been called. -/
lemma System.Run.called {s₀ : σ} {es : List (Event ι τ ℓ α)} {P : Pool ι τ ℓ σ α}
    (run : S.Run s₀ es P) : ∀ i t, P.tasks i = some t → .call i t.call ∈ es := by
  induction run with
  | nil => exact fun i t h => by simp [Pool.start] at h
  | snoc _ hs ih =>
      cases hs with
      | call =>
          refine called_of_update ih fun t ht => ?_
          cases ht
          exact List.mem_append_right _ (List.mem_singleton_self _)
      | @step i c tr label update next h =>
          have hcall := ih i _ h
          refine called_of_update ih fun t ht => ?_
          cases ht
          exact List.mem_append_left _ hcall
      | ret =>
          refine called_of_update ih fun t ht => ?_
          cases ht
      | env => exact fun j t hj => List.mem_append_left _ (ih j t hj)

omit [DecidableEq ι] in
/-- A call that is about to take a step can go on alone and return, so its specification allows
some labels and some value after that step. -/
lemma exists_post_of_atom {P : Pool ι τ ℓ σ α} (hP : Contract.Holds.PoolOk C P) {i : ι} {c : τ}
    {tr : List ℓ} {label : σ → ℓ} {update : σ → σ} {next : σ → Prog ℓ σ α}
    (h : P.tasks i = some ⟨c, tr, .atom label update next⟩) :
    ∃ tr' x, C.post c (tr ++ [label P.shared] ++ tr') x := by
  obtain ⟨hinv, hlive, -, hsat⟩ := Contract.Holds.of_atom hP h
  exact ⟨_, _, (hsat.exec ⟨hinv, hlive⟩).2⟩

variable {O : AtomicObject τ A β} {abs : σ → A} {view : α → β} {commits : ℓ → Bool}
  {ok : τ → Prop}

omit [DecidableEq ι] in
/-- At a label where a call takes effect, it has not taken effect before. -/
lemma Linearizes.pending_of_commit (hlin : Linearizes C S O abs view commits ok)
    {P : Pool ι τ ℓ σ α} (hP : Contract.Holds.PoolOk C P) {i : ι} {c : τ} {tr : List ℓ}
    {label : σ → ℓ} {update : σ → σ} {next : σ → Prog ℓ σ α} (hc : ok c)
    (h : P.tasks i = some ⟨c, tr, .atom label update next⟩)
    (hl : commits (label P.shared) = true) : ∀ l ∈ tr, commits l = false := by
  obtain ⟨tr', x, hpost⟩ := exists_post_of_atom hP h
  have honce := hlin.once c _ x hc hpost
  intro l hmem
  by_contra hc
  have hpos : 0 < (tr.filter commits).length :=
    List.length_pos_of_mem (List.mem_filter.mpr ⟨hmem, by simpa using hc⟩)
  simp only [List.filter_append, List.length_append, List.filter_cons, hl, if_true,
    List.filter_nil, List.length_singleton] at honce
  omega

/-- **Runs are linearizable**: the account places every call at the label where it takes effect,
and a call without such a label at its return. -/
theorem Linearizes.linearized (hlin : Linearizes C S O abs view commits ok) (hC : C.Holds S)
    {s₀ : σ} (h₀ : C.inv s₀) (hinit : abs s₀ = O.init) {es : List (Event ι τ ℓ α)}
    {P : Pool ι τ ℓ σ α} (run : S.Run s₀ es P) (hok : ∀ i c, .call i c ∈ es → ok c) :
    ∃ ops st, Linearized O (history view es) ops (abs P.shared) st ∧
      ∀ i, Accounts C view commits (P.tasks i) (st i) := by
  induction run with
  | nil => exact ⟨[], fun _ => none, hinit ▸ .nil, fun _ => .idle⟩
  | @snoc es e P P' run hs ih =>
      obtain ⟨ops, st, hacc, hst⟩ := ih fun i c h => hok i c (List.mem_append_left _ h)
      have hP := hC.sound h₀ run
      cases hs with
      | @call i c idle h =>
          have hi := hst i
          rw [idle] at hi
          generalize hq : st i = q at hi
          cases hi
          refine ⟨ops, _, ?_, Accounts.update hst (.pending (t := ⟨c, [], _⟩) (by simp))⟩
          rw [history_concat_of_some (o := .call i c) rfl]
          exact hacc.call hq
      | @step i c tr label update next h =>
          rw [history_concat_of_none rfl]
          obtain ⟨-, -, hguar, -⟩ := Contract.Holds.of_atom hP h
          have hi := hst i
          rw [h] at hi
          cases hl : commits (label P.shared) with
          | false =>
              refine ⟨ops, st, ?_, ?_⟩
              · rw [hlin.silent c _ _ _ hP.inv hguar hl]
                exact hacc
              · have hupd := Accounts.update (i := i) hst (hi.silent (q := next P.shared) hl)
                rwa [Function.update_eq_self] at hupd
          | true =>
              have hcall : ok c := hok i c (List.mem_append_left _ (run.called i _ h))
              have hnone := hlin.pending_of_commit hP hcall h hl
              have hmem : ∀ tr', label P.shared ∈ tr ++ [label P.shared] ++ tr' := fun tr' =>
                List.mem_append_left _ (List.mem_append_right _ (List.mem_singleton_self _))
              obtain ⟨tr', x, hpost⟩ := exists_post_of_atom hP h
              have hanswer := hlin.commit c _ _ _ _ x hcall hP.inv hguar hl (hmem tr') hpost
              generalize hq : st i = q at hi
              cases hi with
              | answered hmem' hc =>
                  have hfalse := hnone _ hmem'
                  rw [hc] at hfalse
                  cases hfalse
              | pending =>
                  refine ⟨_, _, hacc.point hq hanswer, Accounts.update hst ?_⟩
                  refine .answered (t := ⟨c, tr ++ [label P.shared], next P.shared⟩)
                    (List.mem_append_right _ (List.mem_singleton_self _)) hl
                    fun tr'' x' hpost' => ?_
                  have hanswer' :=
                    hlin.commit c _ _ _ _ x' hcall hP.inv hguar hl (hmem tr'') hpost'
                  exact congrArg Prod.fst (hanswer'.symm.trans hanswer)
      | @ret i c tr x h =>
          rw [history_concat_of_some (o := .ret i c (view x)) rfl]
          have hpost : C.post c tr x := by
            have hsat := hP.sat i _ h
            rwa [Prog.Sat, List.append_nil] at hsat
          have hcall : ok c := hok i c (List.mem_append_left _ (run.called i _ h))
          have hi := hst i
          rw [h] at hi
          generalize hq : st i = q at hi
          cases hi with
          | answered _ _ hview =>
              have hx := hview [] x (by rwa [List.append_nil])
              rw [← hx] at hq
              exact ⟨ops, _, hacc.ret hq, Accounts.update hst .idle⟩
          | pending hnone =>
              -- A call that takes effect at no label is answered at its return.
              have hpoint := hacc.point hq (hlin.idle c tr x hcall hpost hnone _)
              refine ⟨_, _, hpoint.ret (Function.update_self i _ _), ?_⟩
              rw [Function.update_idem]
              exact Accounts.update hst .idle
      | @env s h =>
          rw [history_concat_of_none rfl]
          refine ⟨ops, st, ?_, hst⟩
          rw [show abs (⟨s, P.tasks⟩ : Pool ι τ ℓ σ α).shared = abs P.shared from
            hlin.env _ _ _ h]
          exact hacc

end Runs

end Concurrent
