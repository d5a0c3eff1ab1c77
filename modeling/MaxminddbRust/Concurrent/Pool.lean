import MaxminddbRust.Concurrent.Prog
import Mathlib.Logic.Function.Basic

/-!
Pools of callers whose programs interleave, and the contract rule for them.

* `System`: what a call runs, when it may start, and what the environment may do to the shared
  state while a given set of calls is in flight.
* `Pool`, `Step`, `Run`: any number of callers, each with at most one call in flight; a run is
  any sequence of starts, single atomic steps, returns and environment steps.
* `Run.exec`: the run of a call alone is a run of the pool; `Run.emitted`: what a call has
  emitted, it has emitted by steps of the run.
* `Contract`: an invariant of the shared state, what a call in flight may rely on, what its
  steps guarantee and what it returns. `Contract.Holds` lists the local proof obligations.
* `Holds.inv`, `Holds.guar`, `Holds.post`: the obligations, each about one program or one
  environment step, give the contract in every run (the induction is `Holds.sound`).
-/

namespace Concurrent

/-- What runs: the program of each call, when it may start, and the steps of the environment
while the calls satisfying the predicate are in flight. -/
structure System (τ ℓ σ α : Type) where
  prog : τ → Prog ℓ σ α
  canStart : τ → σ → Prop
  env : (τ → Prop) → σ → σ → Prop

/-- A call in flight: what was called, the labels it emitted so far, the rest of its program. -/
structure Task (τ ℓ σ α : Type) where
  call : τ
  emitted : List ℓ
  rest : Prog ℓ σ α

/-- The shared state and, for every caller, its call in flight. -/
structure Pool (ι τ ℓ σ α : Type) where
  shared : σ
  tasks : ι → Option (Task τ ℓ σ α)

/-- What a step of a pool is seen to do. -/
inductive Event (ι τ ℓ α : Type) where
  | call (i : ι) (c : τ)
  | step (i : ι) (c : τ) (l : ℓ)
  | ret (i : ι) (c : τ) (emitted : List ℓ) (a : α)
  | env

variable {ι τ ℓ σ α : Type}

/-- The calls in flight. -/
def Pool.Running (P : Pool ι τ ℓ σ α) (c : τ) : Prop := ∃ i t, P.tasks i = some t ∧ t.call = c

/-- The pool in which nobody has called yet. -/
def Pool.start (s : σ) : Pool ι τ ℓ σ α := ⟨s, fun _ => none⟩

namespace System

variable [DecidableEq ι] (S : System τ ℓ σ α)

/-- One step of a pool. -/
inductive Step : Pool ι τ ℓ σ α → Event ι τ ℓ α → Pool ι τ ℓ σ α → Prop
  | call {P : Pool ι τ ℓ σ α} {i : ι} {c : τ} (idle : P.tasks i = none)
      (h : S.canStart c P.shared) :
      Step P (.call i c)
        ⟨P.shared, Function.update P.tasks i (some ⟨c, [], S.prog c⟩)⟩
  | step {P : Pool ι τ ℓ σ α} {i : ι} {c : τ} {tr : List ℓ} {label : σ → ℓ} {update : σ → σ}
      {next : σ → Prog ℓ σ α} (h : P.tasks i = some ⟨c, tr, .atom label update next⟩) :
      Step P (.step i c (label P.shared))
        ⟨update P.shared,
          Function.update P.tasks i (some ⟨c, tr ++ [label P.shared], next P.shared⟩)⟩
  | ret {P : Pool ι τ ℓ σ α} {i : ι} {c : τ} {tr : List ℓ} {a : α}
      (h : P.tasks i = some ⟨c, tr, .ret a⟩) :
      Step P (.ret i c tr a) ⟨P.shared, Function.update P.tasks i none⟩
  | env {P : Pool ι τ ℓ σ α} {s : σ} (h : S.env P.Running P.shared s) :
      Step P .env ⟨s, P.tasks⟩

/-- The runs from the state `s₀` with nobody calling: the events in order and the pool reached. -/
inductive Run (s₀ : σ) : List (Event ι τ ℓ α) → Pool ι τ ℓ σ α → Prop
  | nil : Run s₀ [] (Pool.start s₀)
  | snoc {es : List (Event ι τ ℓ α)} {e : Event ι τ ℓ α} {P P' : Pool ι τ ℓ σ α}
      (run : Run s₀ es P) (step : S.Step P e P') : Run s₀ (es ++ [e]) P'

variable {S}

/-- A call in flight, stepping alone until it has returned. -/
lemma Run.finish {s₀ : σ} {i : ι} {c : τ} {p : Prog ℓ σ α} :
    ∀ (es : List (Event ι τ ℓ α)) (s : σ) {tasks : ι → Option (Task τ ℓ σ α)} {tr : List ℓ},
      tasks i = some ⟨c, tr, p⟩ → S.Run s₀ es ⟨s, tasks⟩ →
        S.Run s₀ (es ++ (p.labels s).map (.step i c) ++ [.ret i c (tr ++ p.labels s) (p.value s)])
          ⟨p.final s, Function.update tasks i none⟩ := by
  induction p with
  | ret a =>
      intro es s tasks tr h run
      rw [Prog.labels_ret, List.map_nil, List.append_nil, List.append_nil]
      exact run.snoc (.ret (P := ⟨s, tasks⟩) h)
  | atom label update next ih =>
      intro es s tasks tr h run
      have hnext := ih s (es ++ [.step i c (label s)]) (update s)
        (Function.update_self i _ tasks) (run.snoc (.step (P := ⟨s, tasks⟩) h))
      rw [Function.update_idem] at hnext
      simpa using hnext

/-- **The run of a call alone is a run**: an idle caller may call, step without interruption and
return. -/
lemma Run.exec {s₀ : σ} {es : List (Event ι τ ℓ α)} {P : Pool ι τ ℓ σ α} (run : S.Run s₀ es P)
    {i : ι} {c : τ} (idle : P.tasks i = none) (h : S.canStart c P.shared) :
    S.Run s₀
      (es ++ [.call i c] ++ ((S.prog c).labels P.shared).map (.step i c) ++
        [.ret i c ((S.prog c).labels P.shared) ((S.prog c).value P.shared)])
      ⟨(S.prog c).final P.shared, P.tasks⟩ := by
  have hrun := Run.finish _ _ (Function.update_self i _ P.tasks) (run.snoc (.call idle h))
  rwa [Function.update_idem, Function.update_eq_self_iff.mpr idle.symm, List.nil_append] at hrun

/-- The labels of a call in flight after one caller's entry changed. -/
private lemma emitted_of_update {es : List (Event ι τ ℓ α)} {e : Event ι τ ℓ α}
    {tasks : ι → Option (Task τ ℓ σ α)} {i : ι} {o : Option (Task τ ℓ σ α)}
    (h : ∀ j t, tasks j = some t → ∀ l ∈ t.emitted, .step j t.call l ∈ es)
    (ho : ∀ t, o = some t → ∀ l ∈ t.emitted, .step i t.call l ∈ es ++ [e]) :
    ∀ j t, Function.update tasks i o j = some t →
      ∀ l ∈ t.emitted, .step j t.call l ∈ es ++ [e] := by
  intro j t hj l hl
  by_cases hji : j = i
  · subst hji
    rw [Function.update_self] at hj
    exact ho t hj l hl
  · rw [Function.update_of_ne hji] at hj
    exact List.mem_append_left _ (h j t hj l hl)

/-- What a call has emitted, it has emitted by steps of the run. -/
lemma Run.emitted {s₀ : σ} {es : List (Event ι τ ℓ α)} {P : Pool ι τ ℓ σ α}
    (run : S.Run s₀ es P) :
    (∀ i t, P.tasks i = some t → ∀ l ∈ t.emitted, .step i t.call l ∈ es) ∧
      ∀ i c tr a, .ret i c tr a ∈ es → ∀ l ∈ tr, .step i c l ∈ es := by
  induction run with
  | nil => exact ⟨fun i t h => by simp [Pool.start] at h, fun i c tr a h => by simp at h⟩
  | @snoc es e P P' _ hs ih =>
      refine ⟨?_, fun i c tr a h l hl => ?_⟩
      · cases hs with
        | call =>
            refine emitted_of_update ih.1 fun t ht l hl => ?_
            cases ht
            simp at hl
        | @step i c tr label update next h =>
            refine emitted_of_update ih.1 fun t ht l hl => ?_
            cases ht
            rcases List.mem_append.mp hl with hl | hl
            · exact List.mem_append_left _ (ih.1 i _ h l hl)
            · rw [List.mem_singleton.mp hl]
              exact List.mem_append_right _ (List.mem_singleton_self _)
        | ret => exact emitted_of_update ih.1 fun t ht => nomatch ht
        | env => exact fun i t ht l hl => List.mem_append_left _ (ih.1 i t ht l hl)
      · rcases List.mem_append.mp h with h | h
        · exact List.mem_append_left _ (ih.2 i c tr a h l hl)
        · rw [List.mem_singleton] at h
          subst h
          cases hs with
          | ret ht => exact List.mem_append_left _ (ih.1 i _ ht l hl)

end System

/-! ### Contracts -/

/-- A contract: an invariant of the shared state, what a call in flight relies on, what each of
its steps guarantees, and what it returns after which labels. -/
structure Contract (τ ℓ σ α : Type) where
  inv : σ → Prop
  live : τ → σ → Prop
  guar : τ → σ → ℓ → σ → Prop
  post : τ → List ℓ → α → Prop

namespace Contract

/-- The local obligations of a contract. -/
structure Holds (C : Contract τ ℓ σ α) (S : System τ ℓ σ α) : Prop where
  start : ∀ c s, S.canStart c s → C.inv s → C.live c s
  prog : ∀ c, (S.prog c).Sat (fun s => C.inv s ∧ C.live c s) (C.guar c) (C.post c)
  noninterference : ∀ c c' s l s', C.inv s → C.guar c s l s' → C.live c' s → C.live c' s'
  env_inv : ∀ running s s', S.env running s s' → C.inv s → C.inv s'
  env_live : ∀ running s s' c, S.env running s s' → running c → C.inv s → C.live c s →
    C.live c s'

namespace Holds

variable [DecidableEq ι] {C : Contract τ ℓ σ α} {S : System τ ℓ σ α}

/-- A pool honours the contract: the shared state satisfies the invariant, and every call in
flight finds what it relies on and still satisfies the judgement. -/
structure PoolOk (C : Contract τ ℓ σ α) (P : Pool ι τ ℓ σ α) : Prop where
  inv : C.inv P.shared
  live : ∀ i t, P.tasks i = some t → C.live t.call P.shared
  sat : ∀ i t, P.tasks i = some t →
    t.rest.Sat (fun s => C.inv s ∧ C.live t.call s) (C.guar t.call)
      fun tr a => C.post t.call (t.emitted ++ tr) a

omit [DecidableEq ι] in
/-- An atomic step of a call in flight: the invariant, its reliance and its guarantee. -/
lemma of_atom {P : Pool ι τ ℓ σ α} (hP : PoolOk C P) {i : ι} {c : τ} {tr : List ℓ}
    {label : σ → ℓ} {update : σ → σ} {next : σ → Prog ℓ σ α}
    (h : P.tasks i = some ⟨c, tr, .atom label update next⟩) :
    C.inv (update P.shared) ∧ C.live c (update P.shared) ∧
      C.guar c P.shared (label P.shared) (update P.shared) ∧
      (next P.shared).Sat (fun s => C.inv s ∧ C.live c s) (C.guar c)
        fun tr' a => C.post c (tr ++ [label P.shared] ++ tr') a := by
  obtain ⟨⟨h1, h2⟩, h3, h4⟩ := hP.sat i _ h P.shared ⟨hP.inv, hP.live i _ h⟩
  refine ⟨h1, h2, h3, h4.imp fun tr' a hpost => ?_⟩
  rwa [List.append_assoc]

/-- A call in flight after one caller's entry changed: that entry, or one that was there. -/
lemma of_update_eq_some {tasks : ι → Option (Task τ ℓ σ α)} {i j : ι}
    {o : Option (Task τ ℓ σ α)} {t : Task τ ℓ σ α}
    (h : Function.update tasks i o j = some t) : o = some t ∨ tasks j = some t := by
  by_cases hji : j = i
  · subst hji
    rw [Function.update_self] at h
    exact Or.inl h
  · rw [Function.update_of_ne hji] at h
    exact Or.inr h

/-- Every step of a pool keeps the contract. -/
lemma step (hC : C.Holds S) {P P' : Pool ι τ ℓ σ α} {e : Event ι τ ℓ α} (hP : PoolOk C P)
    (hs : S.Step P e P') : PoolOk C P' := by
  cases hs with
  | @call i c idle h =>
      refine ⟨hP.inv, fun j t hj => ?_, fun j t hj => ?_⟩ <;>
        rcases of_update_eq_some hj with hj | hj
      · cases hj
        exact hC.start _ _ h hP.inv
      · exact hP.live j t hj
      · cases hj
        exact hC.prog _
      · exact hP.sat j t hj
  | @step i c tr label update next h =>
      obtain ⟨hinv, hlive, hguar, hsat⟩ := of_atom hP h
      refine ⟨hinv, fun j t hj => ?_, fun j t hj => ?_⟩ <;>
        rcases of_update_eq_some hj with hj | hj
      · cases hj
        exact hlive
      · exact hC.noninterference c t.call _ _ _ hP.inv hguar (hP.live j t hj)
      · cases hj
        exact hsat
      · exact hP.sat j t hj
  | @ret i c tr a h =>
      refine ⟨hP.inv, fun j t hj => ?_, fun j t hj => ?_⟩ <;>
        rcases of_update_eq_some hj with hj | hj
      · cases hj
      · exact hP.live j t hj
      · cases hj
      · exact hP.sat j t hj
  | env h =>
      exact ⟨hC.env_inv _ _ _ h hP.inv,
        fun j t hj => hC.env_live _ _ _ t.call h ⟨j, t, hj, rfl⟩ hP.inv (hP.live j t hj), hP.sat⟩

/-- **Soundness of contracts**: the local obligations give the contract in every run. -/
theorem sound (hC : C.Holds S) {s₀ : σ} (h₀ : C.inv s₀) {es : List (Event ι τ ℓ α)}
    {P : Pool ι τ ℓ σ α} (run : S.Run s₀ es P) : PoolOk C P := by
  induction run with
  | nil =>
      refine ⟨h₀, fun i t h => ?_, fun i t h => ?_⟩
      · simp [Pool.start] at h
      · simp [Pool.start] at h
  | snoc _ hs ih => exact hC.step ih hs

/-- The invariant holds in every state of every run. -/
lemma inv (hC : C.Holds S) {s₀ : σ} (h₀ : C.inv s₀) {es : List (Event ι τ ℓ α)}
    {P : Pool ι τ ℓ σ α} (run : S.Run s₀ es P) : C.inv P.shared :=
  (hC.sound h₀ run).inv

/-- Every step of a call obeys its guarantee. -/
lemma guar (hC : C.Holds S) {s₀ : σ} (h₀ : C.inv s₀) {es : List (Event ι τ ℓ α)}
    {P P' : Pool ι τ ℓ σ α} (run : S.Run s₀ es P) {i : ι} {c : τ} {l : ℓ}
    (hs : S.Step P (.step i c l) P') : C.guar c P.shared l P'.shared := by
  cases hs with
  | step h => exact (of_atom (hC.sound h₀ run) h).2.2.1

/-- Every call returns what its postcondition allows. -/
lemma post (hC : C.Holds S) {s₀ : σ} (h₀ : C.inv s₀) {es : List (Event ι τ ℓ α)}
    {P : Pool ι τ ℓ σ α} (run : S.Run s₀ es P) {i : ι} {c : τ} {tr : List ℓ} {a : α}
    (h : Event.ret i c tr a ∈ es) : C.post c tr a := by
  induction run with
  | nil => simp at h
  | snoc hr hs ih =>
      rcases List.mem_append.mp h with h | h
      · exact ih h
      · rw [List.mem_singleton] at h
        subst h
        cases hs with
        | ret ht =>
            have hpost := (hC.sound h₀ hr).sat _ _ ht
            rwa [Prog.Sat, List.append_nil] at hpost

end Holds

end Contract

end Concurrent
