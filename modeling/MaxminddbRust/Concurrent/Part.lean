import MaxminddbRust.Concurrent.Linearizable

/-!
Parts of a system.

* `Part`: a system seen inside another one. Its calls are calls of the whole, on a part of the
  whole's state, which may come to be during a run.
* `Part.Holds`: the calls of the part run its programs, and what the other calls and the
  environment of the whole do is nothing to the part, or a step of the part's own environment.
* `Part.Holds.project`: what the part sees of a run of the whole is a run of the part, so that
  whatever holds of every run of the part holds of it inside the whole.
-/

namespace Concurrent

variable {ι τ ℓ σ α τ' ℓ' σ' α' : Type}

/-- How a system is seen inside another one: when its state is there and where, and which calls,
labels and results of the whole are those of the part. -/
structure Part (τ ℓ σ α τ' ℓ' σ' α' : Type) where
  There : σ → Prop
  get : σ → σ'
  set : σ' → σ → σ
  call : τ → Option τ'
  label : ℓ' → ℓ
  value : α' → α
  result : α → Option α'
  result_value : ∀ a, result (value a) = some a
  there_set : ∀ s s', There s → There (set s' s)
  get_set : ∀ s s', There s → get (set s' s) = s'

namespace Part

variable (V : Part τ ℓ σ α τ' ℓ' σ' α')

/-- A program of the part, as one of the whole. -/
def embed (p : Prog ℓ' σ' α') : Prog ℓ σ α := (p.zoom V.get V.set V.label).map V.value

/-- The calls of the part among those in flight in the whole. -/
def Running (running : τ → Prop) (c' : τ') : Prop := ∃ c, running c ∧ V.call c = some c'

variable (S' : System τ' ℓ' σ' α') (init : σ' → σ → Prop)

/-- What a step beside the part is to it: nothing, or a step of its environment while the calls
are in flight; or the part comes to be. `init` relates the state in which it came to be to the
states of the whole from then on. -/
structure Beside (running : τ' → Prop) (s s' : σ) : Prop where
  there : V.There s → V.There s'
  keeps : ∀ s₀, V.There s → init s₀ s → init s₀ s'
  env : V.There s → V.get s' = V.get s ∨ S'.env running (V.get s) (V.get s')
  comes : ¬V.There s → V.There s' → init (V.get s') s'

/-- The system is a part of the whole, of which the contract holds: its calls run its programs on
its state, and everything else is beside it. -/
structure Holds (C : Contract τ ℓ σ α) (S : System τ ℓ σ α) : Prop where
  contract : C.Holds S
  prog : ∀ c c', V.call c = some c' → S.prog c = V.embed (S'.prog c')
  start : ∀ c c' s, V.call c = some c' → S.canStart c s → V.There s ∧ S'.canStart c' (V.get s)
  set_keeps : ∀ s₀ s s', V.There s → init s₀ s → init s₀ (V.set s' s)
  beside : ∀ c s l s', V.call c = none → C.inv s → C.guar c s l s' →
    ∀ running, V.Beside S' init running s s'
  env : ∀ running s s', C.inv s → S.env running s s' →
    V.Beside S' init (V.Running running) s s'

/-- How a call in flight is seen: as the call of the part that it is, or not at all. -/
inductive Shows : Option (Task τ ℓ σ α) → Option (Task τ' ℓ' σ' α') → Prop
  | idle : Shows none none
  | other {t : Task τ ℓ σ α} (h : V.call t.call = none) : Shows (some t) none
  | own {c : τ} {c' : τ'} (h : V.call c = some c') (tr : List ℓ') (p : Prog ℓ' σ' α') :
      Shows (some ⟨c, tr.map V.label, V.embed p⟩) (some ⟨c', tr, p⟩)

/-- What is seen of an event: the calls and returns of the part. -/
def seen : Event ι τ ℓ α → Option (CallEvent ι τ' α')
  | .call i c => (V.call c).map (.call i)
  | .ret i c _ a => (V.call c).bind fun c' => (V.result a).map (.ret i c')
  | _ => none

/-- The calls and returns of the part in a run of the whole. -/
def history (es : List (Event ι τ ℓ α)) : List (CallEvent ι τ' α') := es.filterMap V.seen

/-- What is seen of a pool: while the part is not there, no calls of it; while it is there, a run
of the part with the same calls in flight and the same calls and returns so far. -/
structure Projects [DecidableEq ι] (es : List (Event ι τ ℓ α)) (P : Pool ι τ ℓ σ α) : Prop where
  before : ¬V.There P.shared → V.history es = [] ∧ ∀ i, V.Shows (P.tasks i) none
  run : V.There P.shared → ∃ s₀ es', ∃ P' : Pool ι τ' ℓ' σ' α', init s₀ P.shared ∧
    S'.Run s₀ es' P' ∧ P'.shared = V.get P.shared ∧ (∀ i, V.Shows (P.tasks i) (P'.tasks i)) ∧
    Concurrent.history id es' = V.history es

variable {V S' init}

lemma history_concat (es : List (Event ι τ ℓ α)) (e : Event ι τ ℓ α) :
    V.history (es ++ [e]) = V.history es ++ (V.seen e).toList := by
  rw [history, List.filterMap_append, ← history]
  cases h : V.seen e <;> simp [h]

lemma history_concat_of_none {es : List (Event ι τ ℓ α)} {e : Event ι τ ℓ α}
    (h : V.seen e = none) : V.history (es ++ [e]) = V.history es := by
  rw [history_concat, h, Option.toList_none, List.append_nil]

namespace Shows

/-- What is seen of all callers after the entries of one have changed. -/
lemma update [DecidableEq ι] {tasks : ι → Option (Task τ ℓ σ α)}
    {tasks' : ι → Option (Task τ' ℓ' σ' α')}
    (h : ∀ j, V.Shows (tasks j) (tasks' j)) {i : ι} {o : Option (Task τ ℓ σ α)}
    {o' : Option (Task τ' ℓ' σ' α')} (hi : V.Shows o o') :
    ∀ j, V.Shows (Function.update tasks i o j) (Function.update tasks' i o' j) := by
  intro j
  by_cases hji : j = i
  · subst hji
    rw [Function.update_self, Function.update_self]
    exact hi
  · rw [Function.update_of_ne hji, Function.update_of_ne hji]
    exact h j

/-- A call of the part is seen, with the program of the part that it still has to run. -/
lemma eq_own {t : Task τ ℓ σ α} {o : Option (Task τ' ℓ' σ' α')} {c' : τ'}
    (h : V.Shows (some t) o) (hc : V.call t.call = some c') :
    ∃ tr p, o = some ⟨c', tr, p⟩ ∧ t.emitted = tr.map V.label ∧ t.rest = V.embed p := by
  cases h with
  | other hnone =>
      rw [hnone] at hc
      cases hc
  | own hown tr p =>
      obtain rfl := Option.some.inj (hown.symm.trans hc)
      exact ⟨tr, p, rfl, rfl, rfl⟩

/-- Another call is not seen. -/
lemma eq_other {t : Task τ ℓ σ α} {o : Option (Task τ' ℓ' σ' α')}
    (h : V.Shows (some t) o) (hc : V.call t.call = none) : o = none := by
  cases h with
  | other => rfl
  | own hown tr p =>
      rw [hown] at hc
      cases hc

lemma eq_idle {o : Option (Task τ' ℓ' σ' α')} (h : V.Shows none o) : o = none := by
  cases h
  rfl

/-- The entry of one caller changes, and is still not seen. -/
lemma update_other [DecidableEq ι] {tasks : ι → Option (Task τ ℓ σ α)} {i : ι}
    {t : Option (Task τ ℓ σ α)}
    (hi : ∀ o, V.Shows (tasks i) o → o = none ∧ V.Shows t none) (j : ι)
    (o : Option (Task τ' ℓ' σ' α')) (h : V.Shows (tasks j) o) :
    V.Shows (Function.update tasks i t j) o := by
  by_cases hji : j = i
  · subst hji
    obtain ⟨rfl, ht⟩ := hi o h
    rw [Function.update_self]
    exact ht
  · rw [Function.update_of_ne hji]
    exact h

/-- The calls of the part that are in flight are seen to be. -/
lemma running_iff {P : Pool ι τ ℓ σ α} {P' : Pool ι τ' ℓ' σ' α'}
    (h : ∀ i, V.Shows (P.tasks i) (P'.tasks i)) : V.Running P.Running = P'.Running := by
  funext c'
  refine propext ⟨?_, ?_⟩
  · rintro ⟨_, ⟨i, t, ht, rfl⟩, hc⟩
    have hi := h i
    rw [ht] at hi
    obtain ⟨tr, p, hq, -⟩ := hi.eq_own hc
    exact ⟨i, _, hq, rfl⟩
  · rintro ⟨i, t', ht', rfl⟩
    have hi := h i
    rw [ht'] at hi
    generalize hq : P.tasks i = q at hi
    cases hi with
    | own hown tr p => exact ⟨_, ⟨i, _, hq, rfl⟩, hown⟩

end Shows

/-- A step beside the part, which leaves what is seen of the callers as it is. -/
lemma Projects.beside [DecidableEq ι] {es : List (Event ι τ ℓ α)} {e : Event ι τ ℓ α}
    {P P' : Pool ι τ ℓ σ α} (h : V.Projects S' init es P)
    (hstep : V.Beside S' init (V.Running P.Running) P.shared P'.shared) (he : V.seen e = none)
    (htasks : ∀ i o, V.Shows (P.tasks i) o → V.Shows (P'.tasks i) o) :
    V.Projects S' init (es ++ [e]) P' where
  before hnot := by
    have hnot' : ¬V.There P.shared := fun hthere => hnot (hstep.there hthere)
    obtain ⟨hhist, hshows⟩ := h.before hnot'
    exact ⟨(history_concat_of_none he).trans hhist, fun i => htasks i _ (hshows i)⟩
  run hthere := by
    by_cases hbefore : V.There P.shared
    · obtain ⟨s₀, es', Q, hinit, hrun, hshared, hshows, hhist⟩ := h.run hbefore
      have htasks' : ∀ i, V.Shows (P'.tasks i) (Q.tasks i) :=
        fun i => htasks i _ (hshows i)
      have hinit' := hstep.keeps s₀ hbefore hinit
      rcases hstep.env hbefore with hsame | henv
      · exact ⟨s₀, es', Q, hinit', hrun, hshared.trans hsame.symm, htasks',
          hhist.trans (history_concat_of_none he).symm⟩
      · rw [Shows.running_iff hshows, ← hshared] at henv
        refine ⟨s₀, _, _, hinit', hrun.snoc (.env henv), rfl, htasks', ?_⟩
        rw [Concurrent.history_concat_of_none rfl, hhist, history_concat_of_none he]
    · obtain ⟨hhist, hshows⟩ := h.before hbefore
      refine ⟨V.get P'.shared, [], Pool.start (V.get P'.shared), hstep.comes hbefore hthere, .nil,
        rfl, fun i => htasks i _ (hshows i), ?_⟩
      rw [history_concat_of_none he, hhist]
      rfl

/-- A call of the part in flight, as it is in the run of the part. -/
lemma Projects.own [DecidableEq ι] {es : List (Event ι τ ℓ α)} {P : Pool ι τ ℓ σ α}
    (h : V.Projects S' init es P) {i : ι} {t : Task τ ℓ σ α} (ht : P.tasks i = some t) {c' : τ'}
    (hc : V.call t.call = some c') :
    V.There P.shared ∧ ∃ s₀ es', ∃ Q : Pool ι τ' ℓ' σ' α', ∃ tr p,
      init s₀ P.shared ∧ S'.Run s₀ es' Q ∧ Q.shared = V.get P.shared ∧
      (∀ i, V.Shows (P.tasks i) (Q.tasks i)) ∧ Concurrent.history id es' = V.history es ∧
      Q.tasks i = some ⟨c', tr, p⟩ ∧ t.emitted = tr.map V.label ∧ t.rest = V.embed p := by
  have hthere : V.There P.shared := by
    by_contra hnot
    have hi := (h.before hnot).2 i
    rw [ht] at hi
    obtain ⟨_, _, ho, -⟩ := hi.eq_own hc
    cases ho
  obtain ⟨s₀, es', Q, hinit, hrun, hshared, hshows, hhist⟩ := h.run hthere
  have hi := hshows i
  rw [ht] at hi
  obtain ⟨tr, p, hq, htr, hrest⟩ := hi.eq_own hc
  exact ⟨hthere, s₀, es', Q, tr, p, hinit, hrun, hshared, hshows, hhist, hq, htr, hrest⟩

section Steps

variable [DecidableEq ι] {C : Contract τ ℓ σ α} {S : System τ ℓ σ α}

/-- **One step of the whole**, as the part sees it. -/
lemma Projects.step (hV : V.Holds S' init C S) {es : List (Event ι τ ℓ α)} {e : Event ι τ ℓ α}
    {P P' : Pool ι τ ℓ σ α} (hP : Contract.Holds.PoolOk C P) (h : V.Projects S' init es P)
    (hs : S.Step P e P') : V.Projects S' init (es ++ [e]) P' := by
  have hstay : V.Beside S' init (V.Running P.Running) P.shared P.shared :=
    ⟨id, fun _ _ h => h, fun _ => Or.inl rfl, fun hnot hthere => absurd hthere hnot⟩
  cases hs with
  | @call i c idle hstart =>
      cases hc : V.call c with
      | none =>
          refine h.beside hstay (by rw [seen, hc]; rfl) (Shows.update_other fun o ho => ?_)
          rw [idle] at ho
          exact ⟨ho.eq_idle, .other hc⟩
      | some c' =>
          obtain ⟨hthere, hstart'⟩ := hV.start c c' _ hc hstart
          refine ⟨fun hnot => absurd hthere hnot, fun _ => ?_⟩
          obtain ⟨s₀, es', Q, hinit, hrun, hshared, hshows, hhist⟩ := h.run hthere
          have hidle : Q.tasks i = none := (idle ▸ hshows i).eq_idle
          rw [← hshared] at hstart'
          refine ⟨s₀, _, _, hinit, hrun.snoc (.call hidle hstart'), hshared,
            Shows.update hshows ?_, ?_⟩
          · rw [hV.prog c c' hc]
            exact .own hc [] _
          · rw [Concurrent.history_concat_of_some (o := .call i c') rfl, hhist, history_concat,
              seen, hc]
            rfl
  | @step i c tr label update next ht =>
      cases hc : V.call c with
      | none =>
          obtain ⟨-, -, hguar, -⟩ := Contract.Holds.of_atom hP ht
          refine h.beside (hV.beside c _ _ _ hc hP.inv hguar _) rfl
            (Shows.update_other fun o ho => ?_)
          rw [ht] at ho
          exact ⟨ho.eq_other hc, .other hc⟩
      | some c' =>
          obtain ⟨hthere, s₀, es', Q, tr', p, hinit, hrun, hshared, hshows, hhist, hq, rfl,
            hrest⟩ := h.own ht hc
          cases p with
          | ret a => cases hrest
          | atom label' update' next' =>
              cases hrest
              refine ⟨fun hnot => absurd (V.there_set _ _ hthere) hnot, fun _ => ?_⟩
              refine ⟨s₀, _, _, hV.set_keeps _ _ _ hthere hinit, hrun.snoc (.step hq), ?_,
                Shows.update hshows ?_, ?_⟩
              · rw [hshared]
                exact (V.get_set _ _ hthere).symm
              · rw [hshared]
                have hshow : V.Shows _ _ :=
                  .own hc (tr' ++ [label' (V.get P.shared)]) (next' (V.get P.shared))
                rwa [List.map_append, List.map_singleton] at hshow
              · rw [Concurrent.history_concat_of_none rfl, hhist, history_concat_of_none rfl]
  | @ret i c tr a ht =>
      cases hc : V.call c with
      | none =>
          refine h.beside hstay (by rw [seen, hc]; rfl) (Shows.update_other fun o ho => ?_)
          rw [ht] at ho
          exact ⟨ho.eq_other hc, .idle⟩
      | some c' =>
          obtain ⟨hthere, s₀, es', Q, tr', p, hinit, hrun, hshared, hshows, hhist, hq, rfl,
            hrest⟩ := h.own ht hc
          cases p with
          | atom label' update' next' => cases hrest
          | ret a' =>
              cases hrest
              refine ⟨fun hnot => absurd hthere hnot, fun _ => ?_⟩
              refine ⟨s₀, _, _, hinit, hrun.snoc (.ret hq), hshared,
                Shows.update hshows .idle, ?_⟩
              rw [Concurrent.history_concat_of_some (o := .ret i c' a') rfl, hhist,
                history_concat, seen, hc, Option.bind_some, V.result_value]
              rfl
  | env henv => exact h.beside (hV.env _ _ _ hP.inv henv) rfl fun i o ho => ho

/-- **What the part sees of a run of the whole is a run of the part.** -/
theorem Holds.project (hV : V.Holds S' init C S) {s₀ : σ} (hinv : C.inv s₀)
    (h₀ : ¬V.There s₀) {es : List (Event ι τ ℓ α)} {P : Pool ι τ ℓ σ α} (run : S.Run s₀ es P) :
    V.Projects S' init es P := by
  induction run with
  | nil => exact ⟨fun _ => ⟨rfl, fun _ => .idle⟩, fun hthere => absurd hthere h₀⟩
  | snoc run hs ih => exact ih.step hV (hV.contract.sound hinv run) hs

end Steps

end Part

end Concurrent
