import MaxminddbRust.Concurrent.Pool

/-!
Programs that borrow a cell for some of their steps.

* `Use`: what a step has to do with the cell. `Sharing`: what callers who share a cell keep.
* `Sharing.Sections`: the judgement. A program leaves the cell alone outside its sections; it is
  granted the cell or refused it at once; and it gives the cell back with the next step, with the
  invariant restored.
* `holder`: who has the cell after a run. `Sectioned`: the invariant of a run.
* `Sharing.Kept.sectioned`, `Sharing.Kept.used`, `Sharing.Kept.post_of_ret`: one caller at most has
  the cell, nobody else changes it, a caller is refused only while another one has it, and every
  call returns what its postcondition allows.
-/

namespace Concurrent

variable {ι τ ℓ σ ε α β : Type}

/-! ### Programs -/

/-- What a step has to do with the cell. -/
inductive Use where
  | none
  | granted
  | refused
  | release

/-- What callers who share a cell keep: `take` marks it as borrowed, `inv` holds of it while nobody
has it, and `guar` of the state in which a caller gets it and the one in which it is given back. -/
structure Sharing (ℓ σ : Type) where
  use : ℓ → Use
  take : σ → σ
  inv : σ → Prop
  guar : σ → ℓ → σ → Prop

namespace Sharing

variable (B : Sharing ℓ σ)

/-- **The judgement**, of a program that has not got the cell, or has got it in a state: what it
returns satisfies `Q` together with the labels that it emits. -/
def Sections : (List ℓ → α → Prop) → Option σ → Prog ℓ σ α → Prop
  | Q, none, .ret a => Q [] a
  | _, some _, .ret _ => False
  | Q, none, .atom label update next => ∀ s, B.inv s →
      (B.use (label s) = .none ∧ update s = s ∧
          Sections (fun tr a => Q (label s :: tr) a) none (next s) ∨
        B.use (label s) = .granted ∧ update s = B.take s ∧
          Sections (fun tr a => Q (label s :: tr) a) (some s) (next s)) ∧
      (B.use (label (B.take s)) = .none ∨ B.use (label (B.take s)) = .refused) ∧
        update (B.take s) = B.take s ∧
          Sections (fun tr a => Q (label (B.take s) :: tr) a) none (next (B.take s))
  | Q, some s, .atom label update next =>
      B.use (label (B.take s)) = .release ∧ B.inv (update (B.take s)) ∧
        B.guar s (label (B.take s)) (update (B.take s)) ∧
          Sections (fun tr a => Q (label (B.take s) :: tr) a) none (next (B.take s))

namespace Sections

variable {B}

/-- The rule of consequence. -/
lemma imp {p : Prog ℓ σ α} : ∀ {Q Q' : List ℓ → α → Prop} {o : Option σ},
    (∀ tr a, Q tr a → Q' tr a) → B.Sections Q o p → B.Sections Q' o p := by
  induction p with
  | ret a =>
      intro Q Q' o hQ h
      cases o with
      | none => exact hQ [] a h
      | some s => exact h
  | atom label update next ih =>
      intro Q Q' o hQ h
      cases o with
      | none =>
          intro s hs
          obtain ⟨hfree, hkind, hsame, hn⟩ := h s hs
          refine ⟨?_, hkind, hsame, ih _ (fun tr a => hQ _ a) hn⟩
          rcases hfree with ⟨hkind, hsame, hn⟩ | ⟨hkind, htake, hn⟩
          · exact Or.inl ⟨hkind, hsame, ih _ (fun tr a => hQ _ a) hn⟩
          · exact Or.inr ⟨hkind, htake, ih _ (fun tr a => hQ _ a) hn⟩
      | some s =>
          obtain ⟨hkind, hinv, hguar, hn⟩ := h
          exact ⟨hkind, hinv, hguar, ih _ (fun tr a => hQ _ a) hn⟩

/-- The rule of sequencing. -/
lemma bind {p : Prog ℓ σ α} {f : α → Prog ℓ σ β} :
    ∀ {Q : List ℓ → α → Prop} {R : List ℓ → β → Prop} {o : Option σ}, B.Sections Q o p →
      (∀ tr a, Q tr a → B.Sections (fun tr' b => R (tr ++ tr') b) none (f a)) →
        B.Sections R o (p.bind f) := by
  induction p with
  | ret a =>
      intro Q R o h hf
      cases o with
      | none => exact hf [] a h
      | some s => exact h.elim
  | atom label update next ih =>
      intro Q R o h hf
      cases o with
      | none =>
          intro s hs
          obtain ⟨hfree, hkind, hsame, hn⟩ := h s hs
          refine ⟨?_, hkind, hsame, ih _ hn fun tr a hQ => hf (_ :: tr) a hQ⟩
          rcases hfree with ⟨hkind, hsame, hn⟩ | ⟨hkind, htake, hn⟩
          · exact Or.inl ⟨hkind, hsame, ih _ hn fun tr a hQ => hf (_ :: tr) a hQ⟩
          · exact Or.inr ⟨hkind, htake, ih _ hn fun tr a hQ => hf (_ :: tr) a hQ⟩
      | some s =>
          obtain ⟨hkind, hinv, hguar, hn⟩ := h
          exact ⟨hkind, hinv, hguar, ih _ hn fun tr a hQ => hf (_ :: tr) a hQ⟩

/-- The rule of sequencing with early exit. -/
lemma andThen {Q : List ℓ → Except ε α → Prop} {R : List ℓ → Except ε β → Prop}
    {p : Prog ℓ σ (Except ε α)} {f : α → Prog ℓ σ (Except ε β)} (hp : B.Sections Q none p)
    (herr : ∀ tr e, Q tr (.error e) → R tr (.error e))
    (hok : ∀ tr a, Q tr (.ok a) → B.Sections (fun tr' b => R (tr ++ tr') b) none (f a)) :
    B.Sections R none (p.andThen f) := by
  refine bind hp fun tr r hr => ?_
  cases r with
  | error e =>
      show R (tr ++ []) (.error e)
      rw [List.append_nil]
      exact herr tr e hr
  | ok a => exact hok tr a hr

/-- A step that leaves the cell alone. -/
lemma quiet {l : ℓ} (hl : B.use l = .none) {p : Prog ℓ σ α} {Q : List ℓ → α → Prop}
    (hp : B.Sections (fun tr a => Q (l :: tr) a) none p) :
    B.Sections Q none (.atom (fun _ => l) id fun _ => p) :=
  fun _ _ => ⟨Or.inl ⟨hl, rfl, hp⟩, Or.inl hl, rfl, hp⟩

end Sections

end Sharing

/-! ### Runs -/

/-- Who has the cell after an event. -/
def Event.holder (use : ℓ → Use) (h : Option ι) : Event ι τ ℓ α → Option ι
  | .step i _ l => match use l with
      | .granted => some i
      | .release => none
      | _ => h
  | _ => h

/-- Who has the cell after the events of a run. -/
def holder (use : ℓ → Use) (es : List (Event ι τ ℓ α)) : Option ι :=
  es.foldl (Event.holder use) none

lemma holder_concat (use : ℓ → Use) (es : List (Event ι τ ℓ α)) (e : Event ι τ ℓ α) :
    holder use (es ++ [e]) = e.holder use (holder use es) := by
  rw [holder, List.foldl_append]
  rfl

namespace Sharing

variable (B : Sharing ℓ σ) (post : τ → List ℓ → α → Prop)

/-- A call in flight satisfies the judgement. -/
def TaskOk (o : Option σ) (t : Task τ ℓ σ α) : Prop :=
  B.Sections (fun tr a => post t.call (t.emitted ++ tr) a) o t.rest

/-- **The invariant of a run**: nobody has the cell, and it satisfies its invariant, or one caller
has it as it was when that caller got it. -/
inductive Sectioned (P : Pool ι τ ℓ σ α) : Option ι → Prop
  | free (inv : B.inv P.shared) (tasks : ∀ j t, P.tasks j = some t → B.TaskOk post none t) :
      Sectioned P none
  | held {i : ι} {s : σ} {t : Task τ ℓ σ α} (inv : B.inv s) (shared : P.shared = B.take s)
      (task : P.tasks i = some t) (inside : B.TaskOk post (some s) t)
      (tasks : ∀ j t, j ≠ i → P.tasks j = some t → B.TaskOk post none t) : Sectioned P (some i)

/-- What a step of a caller does to the cell while `h` has it. -/
def Used (h : Option ι) (i : ι) (s : σ) (l : ℓ) (s' : σ) : Prop :=
  match B.use l with
  | .none => s' = s
  | .granted => h = none ∧ s' = B.take s
  | .refused => (∃ j, j ≠ i ∧ h = some j) ∧ s' = s
  | .release => h = some i ∧ ∃ s₀, s = B.take s₀ ∧ B.guar s₀ l s'

/-- The callers keep what they share: their programs satisfy the judgement, and there is nobody
else. -/
structure Kept (S : System τ ℓ σ α) : Prop where
  prog : ∀ c, B.Sections (post c) none (S.prog c)
  alone : ∀ running s s', ¬S.env running s s'

variable {B post} {S : System τ ℓ σ α}

/-- A call in flight after a step of it. -/
lemma taskOk_snoc {c : τ} {tr : List ℓ} {l : ℓ} {p : Prog ℓ σ α} {o : Option σ}
    (h : B.Sections (fun tr' a => post c (tr ++ l :: tr') a) o p) :
    B.TaskOk post o ⟨c, tr ++ [l], p⟩ := by
  refine h.imp fun tr' a hpost => ?_
  rw [List.append_assoc]
  exact hpost

variable [DecidableEq ι] {P P' : Pool ι τ ℓ σ α} {h : Option ι}

/-- The calls in flight after the entry of one caller has changed. -/
lemma taskOk_update {tasks : ι → Option (Task τ ℓ σ α)} {i : ι} {o : Option (Task τ ℓ σ α)}
    {p : ι → Prop} (hall : ∀ j t, j ≠ i → p j → tasks j = some t → B.TaskOk post none t)
    (ho : ∀ t, o = some t → B.TaskOk post none t) :
    ∀ j t, p j → Function.update tasks i o j = some t → B.TaskOk post none t := by
  intro j t hj ht
  by_cases hji : j = i
  · subst hji
    rw [Function.update_self] at ht
    exact ho t ht
  · rw [Function.update_of_ne hji] at ht
    exact hall j t hji hj ht

/-- A call begins or returns, while the one that has the cell goes on. -/
lemma Sectioned.update (hP : B.Sectioned post P h) {i : ι} {o : Option (Task τ ℓ σ α)}
    (hi : h ≠ some i) (ho : ∀ t, o = some t → B.TaskOk post none t) :
    B.Sectioned post ⟨P.shared, Function.update P.tasks i o⟩ h := by
  cases hP with
  | free inv tasks =>
      exact .free inv fun j t =>
        taskOk_update (p := fun _ => True) (fun j t _ _ => tasks j t) ho j t trivial
  | @held k s t inv shared task inside tasks =>
      have hki : k ≠ i := fun hki => hi (congrArg some hki)
      refine .held inv shared ?_ inside (taskOk_update (fun j t _ => tasks j t) ho)
      show Function.update P.tasks i o k = some t
      rw [Function.update_of_ne hki]
      exact task

/-- A step that leaves the cell alone, of a caller that has not got it. -/
lemma Sectioned.quiet (hP : B.Sectioned post P h) {i : ι} {s : σ} {t : Task τ ℓ σ α}
    (hi : h ≠ some i) (hs : s = P.shared) (ht : B.TaskOk post none t) :
    B.Sectioned post ⟨s, Function.update P.tasks i (some t)⟩ h := by
  subst hs
  refine hP.update hi fun t' ht' => ?_
  cases ht'
  exact ht

/-- **Every step keeps the invariant**, and does to the cell what its label says. -/
lemma Sectioned.step (hS : B.Kept post S) (hP : B.Sectioned post P h) {e : Event ι τ ℓ α}
    (hs : S.Step P e P') : B.Sectioned post P' (e.holder B.use h) ∧
      ∀ i c l, e = .step i c l → B.Used h i P.shared l P'.shared := by
  cases hs with
  | @call i c idle hstart =>
      refine ⟨hP.update ?_ fun t ht => ?_, fun _ _ _ he => by cases he⟩
      · rintro rfl
        cases hP with
        | held _ _ task =>
            rw [idle] at task
            cases task
      · cases ht
        exact hS.prog c
  | @ret i c tr a ht =>
      refine ⟨hP.update ?_ (fun t ho => by cases ho), fun _ _ _ he => by cases he⟩
      rintro rfl
      cases hP with
      | held _ _ task inside =>
          rw [ht] at task
          cases task
          exact inside
  | env henv => exact (hS.alone _ _ _ henv).elim
  | @step i c tr label update next ht =>
      cases hP with
      | free inv tasks =>
          rcases (tasks i _ ht P.shared inv).1 with ⟨hkind, hsame, hn⟩ | ⟨hkind, htake, hn⟩
          · have hnext := Sectioned.quiet (.free inv tasks) (Option.some_ne_none i).symm hsame
              (taskOk_snoc hn)
            refine ⟨by simpa only [Event.holder, hkind] using hnext, ?_⟩
            rintro _ _ _ he
            cases he
            simpa only [Used, hkind] using hsame
          · refine ⟨?_, ?_⟩
            · simp only [Event.holder, hkind]
              refine .held inv htake (Function.update_self _ _ _) (taskOk_snoc hn)
                fun j t hj hjt => tasks j t ?_
              exact (Function.update_of_ne hj _ P.tasks).symm.trans hjt
            · rintro _ _ _ he
              cases he
              simpa only [Used, hkind] using ⟨trivial, htake⟩
      | @held k s t inv shared task inside tasks =>
          by_cases hki : i = k
          · subst hki
            rw [ht] at task
            cases task
            obtain ⟨hkind, hinv, hguar, hn⟩ := inside
            rw [← shared] at hkind hinv hguar hn
            refine ⟨?_, ?_⟩
            · simp only [Event.holder, hkind]
              refine .free hinv fun j t => taskOk_update (p := fun _ => True)
                (fun j t hji _ => tasks j t hji) (fun t ho => ?_) j t trivial
              cases ho
              exact taskOk_snoc hn
            · rintro _ _ _ he
              cases he
              simp only [Used, hkind]
              exact ⟨trivial, s, shared, hguar⟩
          · obtain ⟨-, hkind, hsame, hn⟩ := tasks i _ hki ht s inv
            rw [← shared] at hkind hsame hn
            have hnext := Sectioned.quiet (.held inv shared task inside tasks)
              (fun heq => hki (Option.some.inj heq).symm) hsame (taskOk_snoc hn)
            refine ⟨?_, ?_⟩
            · rcases hkind with hkind | hkind <;> simpa only [Event.holder, hkind] using hnext
            · rintro _ _ _ he
              cases he
              rcases hkind with hkind | hkind
              · simpa only [Used, hkind] using hsame
              · simp only [Used, hkind]
                exact ⟨⟨k, Ne.symm hki, rfl⟩, hsame⟩

namespace Kept

variable (hS : B.Kept post S) {s₀ : σ} (h₀ : B.inv s₀) {es : List (Event ι τ ℓ α)}

include hS h₀

/-- The invariant holds in every run. -/
lemma sectioned (run : S.Run s₀ es P) : B.Sectioned post P (holder B.use es) := by
  induction run with
  | nil => exact .free h₀ fun j t hj => by simp [Pool.start] at hj
  | snoc _ hs ih =>
      rw [holder_concat]
      exact (ih.step hS hs).1

/-- **Every step of a run does to the cell what its label says.** -/
lemma used (run : S.Run s₀ es P) {i : ι} {c : τ} {l : ℓ} (hs : S.Step P (.step i c l) P') :
    B.Used (holder B.use es) i P.shared l P'.shared :=
  ((sectioned hS h₀ run).step hS hs).2 i c l rfl

/-- The cell as its invariant has it: the state, or the one in which its holder has got it. -/
lemma exists_inv (run : S.Run s₀ es P) :
    ∃ s, B.inv s ∧ (holder B.use es = none ∧ P.shared = s ∨
      (holder B.use es).isSome ∧ P.shared = B.take s) := by
  have hsec := sectioned hS h₀ run
  generalize holder B.use es = h at hsec ⊢
  cases hsec with
  | free inv => exact ⟨_, inv, Or.inl ⟨rfl, rfl⟩⟩
  | held inv shared => exact ⟨_, inv, Or.inr ⟨rfl, shared⟩⟩

/-- Every call returns what its postcondition allows. -/
lemma post_of_ret (run : S.Run s₀ es P) {i : ι} {c : τ} {tr : List ℓ} {a : α}
    (hret : .ret i c tr a ∈ es) : post c tr a := by
  induction run with
  | nil => simp at hret
  | @snoc es e P P' run hs ih =>
      rcases List.mem_append.mp hret with hret | hret
      · exact ih hret
      · rw [List.mem_singleton] at hret
        subst hret
        have hsec := sectioned hS h₀ run
        generalize holder B.use es = h at hsec
        cases hs with
        | ret ht =>
            have hok : B.TaskOk post none ⟨c, tr, .ret a⟩ := by
              cases hsec with
              | free inv tasks => exact tasks i _ ht
              | @held k s t inv shared task inside tasks =>
                  refine tasks i _ (fun hik => ?_) ht
                  subst hik
                  rw [ht] at task
                  cases task
                  exact inside
            have hpost : post c (tr ++ []) a := hok
            rwa [List.append_nil] at hpost

end Kept

end Sharing

end Concurrent
