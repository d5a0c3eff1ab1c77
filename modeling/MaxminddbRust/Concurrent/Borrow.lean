import MaxminddbRust.Concurrent.Linearizable

/-!
Cells that one caller at a time may borrow.

* `Cell`, `borrowMut`: a value with a flag. A method takes the flag, runs its body step by step on
  the value and on what lies beside it, and clears the flag; it is refused at once while the flag
  is taken.
* `Prog.Computes`: what a body makes of the value, whatever others do to what lies beside it.
* `Stage`, `Guarded`: where every call stands, and the invariant of a run.
* `cell_exclusive`, `cell_linearizable`, `cell_refused`: one call at most has the cell; the calls
  that are not refused are those of an object that answers at once; a call is refused only while
  another one has the cell, and changes nothing.
-/

namespace Concurrent

variable {ι τ ℓ σ ε α : Type}

/-- A value that can be borrowed, and what everybody may change beside it. -/
structure Cell (σ ε : Type) where
  value : σ
  borrowed : Bool
  beside : ε

/-- What a step of a method is seen to do: to ask for the cell, to run its body, to give the cell
back. -/
inductive BorrowLabel (ℓ : Type) where
  | borrow (granted : Bool)
  | inside (l : ℓ)
  | release

/-- A body that has the cell, and gives it back. -/
def insideCell (body : Prog ℓ (σ × ε) α) : Prog (BorrowLabel ℓ) (Cell σ ε) (Option α) :=
  (body.zoom (fun s : Cell σ ε => (s.value, s.beside))
      (fun s cell => { cell with value := s.1, beside := s.2 }) BorrowLabel.inside).bind fun a =>
    .atom (fun _ => .release) (fun s => { s with borrowed := false }) fun _ => .ret (some a)

/-- A method that borrows the cell for as long as it runs, and is refused if that is borrowed. -/
def borrowMut (body : Prog ℓ (σ × ε) α) : Prog (BorrowLabel ℓ) (Cell σ ε) (Option α) :=
  .atom (fun s => .borrow !s.borrowed) (fun s => { s with borrowed := true }) fun s =>
    if s.borrowed then .ret none else insideCell body

/-- Callers of the methods of a cell, beside which others take steps. -/
def cellSystem (body : τ → Prog ℓ (σ × ε) α) (others : ε → ε → Prop) :
    System τ (BorrowLabel ℓ) (Cell σ ε) (Option α) where
  prog c := borrowMut (body c)
  canStart _ _ := True
  env _ s s' := ∃ e, others s.beside e ∧ s' = { s with beside := e }

/-! ### Bodies -/

/-- The body returns `a` and leaves the value `v`, whatever lies beside it at each of its steps, as
long as that satisfies `I`, and it keeps `I`. -/
def Prog.Computes (I : ε → Prop) (a : α) (v : σ) : Prog ℓ (σ × ε) α → σ → Prop
  | .ret b, s => b = a ∧ s = v
  | .atom _ update next, s => ∀ e, I e →
      I (update (s, e)).2 ∧ Computes I a v (next (s, e)) (update (s, e)).1

/-- The bodies compute what an object answers, and the others keep what they rely on. -/
structure Computed (body : τ → Prog ℓ (σ × ε) α) (others : ε → ε → Prop) (O : AtomicObject τ σ α)
    (I : ε → Prop) : Prop where
  body : ∀ c s, (body c).Computes I (O.step c s).1 (O.step c s).2 s
  others : ∀ e e', others e e' → I e → I e'

/-! ### Where calls stand -/

/-- The call has been granted the cell and has not given it back. -/
def Task.Borrowing (t : Task τ (BorrowLabel ℓ) (Cell σ ε) (Option α)) : Prop :=
  .borrow true ∈ t.emitted ∧ .release ∉ t.emitted

/-- Where the call of a caller stands while `holder` has the cell: the value is `v`, and will be
`a` once the holder is done. A granted call has been answered when it was granted. -/
inductive Stage (body : τ → Prog ℓ (σ × ε) α) (I : ε → Prop) (holder : Option ι) (a v : σ) (i : ι) :
    Option (Task τ (BorrowLabel ℓ) (Cell σ ε) (Option α)) → Option (τ × Option α) → Prop
  | idle (h : holder ≠ some i) : Stage body I holder a v i none none
  | called (h : holder ≠ some i) {c : τ} :
      Stage body I holder a v i (some ⟨c, [], borrowMut (body c)⟩) none
  | refused (h : holder ≠ some i) {c : τ} :
      Stage body I holder a v i (some ⟨c, [.borrow false], .ret none⟩) none
  | inside (h : holder = some i) {c : τ} (tr : List ℓ) {p : Prog ℓ (σ × ε) α} {b : α}
      (hp : p.Computes I b a v) :
      Stage body I holder a v i
        (some ⟨c, .borrow true :: tr.map .inside, insideCell p⟩) (some (c, some b))
  | released (h : holder ≠ some i) {c : τ} (tr : List ℓ) (b : α) :
      Stage body I holder a v i
        (some ⟨c, .borrow true :: tr.map .inside ++ [.release], .ret (some b)⟩) (some (c, some b))

namespace Stage

variable {body : τ → Prog ℓ (σ × ε) α} {I : ε → Prop} {holder holder' : Option ι}
  {a a' v v' : σ} {i : ι}
  {o : Option (Task τ (BorrowLabel ℓ) (Cell σ ε) (Option α))} {q : Option (τ × Option α)}

/-- Nothing changes for a caller who has not got the cell. -/
lemma mono (hs : Stage body I holder a v i o q) (h : holder ≠ some i) (h' : holder' ≠ some i) :
    Stage body I holder' a' v' i o q := by
  cases hs with
  | idle => exact .idle h'
  | called => exact .called h'
  | refused => exact .refused h'
  | inside hi => exact absurd hi h
  | released _ tr b => exact .released h' tr b

/-- A call is borrowing exactly if its caller has the cell. -/
lemma borrowing_iff {t : Task τ (BorrowLabel ℓ) (Cell σ ε) (Option α)}
    (hs : Stage body I holder a v i (some t) q) : t.Borrowing ↔ holder = some i := by
  cases hs with
  | called h | refused h | released h => simp [Task.Borrowing, h]
  | inside h => simp [Task.Borrowing, h]

/-- The stages of all callers after one of them has taken a step. -/
lemma update [DecidableEq ι] {tasks : ι → Option (Task τ (BorrowLabel ℓ) (Cell σ ε) (Option α))}
    {st : ι → Option (τ × Option α)} (hs : ∀ j, Stage body I holder a v j (tasks j) (st j))
    (hne : ∀ j, j ≠ i → holder ≠ some j ∧ holder' ≠ some j)
    (hi : Stage body I holder' a' v' i o q) :
    ∀ j, Stage body I holder' a' v' j (Function.update tasks i o j) (Function.update st i q j) := by
  intro j
  by_cases hji : j = i
  · subst hji
    rw [Function.update_self, Function.update_self]
    exact hi
  · rw [Function.update_of_ne hji, Function.update_of_ne hji]
    exact (hs j).mono (hne j hji).1 (hne j hji).2

end Stage

/-! ### Runs -/

/-- What the callers see of the calls that are granted: a call begins when it gets the cell. -/
def grantedEvent : Event ι τ (BorrowLabel ℓ) (Option α) → Option (CallEvent ι τ α)
  | .step i c (.borrow true) => some (.call i c)
  | .ret i c _ (some a) => some (.ret i c a)
  | _ => none

/-- The granted calls of a run and their returns. -/
def granted (es : List (Event ι τ (BorrowLabel ℓ) (Option α))) : List (CallEvent ι τ α) :=
  es.filterMap grantedEvent

lemma granted_concat_of_none {es : List (Event ι τ (BorrowLabel ℓ) (Option α))}
    {e : Event ι τ (BorrowLabel ℓ) (Option α)} (h : grantedEvent e = none) :
    granted (es ++ [e]) = granted es := by
  rw [granted, List.filterMap_append, ← granted]
  simp [h]

lemma granted_concat_of_some {es : List (Event ι τ (BorrowLabel ℓ) (Option α))}
    {e : Event ι τ (BorrowLabel ℓ) (Option α)} {o : CallEvent ι τ α} (h : grantedEvent e = some o) :
    granted (es ++ [e]) = granted es ++ [o] := by
  rw [granted, List.filterMap_append, ← granted]
  simp [h]

section Runs

variable [DecidableEq ι] {body : τ → Prog ℓ (σ × ε) α} {others : ε → ε → Prop}
  {O : AtomicObject τ σ α} {I : ε → Prop}

/-- **The invariant of a run**: there is an account of the granted calls, in which the holder of the
cell has been answered already; the value is that of the account, once the holder is done. -/
structure Guarded (body : τ → Prog ℓ (σ × ε) α) (O : AtomicObject τ σ α) (I : ε → Prop)
    (H : List (CallEvent ι τ α)) (P : Pool ι τ (BorrowLabel ℓ) (Cell σ ε) (Option α))
    (ops : List (ι × τ × α)) (a : σ) (st : ι → Option (τ × Option α)) (holder : Option ι) :
    Prop where
  linearized : Linearized O H ops a st
  stage : ∀ i, Stage body I holder a P.shared.value i (P.tasks i) (st i)
  borrowed : P.shared.borrowed = holder.isSome
  value : holder = none → a = P.shared.value
  beside : I P.shared.beside

variable {s₀ : Cell σ ε} {es : List (Event ι τ (BorrowLabel ℓ) (Option α))}
  {P P' : Pool ι τ (BorrowLabel ℓ) (Cell σ ε) (Option α)}

section Moves

variable {H : List (CallEvent ι τ α)} {ops : List (ι × τ × α)} {a : σ}
  {st : ι → Option (τ × Option α)} {holder : Option ι}
  (h : Guarded body O I H P ops a st holder) {i : ι} {c : τ}

include h

/-- Where a call stands that has the cell or not, as the entry of its caller says. -/
lemma Guarded.stage_of_task {o : Option (Task τ (BorrowLabel ℓ) (Cell σ ε) (Option α))}
    (ht : P.tasks i = o) : Stage body I holder a P.shared.value i o (st i) :=
  ht ▸ h.stage i

/-- A caller who has not got the cell goes on without it. -/
lemma Guarded.update {H' : List (CallEvent ι τ α)}
    {o : Option (Task τ (BorrowLabel ℓ) (Cell σ ε) (Option α))} {q : Option (τ × Option α)}
    (hlin : Linearized O H' ops a (Function.update st i q))
    (hstage : Stage body I holder a P.shared.value i o q) :
    Guarded body O I H' ⟨P.shared, Function.update P.tasks i o⟩ ops a (Function.update st i q)
      holder where
  linearized := hlin
  stage := by
    intro j
    by_cases hji : j = i
    · subst hji
      show Stage body I holder a P.shared.value j (Function.update P.tasks j o j) _
      rw [Function.update_self, Function.update_self]
      exact hstage
    · show Stage body I holder a P.shared.value j (Function.update P.tasks i o j) _
      rw [Function.update_of_ne hji, Function.update_of_ne hji]
      exact h.stage j
  borrowed := h.borrowed
  value := h.value
  beside := h.beside

/-- A call is granted the cell, and answered there and then. -/
lemma Guarded.grant (hC : Computed body others O I) (hfree : P.shared.borrowed = false)
    (hst : st i = none) :
    Guarded body O I (H ++ [.call i c])
      ⟨{ P.shared with borrowed := true },
        Function.update P.tasks i (some ⟨c, [.borrow true], insideCell (body c)⟩)⟩
      (ops ++ [(i, c, (O.step c a).1)]) (O.step c a).2
      (Function.update st i (some (c, some (O.step c a).1))) (some i) := by
  have hnone : holder = none := by
    rw [← Option.not_isSome_iff_eq_none, ← h.borrowed, hfree]
    exact Bool.false_ne_true
  subst hnone
  obtain rfl := h.value rfl
  have hpoint := (h.linearized.call hst (c := c)).point (Function.update_self i _ _) rfl
  rw [Function.update_idem] at hpoint
  have hne : ∀ j, j ≠ i → (none : Option ι) ≠ some j ∧ some i ≠ some j := fun j hj =>
    ⟨(Option.some_ne_none j).symm, fun heq => hj (Option.some.inj heq).symm⟩
  exact ⟨hpoint, Stage.update h.stage hne (.inside rfl [] (hC.body c P.shared.value)), rfl,
    fun hnone => absurd hnone (Option.some_ne_none i), h.beside⟩

/-- The holder takes a step of its body. -/
lemma Guarded.inside {tr : List ℓ} {label : σ × ε → ℓ} {update : σ × ε → σ × ε}
    {next : σ × ε → Prog ℓ (σ × ε) α} {b : α} (hi : holder = some i)
    (hp : (Prog.atom label update next).Computes I b a P.shared.value)
    (hst : st i = some (c, some b)) :
    Guarded body O I H
      ⟨{ P.shared with
          value := (update (P.shared.value, P.shared.beside)).1
          beside := (update (P.shared.value, P.shared.beside)).2 },
        Function.update P.tasks i (some ⟨c,
          .borrow true :: tr.map .inside ++ [.inside (label (P.shared.value, P.shared.beside))],
          insideCell (next (P.shared.value, P.shared.beside))⟩)⟩ ops a st holder := by
  subst hi
  obtain ⟨hbeside, hnext⟩ := hp P.shared.beside h.beside
  have hne : ∀ j, j ≠ i → some i ≠ some j ∧ some i ≠ some j := fun j hj =>
    ⟨fun heq => hj (Option.some.inj heq).symm, fun heq => hj (Option.some.inj heq).symm⟩
  have hstage := Stage.update h.stage hne
    (.inside rfl (c := c) (tr ++ [label (P.shared.value, P.shared.beside)]) hnext)
  rw [← hst, Function.update_eq_self, List.map_append] at hstage
  exact ⟨h.linearized, hstage, h.borrowed, fun hnone => absurd hnone (Option.some_ne_none i),
    hbeside⟩

/-- The holder gives the cell back. -/
lemma Guarded.release {tr : List ℓ} (hi : holder = some i) {b : α}
    (hp : (Prog.ret b : Prog ℓ (σ × ε) α).Computes I b a P.shared.value)
    (hst : st i = some (c, some b)) :
    Guarded body O I H
      ⟨{ P.shared with borrowed := false }, Function.update P.tasks i
        (some ⟨c, .borrow true :: tr.map .inside ++ [.release], .ret (some b)⟩)⟩ ops a st none := by
  subst hi
  have hne : ∀ j, j ≠ i → some i ≠ some j ∧ (none : Option ι) ≠ some j := fun j hj =>
    ⟨fun heq => hj (Option.some.inj heq).symm, (Option.some_ne_none j).symm⟩
  have hreleased : Stage body I none a P.shared.value i _ _ :=
    .released (Option.some_ne_none i).symm (c := c) tr b
  have hstage := Stage.update h.stage hne hreleased
  rw [← hst, Function.update_eq_self] at hstage
  exact ⟨h.linearized, hstage, rfl, fun _ => hp.2.symm, h.beside⟩

end Moves

/-- A call asks for the cell, and gets it or is refused. -/
lemma Guarded.ask (hC : Computed body others O I) {ops : List (ι × τ × α)} {a : σ}
    {st : ι → Option (τ × Option α)} {holder : Option ι}
    (h : Guarded body O I (granted es) P ops a st holder) {i : ι} {c : τ} (hi : holder ≠ some i)
    (hst : st i = none) :
    ∃ ops a st holder, Guarded body O I
      (granted (es ++ [.step i c (.borrow !P.shared.borrowed)]))
      ⟨{ P.shared with borrowed := true }, Function.update P.tasks i
        (some ⟨c, [.borrow !P.shared.borrowed],
          if P.shared.borrowed then .ret none else insideCell (body c)⟩)⟩ ops a st holder := by
  cases hborrowed : P.shared.borrowed with
  | true =>
      have hsame : (⟨P.shared.value, true, P.shared.beside⟩ : Cell σ ε) = P.shared := by
        rw [← hborrowed]
      have hlin := h.linearized
      rw [← Function.update_eq_self i st, hst] at hlin
      rw [granted_concat_of_none rfl, hsame]
      exact ⟨ops, a, _, holder, h.update hlin (.refused hi)⟩
  | false =>
      rw [granted_concat_of_some (o := .call i c) rfl]
      exact ⟨_, _, _, _, h.grant hC hborrowed hst⟩

/-- **Every step keeps the invariant.** -/
lemma Guarded.step (hC : Computed body others O I) {e : Event ι τ (BorrowLabel ℓ) (Option α)}
    (hs : (cellSystem body others).Step P e P')
    (h : ∃ ops a st holder, Guarded body O I (granted es) P ops a st holder) :
    ∃ ops a st holder, Guarded body O I (granted (es ++ [e])) P' ops a st holder := by
  obtain ⟨ops, a, st, holder, h⟩ := h
  cases hs with
  | @call i c idle hstart =>
      have hstage := h.stage_of_task idle
      generalize hq : st i = q at hstage
      cases hstage with
      | idle hi =>
          have hlin := h.linearized
          rw [← Function.update_eq_self i st, hq] at hlin
          rw [granted_concat_of_none rfl]
          exact ⟨ops, a, _, holder, h.update hlin (.called hi)⟩
  | @step i c tr label update next ht =>
      have hstage := h.stage_of_task ht
      generalize hq : st i = q at hstage
      generalize hrest : Prog.atom label update next = rest at hstage
      cases hstage with
      | refused | released => cases hrest
      | called hi =>
          cases hrest
          exact h.ask hC hi hq
      | @inside hi c tr p b hp =>
          cases p with
          | ret b' =>
              cases hrest
              have hb : b' = b := hp.1
              subst hb
              rw [granted_concat_of_none rfl]
              exact ⟨ops, a, st, none, h.release hi hp hq⟩
          | atom label' update' next' =>
              cases hrest
              rw [granted_concat_of_none rfl]
              exact ⟨ops, a, st, holder, h.inside hi hp hq⟩
  | @ret i c tr b ht =>
      have hstage := h.stage_of_task ht
      generalize hq : st i = q at hstage
      generalize hrest : Prog.ret b = rest at hstage
      cases hstage with
      | called => cases hrest
      | refused hi =>
          cases hrest
          have hlin := h.linearized
          rw [← Function.update_eq_self i st, hq] at hlin
          rw [granted_concat_of_none rfl]
          exact ⟨ops, a, _, holder, h.update hlin (.idle hi)⟩
      | @inside hi c tr p b hp =>
          cases p with
          | ret b' => cases hrest
          | atom label' update' next' => cases hrest
      | released hi tr b =>
          cases hrest
          rw [granted_concat_of_some (o := .ret i c b) rfl]
          exact ⟨ops, a, _, holder, h.update (h.linearized.ret hq) (.idle hi)⟩
  | env henv =>
      obtain ⟨e, hothers, rfl⟩ := henv
      rw [granted_concat_of_none rfl]
      exact ⟨ops, a, st, holder, h.linearized, h.stage, h.borrowed, h.value,
        hC.others _ _ hothers h.beside⟩

variable (hC : Computed body others O I) (hI : I s₀.beside) (hfree : s₀.borrowed = false)
  (hinit : O.init = s₀.value)

include hC hI hfree hinit

/-- The invariant holds in every run from a cell that is not borrowed. -/
lemma guarded_of_run (run : (cellSystem body others).Run s₀ es P) :
    ∃ ops a st holder, Guarded body O I (granted es) P ops a st holder := by
  induction run with
  | nil =>
      have hnone : ∀ i : ι, (none : Option ι) ≠ some i := fun i => (Option.some_ne_none i).symm
      exact ⟨[], O.init, fun _ => none, none, .nil, fun i => .idle (hnone i), hfree,
        fun _ => hinit, hI⟩
  | snoc _ hs ih => exact Guarded.step hC hs ih

/-- **The granted calls are those of the object**: it answers each of them when it is granted the
cell, and while nobody has the cell, the value is what they have made of it. -/
theorem cell_linearizable (run : (cellSystem body others).Run s₀ es P) :
    ∃ ops a st, Linearized O (granted es) ops a st ∧
      (P.shared.borrowed = false → P.shared.value = a) := by
  obtain ⟨ops, a, st, holder, h⟩ := guarded_of_run hC hI hfree hinit run
  refine ⟨ops, a, st, h.linearized, fun hborrowed => (h.value ?_).symm⟩
  rw [← Option.not_isSome_iff_eq_none, ← h.borrowed, hborrowed]
  exact Bool.false_ne_true

/-- **One call at most has the cell**, and one has it exactly while it is borrowed. -/
theorem cell_exclusive (run : (cellSystem body others).Run s₀ es P) :
    (∀ i j t t', P.tasks i = some t → P.tasks j = some t' → t.Borrowing → t'.Borrowing → i = j) ∧
      (P.shared.borrowed = true ↔ ∃ i t, P.tasks i = some t ∧ t.Borrowing) := by
  obtain ⟨ops, a, st, holder, h⟩ := guarded_of_run hC hI hfree hinit run
  refine ⟨fun i j t t' ht ht' hb hb' => ?_, ?_, ?_⟩
  · have hi := (h.stage_of_task ht).borrowing_iff.mp hb
    have hj := (h.stage_of_task ht').borrowing_iff.mp hb'
    exact Option.some.inj (hi.symm.trans hj)
  · intro hborrowed
    rw [h.borrowed] at hborrowed
    obtain ⟨i, hi⟩ := Option.isSome_iff_exists.mp hborrowed
    have hstage := h.stage i
    generalize ho : P.tasks i = o at hstage
    cases o with
    | none =>
        generalize hq : st i = q at hstage
        cases hstage with
        | idle hne => exact absurd hi hne
    | some t => exact ⟨i, t, ho, hstage.borrowing_iff.mpr hi⟩
  · rintro ⟨i, t, ht, hb⟩
    rw [h.borrowed, (h.stage_of_task ht).borrowing_iff.mp hb]
    rfl

/-- **A call is refused only while another one has the cell**, and changes nothing. -/
theorem cell_refused (run : (cellSystem body others).Run s₀ es P) {i : ι} {c : τ}
    (hs : (cellSystem body others).Step P (.step i c (.borrow false)) P') :
    P'.shared = P.shared ∧ ∃ j t, j ≠ i ∧ P.tasks j = some t ∧ t.Borrowing := by
  obtain ⟨ops, a, st, holder, h⟩ := guarded_of_run hC hI hfree hinit run
  generalize he : Event.step i c (BorrowLabel.borrow false) = e at hs
  cases hs with
  | call | ret | env => cases he
  | @step i' c' tr label update next ht =>
      injection he with hi hc hlabel
      subst hi hc
      have hstage := h.stage_of_task ht
      generalize st i = q at hstage
      generalize hrest : Prog.atom label update next = rest at hstage
      cases hstage with
      | refused | released => cases hrest
      | @inside _ _ tr p b hp =>
          cases p <;> (cases hrest; cases hlabel)
      | called hne =>
          cases hrest
          have hborrowed : P.shared.borrowed = true := by
            injection hlabel with hnot
            simpa using hnot.symm
          refine ⟨?_, ?_⟩
          · show (⟨P.shared.value, true, P.shared.beside⟩ : Cell σ ε) = P.shared
            rw [← hborrowed]
          · obtain ⟨j, t, hj, hb⟩ := (cell_exclusive hC hI hfree hinit run).2.mp hborrowed
            refine ⟨j, t, fun hji => hne ?_, hj, hb⟩
            exact hji ▸ (h.stage_of_task hj).borrowing_iff.mp hb

end Runs

end Concurrent
