import MaxminddbRust.PathLockSafety

/-!
The path cache under its lock refines the path cache in atomic steps.

* `PathCall.Stands`: which rest of `getOrParsePath` a point of a call stands for. A call takes
  effect on the cache at the start of its second critical section, where it evicts; what it pushes
  later, `PathCall.pending`, counts as pushed from then on.
* `PathCall.run_outcome`: what a step of a call is in atomic steps, one case for each point.
* `Machine.Abstracts`: the pool of atomic callers that a machine stands for. Each call on the stack
  of a thread is a caller of its own, named by the thread and the height of its frame.
* `pathLock_refines`: every run of the machine in which no death runs code under the lock is a run
  of the atomic callers, with the same answers in the same order.
* `pathLock_parse`, `pathLock_shape`: so what holds of the atomic callers holds under the lock,
  also between the eviction and the push.
-/

namespace MaxminddbRust

open Concurrent

variable {w : ℕ}

/-! ### The points of a call in atomic steps -/

/-- `getOrParsePath` of a tuple from its second critical section on. -/
def insertStep (w : ℕ) (t : PyTuple) (parsed : OwnedPath) :
    Prog CacheLabel PathCache (PyResult OwnedPath) :=
  .atom (fun s => .insertPath (insertedPath w t parsed s)) (insertPath w t parsed) fun s =>
    .ret (.ok (insertedPath w t parsed s))

/-- `getOrParsePath` of a tuple after its parse. -/
def afterParse (w : ℕ) (t : PyTuple) :
    PyResult OwnedPath → Prog CacheLabel PathCache (PyResult OwnedPath)
  | .error e => .ret (.error e)
  | .ok parsed => insertStep w t parsed

/-- `getOrParsePath` of a tuple from its parse on. -/
def parseStep (w : ℕ) (t : PyTuple) (override : Option Iteration) :
    Prog CacheLabel PathCache (PyResult OwnedPath) :=
  .atom (fun _ => .parsePath (parsePath w (.tuple t override))) id fun _ =>
    afterParse w t (parsePath w (.tuple t override))

/-- `getOrParsePath` of a tuple after its first critical section. -/
def afterLookup (w : ℕ) (t : PyTuple) (override : Option Iteration) :
    Option OwnedPath → Prog CacheLabel PathCache (PyResult OwnedPath)
  | some cachedPath => .ret (.ok cachedPath)
  | none => parseStep w t override

lemma getOrParsePath_tuple (w : ℕ) (t : PyTuple) (override : Option Iteration) :
    getOrParsePath w (.tuple t override)
      = .atom (fun s => .lookupPath (lookupCachedPath w t s)) id fun s =>
          afterLookup w t override (lookupCachedPath w t s) := rfl

lemma getOrParsePath_of_ne {path : PathArg} (hpath : ∀ t override, path ≠ .tuple t override) :
    getOrParsePath w path
      = .atom (fun _ => .parsePath (parsePath w path)) id fun _ => .ret (parsePath w path) := by
  cases path with
  | tuple t override => exact absurd rfl (hpath t override)
  | _ => rfl

namespace PathCall

/-- The path of a call, and what is left of it in atomic steps, at each point. -/
inductive Stands (w : ℕ) :
    PathCall → PathArg → Prog CacheLabel PathCache (PyResult OwnedPath) → Prop
  | start (path : PathArg) : Stands w (.start path) path (getOrParsePath w path)
  | looking (t : PyTuple) (override : Option Iteration) :
      Stands w (.looking t override) (.tuple t override) (getOrParsePath w (.tuple t override))
  | parsing {path : PathArg} (h : ∀ t override, path ≠ .tuple t override) :
      Stands w (.parsing path) path (getOrParsePath w path)
  | parsingTuple (t : PyTuple) (override : Option Iteration) :
      Stands w (.parsing (.tuple t override)) (.tuple t override) (parseStep w t override)
  | parsed (t : PyTuple) (override : Option Iteration) (p : OwnedPath) :
      Stands w (.parsed t p) (.tuple t override) (insertStep w t p)
  | inserting (t : PyTuple) (override : Option Iteration) (p : OwnedPath) :
      Stands w (.inserting t p) (.tuple t override) (insertStep w t p)
  | dropping (t : PyTuple) (override : Option Iteration) (p : OwnedPath) (work : List Drop) :
      Stands w (.dropping t p work) (.tuple t override) (.ret (.ok p))
  | pushing (t : PyTuple) (override : Option Iteration) (p : OwnedPath) :
      Stands w (.pushing t p) (.tuple t override) (.ret (.ok p))

/-- The entry that a call has made room for and will push. -/
def pending : PathCall → List CachedPath
  | dropping t p _ | pushing t p => [(t, p)]
  | _ => []

/-- The tuple of a call. -/
def tuple? : PathCall → Option PyTuple
  | start (.tuple t _) | looking t _ | parsing (.tuple t _) | parsed t _ | inserting t _
  | dropping t _ _ | pushing t _ => some t
  | _ => none

/-- The path of a call; once it is parsed, without what iterating it yielded. -/
def path : PathCall → PathArg
  | start path | parsing path => path
  | looking t override => .tuple t override
  | parsed t _ | inserting t _ | dropping t _ _ | pushing t _ => .tuple t none

lemma Stands.tuple? {c : PathCall} {t : PyTuple} {override : Option Iteration}
    {p : Prog CacheLabel PathCache (PyResult OwnedPath)} (h : Stands w c (.tuple t override) p) :
    c.tuple? = some t := by
  cases h <;> rfl

end PathCall

/-- The entry that a call will have pushed after its reply. -/
def Reply.pending : Reply → List CachedPath
  | goto c | interrupt c => c.pending
  | answer _ => []

/-- What a step of a call is in atomic steps from the cache `C`: none, one, one and the return, or
the return. -/
inductive Outcome (w : ℕ) (path : PathArg) (p : Prog CacheLabel PathCache (PyResult OwnedPath))
    (C : PathCache) : PathCache → Reply → Prop
  | stutter {c : PathCall} (h : c.Stands w path p) : Outcome w path p C C (.goto c)
  | step {label : PathCache → CacheLabel} {update : PathCache → PathCache}
      {next : PathCache → Prog CacheLabel PathCache (PyResult OwnedPath)} {c : PathCall}
      (hp : p = .atom label update next) (h : c.Stands w path (next C)) :
      Outcome w path p C (update C) (.goto c)
  | stepRet {label : PathCache → CacheLabel} {update : PathCache → PathCache}
      {next : PathCache → Prog CacheLabel PathCache (PyResult OwnedPath)} {a : PyResult OwnedPath}
      (hp : p = .atom label update next) (h : next C = .ret a) :
      Outcome w path p C (update C) (.answer a)
  | ret {a : PyResult OwnedPath} (hp : p = .ret a) : Outcome w path p C C (.answer a)

namespace PathCall

/-- What a step leaves of the cache, where the call counts as having taken effect. -/
structure Matched (w : ℕ) (s : SharedMemory) (c : PathCall) (path : PathArg)
    (p : Prog CacheLabel PathCache (PyResult OwnedPath)) (C C' : PathCache)
    (pend : List CachedPath) : Prop where
  outcome : Outcome w path p C C' (c.run w s).2
  entries : C'.entries = (c.run w s).1.entries ++
    if c.critical then (c.run w s).2.pending else pend
  poisoned : C'.poisoned = (c.run w s).1.poisoned

section Points

variable {s : SharedMemory} {t : PyTuple} {override : Option Iteration} {C : PathCache}
  {pend : List CachedPath}

/-- A step that leaves the cache as it is, outside the sections of the lock. -/
lemma Matched.of_unlocked {c : PathCall} {path : PathArg}
    {p : Prog CacheLabel PathCache (PyResult OwnedPath)} (hc : c.critical = false)
    (hrun : (c.run w s).1 = s) (hentries : C.entries = s.entries ++ pend)
    (hpoisoned : C.poisoned = s.poisoned) (h : Outcome w path p C C (c.run w s).2) :
    Matched w s c path p C C pend := by
  refine ⟨h, ?_, ?_⟩
  · rw [hrun, hc]
    exact hentries
  · rw [hrun, hpoisoned]

/-- The first critical section. -/
lemma looking_outcome (hentries : C.entries = s.entries) (hpoisoned : C.poisoned = s.poisoned) :
    Matched w s (.looking t override) (.tuple t override)
      (getOrParsePath w (.tuple t override)) C C [] := by
  have hrun := Machine.run_looking (w := w) (t := t) hentries hpoisoned override
  have hprog := getOrParsePath_tuple w t override
  cases hit : lookupCachedPath w t C with
  | some cachedPath =>
      rw [hit] at hrun
      refine ⟨?_, ?_, by rw [hrun, hpoisoned]⟩
      · rw [hrun]
        exact .stepRet hprog (by rw [hit, afterLookup])
      · rw [hrun, hentries]
        simp [Reply.pending]
  | none =>
      rw [hit] at hrun
      refine ⟨?_, ?_, by rw [hrun, hpoisoned]⟩
      · rw [hrun]
        exact .step hprog (by rw [hit]; exact .parsingTuple t override)
      · rw [hrun, hentries]
        simp [Reply.pending, pending]

/-- The parse of a tuple. -/
lemma parsing_outcome (hentries : C.entries = s.entries ++ pend)
    (hpoisoned : C.poisoned = s.poisoned) :
    Matched w s (.parsing (.tuple t override)) (.tuple t override) (parseStep w t override) C C
      pend := by
  cases hparse : parsePath w (.tuple t override) with
  | error e =>
      have hrun : (PathCall.parsing (.tuple t override)).run w s = (s, .answer (.error e)) := by
        rw [PathCall.run, hparse]
      refine .of_unlocked rfl (by rw [hrun]) hentries hpoisoned ?_
      rw [hrun]
      exact .stepRet rfl (by rw [hparse, afterParse])
  | ok p =>
      have hrun : (PathCall.parsing (.tuple t override)).run w s = (s, .goto (.parsed t p)) := by
        rw [PathCall.run, hparse]
      refine .of_unlocked rfl (by rw [hrun]) hentries hpoisoned ?_
      rw [hrun]
      exact .step rfl (by rw [hparse]; exact .parsed t override p)

/-- The parse of what is not a tuple. -/
lemma parsing_outcome_of_ne {path : PathArg} (hpath : ∀ t override, path ≠ .tuple t override)
    (hentries : C.entries = s.entries ++ pend) (hpoisoned : C.poisoned = s.poisoned) :
    Matched w s (.parsing path) path (getOrParsePath w path) C C pend := by
  have hrun : (PathCall.parsing path).run w s = (s, .answer (parsePath w path)) := by
    rw [PathCall.run]
    cases parsePath w path with
    | error e => rfl
    | ok p =>
        cases path with
        | tuple t override => exact absurd rfl (hpath t override)
        | _ => rfl
  refine .of_unlocked rfl (by rw [hrun]) hentries hpoisoned ?_
  rw [hrun]
  exact .stepRet (getOrParsePath_of_ne hpath) rfl

variable {p p' : OwnedPath}

/-- The second critical section where it does not insert. -/
lemma inserting_outcome_of_answer (hentries : C.entries = s.entries)
    (hpoisoned : C.poisoned = s.poisoned)
    (hrun : (PathCall.inserting t p).run w s = (s, .answer (.ok p')))
    (hinsert : insertPath w t p C = C) (hinserted : insertedPath w t p C = p') :
    Matched w s (.inserting t p) (.tuple t override) (insertStep w t p) C (insertPath w t p C)
      [] := by
  refine ⟨?_, ?_, by rw [hrun, hinsert, hpoisoned]⟩
  · rw [hrun]
    exact .stepRet rfl (by rw [hinserted])
  · rw [hrun, hinsert, hentries]
    simp [Reply.pending]

/-- The second critical section where it inserts: the call goes on to push, and has evicted the
oldest entry of a full cache. -/
lemma inserting_outcome_of_goto {c : PathCall} {entries : List CachedPath}
    (hpoisoned : C.poisoned = s.poisoned)
    (hrun : (PathCall.inserting t p).run w s = ({ s with entries := entries }, .goto c))
    (hc : c.Stands w (.tuple t override) (.ret (.ok p))) (hpending : c.pending = [(t, p)])
    (hinsert : insertPath w t p C = C.push (t, p)) (hinserted : insertedPath w t p C = p)
    (hpush : (C.push (t, p)).entries = entries ++ [(t, p)]) :
    Matched w s (.inserting t p) (.tuple t override) (insertStep w t p) C (insertPath w t p C)
      [] := by
  refine ⟨?_, ?_, ?_⟩
  · rw [hrun]
    exact .step rfl (by rwa [hinserted])
  · rw [hrun, hinsert, hpush]
    exact congrArg _ hpending.symm
  · rw [hrun, hinsert]
    exact hpoisoned

/-- The second critical section, up to the eviction: the call takes effect. -/
lemma inserting_outcome (hentries : C.entries = s.entries) (hpoisoned : C.poisoned = s.poisoned) :
    Matched w s (.inserting t p) (.tuple t override) (insertStep w t p) C (insertPath w t p C)
      [] := by
  by_cases hp : s.poisoned = true
  · have hC : C.poisoned = true := hpoisoned.trans hp
    exact inserting_outcome_of_answer hentries hpoisoned (by rw [PathCall.run, if_pos hp])
      (by rw [insertPath, if_pos hC])
      (by rw [insertedPath, lookupCachedPath, if_pos hC, Option.getD_none])
  · have hC : ¬C.poisoned = true := hpoisoned ▸ hp
    have hfound : insertedPath w t p C = (lookupCachedPathInCache w t s.entries).getD p := by
      rw [insertedPath, lookupCachedPath, if_neg hC, hentries]
    cases hlookup : lookupCachedPathInCache w t s.entries with
    | some cachedPath =>
        exact inserting_outcome_of_answer hentries hpoisoned
          (by rw [PathCall.run, if_neg hp, hlookup])
          (by rw [insertPath, if_neg hC, hentries, hlookup]) (by rw [hfound, hlookup]; rfl)
    | none =>
        have hinsert : insertPath w t p C = C.push (t, p) := by
          rw [insertPath, if_neg hC, hentries, hlookup]
        have hinserted : insertedPath w t p C = p := by rw [hfound, hlookup, Option.getD_none]
        have hpush : (C.push (t, p)).entries = (if s.entries.length ≥ pathCacheMaxEntries
            then s.entries.tail else s.entries) ++ [(t, p)] := by
          rw [← hentries]
          rfl
        by_cases hfull : s.entries.length ≥ pathCacheMaxEntries
        · rw [if_pos hfull] at hpush
          exact inserting_outcome_of_goto hpoisoned
            (by rw [PathCall.run, if_neg hp, hlookup, if_pos hfull])
            (.dropping t override p _) rfl hinsert hinserted hpush
        · rw [if_neg hfull] at hpush
          exact inserting_outcome_of_goto hpoisoned
            (by rw [PathCall.run, if_neg hp, hlookup, if_neg hfull])
            (.pushing t override p) rfl hinsert hinserted hpush

end Points

/-- **A step of a call in atomic steps**, one case for each point. `pend` is what the holder of
the lock will push. -/
lemma run_outcome {s : SharedMemory} {c : PathCall} {path : PathArg}
    {p : Prog CacheLabel PathCache (PyResult OwnedPath)} (h : c.Stands w path p)
    (hquiet : ¬c.CodeDue s.memory) {C : PathCache} {pend : List CachedPath}
    (hpend : c.critical = true → pend = c.pending) (hentries : C.entries = s.entries ++ pend)
    (hpoisoned : C.poisoned = s.poisoned) :
    ∃ C', C'.heap = C.heap ∧ Matched w s c path p C C' pend := by
  cases h with
  | start =>
      refine ⟨C, rfl, .of_unlocked rfl (by cases path <;> rfl) hentries hpoisoned ?_⟩
      cases path with
      | tuple t override => exact .stutter (.looking t override)
      | _ => exact .stutter (.parsing fun _ _ => PathArg.noConfusion)
  | looking t override =>
      obtain rfl := hpend rfl
      exact ⟨C, rfl, looking_outcome (hentries.trans (List.append_nil _)) hpoisoned⟩
  | parsing hpath => exact ⟨C, rfl, parsing_outcome_of_ne hpath hentries hpoisoned⟩
  | parsingTuple t override => exact ⟨C, rfl, parsing_outcome hentries hpoisoned⟩
  | parsed t override p =>
      exact ⟨C, rfl, .of_unlocked rfl rfl hentries hpoisoned (.stutter (.inserting t override p))⟩
  | inserting t override p =>
      obtain rfl := hpend rfl
      refine ⟨insertPath w t p C, ?_,
        inserting_outcome (hentries.trans (List.append_nil _)) hpoisoned⟩
      rcases insertPath_cases w t p C with h | ⟨-, -, h⟩
      · rw [h]
      · rw [h]
        rfl
  | dropping t override p work =>
      obtain rfl := hpend rfl
      refine ⟨C, rfl, ?_⟩
      cases work with
      | nil => exact ⟨.stutter (.pushing t override p), hentries, hpoisoned⟩
      | cons d work =>
          have hrun := run_dropping (w := w) (t := t) (p := p) hquiet work
          refine ⟨?_, ?_, ?_⟩
          · rw [hrun]
            exact .stutter (.dropping t override p _)
          · rw [hrun]
            exact hentries
          · rw [hrun]
            exact hpoisoned
  | pushing t override p =>
      obtain rfl := hpend rfl
      refine ⟨C, rfl, .ret rfl, ?_, hpoisoned⟩
      rw [hentries]
      simp [PathCall.run, critical, Reply.pending, pending]

/-- Outside the sections of the lock nothing has been evicted. -/
lemma run_pending_of_unlocked {s : SharedMemory} {c : PathCall} (hc : c.critical = false) :
    (c.run w s).2.pending = [] := by
  cases c with
  | start path => cases path <;> rfl
  | parsing path =>
      rw [run]
      cases parsePath w path with
      | error e => rfl
      | ok p => cases path <;> rfl
  | parsed => rfl
  | _ => cases hc

lemma pending_of_unlocked {c : PathCall} (hc : c.critical = false) : c.pending = [] := by
  cases c <;> first | rfl | cases hc

/-- A plain path means the same at every point of its call. -/
lemma Stands.parsePath_eq {c : PathCall} {path : PathArg}
    {p : Prog CacheLabel PathCache (PyResult OwnedPath)} (h : c.Stands w path p)
    (plain : c.path.Plain) : path.Plain ∧ parsePath w path = parsePath w c.path := by
  cases h with
  | parsed t override | inserting t override | dropping t override | pushing t override =>
      have ht : t.plain = true := plain
      exact ⟨ht, (parsePath_tuple_of_plain ht override).trans
        (parsePath_tuple_of_plain ht none).symm⟩
  | _ => exact ⟨plain, rfl⟩

end PathCall

/-! ### The pool that a machine stands for -/

/-- A frame as a caller: Python code calls nothing, a call is in flight. -/
inductive FrameStands (w : ℕ) : Option Frame →
    Option (Task PathArg CacheLabel PathCache (PyResult OwnedPath)) → Prop
  | empty : FrameStands w none none
  | python : FrameStands w (some .python) none
  | call {c : PathCall} {path : PathArg} {tr : List CacheLabel}
      {p : Prog CacheLabel PathCache (PyResult OwnedPath)} (h : c.Stands w path p) :
      FrameStands w (some (.call c)) (some ⟨path, tr, p⟩)

/-- A frame of Python code stands for no caller, like no frame. -/
lemma frameStands_python_iff {o : Option (Task PathArg CacheLabel PathCache (PyResult OwnedPath))} :
    FrameStands w (some .python) o ↔ FrameStands w none o := by
  constructor
  · rintro ⟨⟩
    exact .empty
  · rintro ⟨⟩
    exact .python

section Events

variable {ι : Type}

/-- The answer that a return gives to a thread. -/
def Event.answer? :
    Event (ι × ℕ) PathArg CacheLabel (PyResult OwnedPath) → Option (ι × PyResult OwnedPath)
  | .ret k _ _ a => some (k.1, a)
  | _ => none

/-- The answers of a run, in order. -/
def answersOf (es : List (Event (ι × ℕ) PathArg CacheLabel (PyResult OwnedPath))) :
    List (ι × PyResult OwnedPath) := es.filterMap Event.answer?

lemma answersOf_append (es es' : List (Event (ι × ℕ) PathArg CacheLabel (PyResult OwnedPath))) :
    answersOf (es ++ es') = answersOf es ++ answersOf es' := List.filterMap_append

end Events

/-- A stack after its innermost frame has been replaced, frame by frame from the outermost. -/
lemma getElem?_reverse_replace {α : Type} {fs : List α} (hfs : fs.length ≤ 1) (rest : List α)
    (d : ℕ) :
    (fs ++ rest).reverse[d]? = if d = rest.length then fs.head? else rest.reverse[d]? := by
  have hle : ∀ {d}, rest.length ≤ d → rest.reverse[d]? = none := fun hd =>
    List.getElem?_eq_none (by rwa [List.length_reverse])
  cases fs with
  | nil =>
      by_cases hd : d = rest.length
      · rw [if_pos hd, List.nil_append, hle hd.ge]
        rfl
      · rw [if_neg hd, List.nil_append]
  | cons f fs =>
      obtain rfl : fs = [] := List.length_eq_zero_iff.mp (by simpa using hfs)
      rw [List.singleton_append, List.reverse_cons, List.getElem?_append, List.length_reverse]
      rcases Nat.lt_trichotomy d rest.length with hlt | rfl | hgt
      · rw [if_pos hlt, if_neg hlt.ne]
      · simp
      · rw [if_neg hgt.not_gt, if_neg hgt.ne', hle hgt.le]
        exact List.getElem?_eq_none (by simp; omega)

namespace Machine

variable {ι : Type}

/-- The entry that the holder of the lock has made room for and will push. -/
def pending (M : Machine ι) : List CachedPath :=
  match M.holder with
  | none => []
  | some i => match M.stack i with
    | .call c :: _ => c.pending
    | _ => []

/-- **The pool that a machine stands for**: a caller for each call on a stack, named by the thread
and the height of the frame, and the cache with what is about to be pushed. -/
structure Abstracts (w : ℕ) (M : Machine ι)
    (P : Pool (ι × ℕ) PathArg CacheLabel PathCache (PyResult OwnedPath)) : Prop where
  entries : P.shared.entries = M.shared.entries ++ M.pending
  poisoned : P.shared.poisoned = M.shared.poisoned
  frames : ∀ i d, FrameStands w (M.stack i).reverse[d]? (P.tasks (i, d))

/-- The tuples that the cache and the calls refer to. -/
def Refers (M : Machine ι) (t : PyTuple) : Prop :=
  (∃ p, (t, p) ∈ M.shared.entries) ∨ ∃ i c, .call c ∈ M.stack i ∧ c.tuple? = some t

/-- Two tuples that are referred to at one address are one tuple. -/
def Identity (M : Machine ι) : Prop :=
  ∀ t t', M.Refers t → M.Refers t' → t.addr = t'.addr → t = t'

variable [DecidableEq ι]

/-- A step that runs no code of a death under the lock, after which tuples at one address are one
tuple and the calls that begin are `allowed`. -/
def GenuineStep (w : ℕ) (allowed : PathArg → Prop) (M M' : Machine ι) : Prop :=
  QuietStep w M M' ∧ M'.Identity ∧
    ∀ i path, .call (.start path) ∈ M'.stack i → allowed path

variable {i : ι} {M M' : Machine ι} {c : PathCall} {rest : List Frame}

omit [DecidableEq ι] in
lemma pending_of_holder (hheld : M.holder = some i) (hi : M.stack i = .call c :: rest) :
    M.pending = c.pending := by
  simp only [pending, hheld, hi]

omit [DecidableEq ι] in
lemma pending_of_free (hfree : M.holder = none) : M.pending = [] := by
  simp only [pending, hfree]

omit [DecidableEq ι] in
/-- Who holds the lock and where it stands decide what is pending. -/
lemma pending_congr (hholder : M'.holder = M.holder)
    (hstack : ∀ j, M.holder = some j → M'.stack j = M.stack j) : M'.pending = M.pending := by
  cases hheld : M.holder with
  | none => rw [pending_of_free hheld, pending_of_free (hholder.trans hheld)]
  | some j => simp only [pending, hholder, hheld, hstack j hheld]

lemma stack_withStack_self (stack : List Frame) : (M.withStack i stack).stack i = stack :=
  Function.update_self _ _ _

lemma stack_withStack_of_ne {j : ι} (hj : j ≠ i) (stack : List Frame) :
    (M.withStack i stack).stack j = M.stack j := Function.update_of_ne hj _ _

/-- A thread outside the sections of the lock changes nothing that is pending. -/
lemma pending_withStack (hM : M.Disciplined Frame.critical) {f : Frame} (hi : M.stack i = f :: rest)
    (hf : f.critical = false) (stack : List Frame) : (M.withStack i stack).pending = M.pending := by
  refine pending_congr rfl fun j hj => stack_withStack_of_ne ?_ stack
  rintro rfl
  rw [(hM.critical_iff hi).mpr hj] at hf
  cases hf

omit [DecidableEq ι] in
/-- What is pending is in the hands of a call. -/
lemma refers_of_mem_pending {e : CachedPath} (he : e ∈ M.pending) : M.Refers e.1 := by
  cases hheld : M.holder with
  | none =>
      rw [pending_of_free hheld] at he
      cases he
  | some j =>
      cases hj : M.stack j with
      | nil => simp [pending, hheld, hj] at he
      | cons f rest =>
          cases f with
          | python => simp [pending, hheld, hj] at he
          | call c =>
              rw [pending_of_holder hheld hj] at he
              refine Or.inr ⟨j, c, by rw [hj]; exact List.mem_cons_self, ?_⟩
              cases c with
              | dropping t p work | pushing t p =>
                  rw [List.mem_singleton.mp he]
                  rfl
              | _ => cases he

/-- What is pending after a thread has replaced its innermost call `c` by the frames of a reply. -/
lemma pending_replace (hM : M.Disciplined Frame.critical) (hi : M.stack i = .call c :: rest)
    {r : Reply} (hr : (∃ d, r = .goto d) ∨ ∃ a, r = .answer a)
    (hunlocked : c.critical = false → r.pending = []) {L : Locked ι Frame}
    (hL : M.replace Frame.critical i (.call c) r.frames rest = some L) {s : SharedMemory}
    {ans : List (ι × PyResult OwnedPath)} :
    (⟨L, s, ans⟩ : Machine ι).pending = if c.critical then r.pending else M.pending := by
  have hstack := Locked.stack_of_replace hL
  have hheld := hM.critical_iff hi
  have htop := hM.holder_replace hi hL i
  rw [if_pos rfl] at htop
  by_cases hany : r.frames.any Frame.critical = true
  · -- the thread holds the lock at the new point
    obtain ⟨d, rfl⟩ : ∃ d, r = .goto d := by
      rcases hr with hr | ⟨a, rfl⟩
      · exact hr
      · cases hany
    have hpending : (⟨L, s, ans⟩ : Machine ι).pending = d.pending := by
      have htop' : L.stack i = .call d :: rest := by
        rw [hstack, Function.update_self]
        rfl
      exact pending_of_holder (htop.mpr hany) htop'
    rw [hpending]
    by_cases hc : c.critical = true
    · rw [if_pos hc]
      rfl
    · rw [if_neg hc]
      have hfree : M.holder = none := by
        have hc : ¬Frame.critical (.call c) = true := hc
        rw [Locked.replace, if_neg hc, if_pos hany] at hL
        split_ifs at hL with hfree
        exact Option.isNone_iff_eq_none.mp hfree
      rw [pending_of_free hfree]
      exact hunlocked (by simpa using hc)
  · have hnone : r.pending = [] := by
      rcases hr with ⟨d, rfl⟩ | ⟨a, rfl⟩
      · exact PathCall.pending_of_unlocked (by simpa [Reply.frames, Frame.critical] using hany)
      · rfl
    by_cases hc : c.critical = true
    · have hfree : L.holder = none := by
        have hc : Frame.critical (.call c) = true := hc
        rw [Locked.replace, if_pos hc, if_neg hany] at hL
        cases hL
        rfl
      rw [if_pos hc, hnone]
      exact pending_of_free hfree
    · rw [if_neg hc]
      have hsame : L.holder = M.holder := by
        have hc : ¬Frame.critical (.call c) = true := hc
        rw [Locked.replace, if_neg hc, if_neg hany] at hL
        cases hL
        rfl
      refine pending_congr hsame fun j hj => ?_
      have hji : j ≠ i := by
        rintro rfl
        exact hc (hheld.mpr hj)
      show L.stack j = _
      rw [hstack, Function.update_of_ne hji]

end Machine

/-! ### Steps of the pool -/

/-- The contract of a call over arbitrary tuples, for paths that are allowed. -/
lemma pathContract_holds_allowed (w : ℕ) (allowed : PathArg → Prop) :
    (pathContract w (PathCache.Inv w) allowed).Holds (pathSystem w allowed) :=
  pathContract_holds (fun _ h => h)
    (fun _ _ override _ h _ alive parsed _ => h.push alive fun plain =>
      (parsePath_tuple_of_plain plain override).symm.trans parsed)
    fun _ _ _ hs h => h.env hs

section Pool

variable {ι : Type} [DecidableEq ι] {allowed : PathArg → Prop} {s₀ : PathCache}
  {es : List (Event (ι × ℕ) PathArg CacheLabel (PyResult OwnedPath))}
  {P : Pool (ι × ℕ) PathArg CacheLabel PathCache (PyResult OwnedPath)}

/-- A step of a call as steps of the pool. -/
lemma Outcome.run (run : (pathSystem w allowed).Run s₀ es P) {k : ι × ℕ} {path : PathArg}
    {tr : List CacheLabel} {p : Prog CacheLabel PathCache (PyResult OwnedPath)}
    (hk : P.tasks k = some ⟨path, tr, p⟩) {C : PathCache} {r : Reply}
    (h : Outcome w path p P.shared C r) :
    ∃ es' o, (pathSystem w allowed).Run s₀ (es ++ es') ⟨C, Function.update P.tasks k o⟩ ∧
      FrameStands w r.frames.head? o ∧ answersOf es' = r.answers k.1 ∧
      ∀ a, r = .answer a → ∃ tr', .ret k path tr' a ∈ es' := by
  obtain ⟨s, tasks⟩ := P
  have hk : tasks k = some ⟨path, tr, p⟩ := hk
  cases h with
  | stutter hc =>
      refine ⟨[], tasks k, ?_, ?_, rfl, fun a ha => nomatch ha⟩
      · rwa [List.append_nil, Function.update_eq_self]
      · rw [hk]
        exact .call hc
  | step hp hc =>
      subst hp
      exact ⟨_, _, run.snoc (.step hk), .call hc, rfl, fun a ha => nomatch ha⟩
  | @stepRet label update next a hp hnext =>
      subst hp
      have hnext : next s = .ret a := hnext
      have hlast : Function.update tasks k (some ⟨path, tr ++ [label s], next s⟩) k
          = some ⟨path, tr ++ [label s], .ret a⟩ := by rw [Function.update_self, hnext]
      have hret := (run.snoc (.step hk)).snoc (.ret (P := ⟨update s, _⟩) hlast)
      rw [Function.update_idem, List.append_assoc] at hret
      refine ⟨_, none, hret, .empty, rfl, fun b hb => ?_⟩
      cases hb
      exact ⟨_, List.mem_append_right _ (List.mem_singleton_self _)⟩
  | @ret a hp =>
      subst hp
      refine ⟨_, none, run.snoc (.ret hk), .empty, rfl, fun b hb => ?_⟩
      cases hb
      exact ⟨_, List.mem_singleton_self _⟩

/-- The environment sees to it that a tuple is the one at its address, unless another one is
referred to there. -/
lemma exists_run_alive (run : (pathSystem w allowed).Run s₀ es P) (t : PyTuple)
    (hother : ∀ u, P.shared.heap t.addr = some u → u ≠ t →
      (∀ e ∈ P.shared.entries, e.1.addr ≠ t.addr) ∧ Unused P.Running t.addr) :
    ∃ es' heap, (pathSystem w allowed).Run s₀ (es ++ es')
        ⟨{ P.shared with heap := heap }, P.tasks⟩ ∧ answersOf es' = [] ∧ heap t.addr = some t := by
  have halloc : ∀ {es} {s : PathCache}, (pathSystem w allowed).Run s₀ es ⟨s, P.tasks⟩ →
      s.heap t.addr = none → (pathSystem w allowed).Run s₀ (es ++ [.env])
        ⟨{ s with heap := Function.update s.heap t.addr (some t) }, P.tasks⟩ :=
    fun hrun hnone => hrun.snoc (.env (.alloc t hnone))
  cases hheap : P.shared.heap t.addr with
  | none =>
      exact ⟨_, _, halloc run hheap, rfl, Function.update_self _ _ _⟩
  | some u =>
      by_cases hu : u = t
      · subst hu
        exact ⟨[], P.shared.heap, by rwa [List.append_nil], rfl, hheap⟩
      · obtain ⟨huncached, hunused⟩ := hother u hheap hu
        have hfree := run.snoc (.env (.free t.addr huncached hunused))
        have hrun := halloc hfree (Function.update_self _ _ _)
        rw [List.append_assoc] at hrun
        exact ⟨_, _, hrun, rfl, Function.update_self _ _ _⟩

end Pool

/-! ### Steps of the machine -/

namespace Machine

variable {ι : Type} [DecidableEq ι] {allowed : PathArg → Prop} {s₀ : PathCache}
  {es : List (Event (ι × ℕ) PathArg CacheLabel (PyResult OwnedPath))}
  {P : Pool (ι × ℕ) PathArg CacheLabel PathCache (PyResult OwnedPath)}
  {i : ι} {M M' : Machine ι} {c : PathCall} {rest : List Frame}

omit [DecidableEq ι] in
/-- The innermost call of a thread is a call in flight. -/
lemma Abstracts.task (h : Abstracts w M P) (hi : M.stack i = .call c :: rest) :
    ∃ path tr p, P.tasks (i, rest.length) = some ⟨path, tr, p⟩ ∧ c.Stands w path p := by
  have hframe := h.frames i rest.length
  rw [hi, ← List.singleton_append, getElem?_reverse_replace (by simp), if_pos rfl] at hframe
  generalize P.tasks (i, rest.length) = task at hframe
  cases hframe with
  | call hc => exact ⟨_, _, _, rfl, hc⟩

/-- The callers after a thread has put one frame, or none, on what it keeps of its stack. -/
lemma Abstracts.frames_update (h : Abstracts w M P)
    (hi : ∀ d, d ≠ rest.length → (M.stack i).reverse[d]? = rest.reverse[d]?) {fs : List Frame}
    (hfs : fs.length ≤ 1) {o : Option (Task PathArg CacheLabel PathCache (PyResult OwnedPath))}
    (ho : FrameStands w fs.head? o) (j : ι) (d : ℕ) :
    FrameStands w (Function.update M.stack i (fs ++ rest) j).reverse[d]?
      (Function.update P.tasks (i, rest.length) o (j, d)) := by
  have hframe := h.frames j d
  by_cases hj : j = i
  · subst hj
    rw [Function.update_self, getElem?_reverse_replace hfs]
    by_cases hd : d = rest.length
    · subst hd
      rw [if_pos rfl, Function.update_self]
      exact ho
    · rw [if_neg hd, Function.update_of_ne fun heq => hd (Prod.ext_iff.mp heq).2, ← hi d hd]
      exact hframe
  · rw [Function.update_of_ne hj, Function.update_of_ne fun heq => hj (Prod.ext_iff.mp heq).1]
    exact hframe

/-- What a thread keeps of its stack when it replaces its innermost frame. -/
lemma getElem?_reverse_of_cons {α : Type} {stack rest : List α} {f : α} (hi : stack = f :: rest)
    (d : ℕ) (hd : d ≠ rest.length) : stack.reverse[d]? = rest.reverse[d]? := by
  rw [hi, ← List.singleton_append, getElem?_reverse_replace (by simp), if_neg hd]

/-- **A step of a call is steps of the pool**, which give the answers that it gives. -/
lemma Abstracts.callStep (h : Abstracts w M P) (run : (pathSystem w allowed).Run s₀ es P)
    (hM : M.Disciplined Frame.critical) (hi : M.stack i = .call c :: rest)
    (hquiet : ¬c.CodeDue M.shared.memory) (hstep : M.callStep w i = some M') :
    ∃ es' P', (pathSystem w allowed).Run s₀ (es ++ es') P' ∧ Abstracts w M' P' ∧
      M'.answers = M.answers ++ answersOf es' ∧
      ∀ a, (c.run w M.shared).2 = .answer a →
        ∃ path p tr, c.Stands w path p ∧ .ret (i, rest.length) path tr a ∈ es' := by
  obtain ⟨path, tr, p, htask, hc⟩ := h.task hi
  have hpend : c.critical = true → M.pending = c.pending := fun hcritical =>
    pending_of_holder ((hM.critical_iff hi).mp hcritical) hi
  obtain ⟨C, -, hmatched⟩ := PathCall.run_outcome hc hquiet hpend h.entries h.poisoned
  obtain ⟨es', o, hrun, ho, hanswers, hret⟩ := hmatched.outcome.run run htask
  rw [callStep_eq hi, Option.map_eq_some_iff] at hstep
  obtain ⟨L, hL, rfl⟩ := hstep
  have hreply := PathCall.run_of_not_codeDue (w := w) hquiet
  have hpending : (⟨L, (c.run w M.shared).1, M.answers ++ (c.run w M.shared).2.answers i⟩ :
      Machine ι).pending = if c.critical then (c.run w M.shared).2.pending else M.pending :=
    pending_replace hM hi hreply PathCall.run_pending_of_unlocked hL
  have hlength : (c.run w M.shared).2.frames.length ≤ 1 := by
    rcases hreply with ⟨d, hd⟩ | ⟨a, ha⟩
    · rw [hd, Reply.frames, List.length_singleton]
    · simp [ha, Reply.frames]
  refine ⟨es', _, hrun, ⟨?_, hmatched.poisoned, fun j d => ?_⟩, by rw [hanswers], fun a ha => ?_⟩
  · rw [hpending]
    exact hmatched.entries
  · show FrameStands w (L.stack j).reverse[d]? _
    rw [Locked.stack_of_replace hL]
    exact h.frames_update (getElem?_reverse_of_cons hi) hlength ho j d
  · obtain ⟨tr', hmem⟩ := hret a ha
    exact ⟨path, p, tr', hc, hmem⟩

omit [DecidableEq ι] in
/-- A tuple that a call in flight passes is referred to. -/
lemma Abstracts.refers_of_running (h : Abstracts w M P) {t : PyTuple}
    {override : Option Iteration} (hrunning : P.Running (.tuple t override)) : M.Refers t := by
  obtain ⟨⟨j, d⟩, task, htask, hcall⟩ := hrunning
  have hframe := h.frames j d
  rw [htask] at hframe
  generalize hget : (M.stack j).reverse[d]? = f at hframe
  cases hframe with
  | @call c path tr p hc =>
      obtain rfl : path = .tuple t override := hcall
      have hmem : .call c ∈ M.stack j := List.mem_reverse.mp (List.mem_of_getElem? hget)
      exact Or.inr ⟨j, c, hmem, hc.tuple?⟩

/-- **Entering a call is a call of the pool**, before which the environment has made its tuple the
one at its address. -/
lemma Abstracts.enter (h : Abstracts w M P)
    (run : (pathSystem w allowed).Run (PathCache.new fun _ => none) es P)
    (hM : M.Disciplined Frame.critical) {path : PathArg} (hi : M.stack i = .python :: rest)
    (hallowed : allowed path)
    (hident : (M.withStack i (.call (.start path) :: .python :: rest)).Identity) :
    ∃ es' P', (pathSystem w allowed).Run (PathCache.new fun _ => none) (es ++ es') P' ∧
      Abstracts w (M.withStack i (.call (.start path) :: .python :: rest)) P' ∧
      answersOf es' = [] := by
  have hsound := (pathContract_holds_allowed w allowed).sound
    (PathCache.shape_new w _).toInv run
  have hself : (M.withStack i (.call (.start path) :: .python :: rest)).stack i
      = .call (.start path) :: .python :: rest := stack_withStack_self _
  have hkeep : ∀ t, M.Refers t →
      (M.withStack i (.call (.start path) :: .python :: rest)).Refers t := by
    rintro t (hentry | ⟨j, c, hmem, hc⟩)
    · exact Or.inl hentry
    · refine Or.inr ⟨j, c, ?_, hc⟩
      by_cases hj : j = i
      · subst hj
        rw [hself, ← hi]
        exact List.mem_cons_of_mem _ hmem
      · rwa [stack_withStack_of_ne hj]
  obtain ⟨es', heap, hrun, hanswers, halive⟩ : ∃ es' heap, (pathSystem w allowed).Run
      (PathCache.new fun _ => none) (es ++ es') ⟨{ P.shared with heap := heap }, P.tasks⟩ ∧
      answersOf es' = [] ∧ path.Alive { P.shared with heap := heap } := by
    cases path with
    | tuple t override =>
        have hnew : (M.withStack i (.call (.start (.tuple t override)) :: .python :: rest)).Refers
            t := Or.inr ⟨i, _, by rw [hself]; exact List.mem_cons_self, rfl⟩
        have hsame : ∀ u, M.Refers u → u.addr = t.addr → u = t := fun u hu =>
          hident u t (hkeep u hu) hnew
        refine exists_run_alive run t fun u hu hne => ⟨fun e he haddr => ?_, fun v o hv haddr => ?_⟩
        · have hrefers : M.Refers e.1 := by
            have he' := he
            rw [h.entries] at he'
            rcases List.mem_append.mp he' with he' | he'
            · exact Or.inl ⟨e.2, he'⟩
            · exact refers_of_mem_pending he'
          have hheap := hsound.inv.alive e he
          rw [hsame e.1 hrefers haddr, hu] at hheap
          exact hne (Option.some.inj hheap)
        · obtain ⟨k, task, htask, hcall⟩ := id hv
          have hheap := (hsound.live k task htask).2
          rw [hcall, hsame v (h.refers_of_running hv) haddr] at hheap
          exact hne (Option.some.inj (hu.symm.trans hheap))
    | _ => exact ⟨[], P.shared.heap, by rwa [List.append_nil], rfl, trivial⟩
  have hidle : P.tasks (i, (Frame.python :: rest).length) = none := by
    have hframe := h.frames i (Frame.python :: rest).length
    rw [hi, List.getElem?_eq_none (by simp)] at hframe
    generalize P.tasks (i, (Frame.python :: rest).length) = task at hframe
    cases hframe
    rfl
  have hcall := hrun.snoc (.call (i := (i, (Frame.python :: rest).length)) hidle
    ⟨hallowed, halive⟩)
  rw [List.append_assoc] at hcall
  refine ⟨_, _, hcall, ⟨?_, h.poisoned, ?_⟩, by rw [answersOf_append, hanswers]; rfl⟩
  · rw [pending_withStack hM hi rfl]
    exact h.entries
  · have hnew : FrameStands w [Frame.call (.start path)].head?
        (some ⟨path, [], getOrParsePath w path⟩) := .call (.start path)
    exact h.frames_update (fun d _ => by rw [hi]) (by simp) hnew

/-- A step that moves Python frames alone. -/
lemma Abstracts.withStack (h : Abstracts w M P) (hM : M.Disciplined Frame.critical) {f : Frame}
    (hi : M.stack i = f :: rest) (hf : f.critical = false) {stack : List Frame}
    (hstack : ∀ d, FrameStands w stack.reverse[d]? (P.tasks (i, d))) :
    Abstracts w (M.withStack i stack) P := by
  refine ⟨?_, h.poisoned, fun j d => ?_⟩
  · rw [pending_withStack hM hi hf]
    exact h.entries
  · by_cases hj : j = i
    · subst hj
      rw [stack_withStack_self]
      exact hstack d
    · rw [stack_withStack_of_ne hj]
      exact h.frames j d

/-- **A step of the machine is steps of the pool**, which give the answers that it gives. -/
lemma Abstracts.step (h : Abstracts w M P)
    (run : (pathSystem w allowed).Run (PathCache.new fun _ => none) es P)
    (hM : M.Disciplined Frame.critical) (hstep : GenuineStep w allowed M M') :
    ∃ es' P', (pathSystem w allowed).Run (PathCache.new fun _ => none) (es ++ es') P' ∧
      Abstracts w M' P' ∧ M'.answers = M.answers ++ answersOf es' := by
  obtain ⟨⟨i, hquiet, hstep⟩, hident, hallowed⟩ := hstep
  have hsame : (pathSystem w allowed).Run (PathCache.new fun _ => none) (es ++ []) P := by
    rwa [List.append_nil]
  have hnone : M.answers = M.answers ++ answersOf ([] : List (Event (ι × ℕ) PathArg CacheLabel _))
      := (List.append_nil _).symm
  cases hstep with
  | call hcall =>
      cases hi : M.stack i with
      | nil => simp [Machine.callStep, hi] at hcall
      | cons f rest =>
          cases f with
          | python => simp [Machine.callStep, hi] at hcall
          | call c =>
              rw [codeDue_iff hi] at hquiet
              obtain ⟨es', P', hrun, habs, hanswers, -⟩ := h.callStep run hM hi hquiet hcall
              exact ⟨es', P', hrun, habs, hanswers⟩
  | @enter path rest hi =>
      have hmem : .call (.start path) ∈
          (M.withStack i (.call (.start path) :: .python :: rest)).stack i := by
        rw [stack_withStack_self]
        exact List.mem_cons_self
      obtain ⟨es', P', hrun, habs, hanswers⟩ := h.enter run hM hi (hallowed i path hmem) hident
      exact ⟨es', P', hrun, habs, by rw [hanswers, List.append_nil]; rfl⟩
  | @iterate path rest hpath hi =>
      refine ⟨[], P, hsame, h.withStack hM hi rfl fun d => ?_, hnone⟩
      have hframe := h.frames i d
      rw [hi] at hframe
      rw [← List.singleton_append, getElem?_reverse_replace (by simp)]
      by_cases hd : d = (Frame.call (.parsing path) :: rest).length
      · rw [List.getElem?_eq_none (by simp [hd])] at hframe
        rw [if_pos hd]
        exact frameStands_python_iff.mpr hframe
      · rw [if_neg hd]
        exact hframe
  | @ret f rest hi =>
      refine ⟨[], P, hsame, h.withStack hM hi rfl fun d => ?_, hnone⟩
      have hframe := h.frames i d
      rw [hi, ← List.singleton_append, getElem?_reverse_replace (by simp)] at hframe
      by_cases hd : d = (f :: rest).length
      · rw [if_pos hd] at hframe
        rw [List.getElem?_eq_none (by simp [hd])]
        exact frameStands_python_iff.mp hframe
      · rwa [if_neg hd] at hframe
  | python m hi keeps => exact ⟨[], P, hsame, ⟨h.entries, h.poisoned, h.frames⟩, hnone⟩
  | poison =>
      refine ⟨[.env], _, run.snoc (.env .poison), ⟨h.entries, rfl, h.frames⟩, hnone⟩

/-! ### Runs of the machine -/

omit [DecidableEq ι] in
/-- The new machine stands for the pool in which nobody has called. -/
lemma initial_abstracts (m : Memory) :
    Abstracts w (initial m : Machine ι) (.start (.new fun _ => none)) := by
  refine ⟨rfl, rfl, fun i d => ?_⟩
  show FrameStands w [Frame.python][d]? none
  cases d with
  | zero => exact .python
  | succ d => exact .empty

/-- The runs that the results below are about. -/
abbrev GenuineRun (w : ℕ) (allowed : PathArg → Prop) (m : Memory) (M : Machine ι) : Prop :=
  Relation.ReflTransGen (GenuineStep w allowed) (initial m) M

lemma GenuineRun.disciplined {m : Memory} (run : GenuineRun w allowed m M) :
    M.Disciplined Frame.critical := by
  induction run with
  | refl => exact initial_disciplined m
  | tail _ hstep ih =>
      obtain ⟨i, hquiet, hstep⟩ := hstep.1
      exact hstep.disciplined ih hquiet

/-- The pool that is reached beside the machine. -/
lemma GenuineRun.abstracts {m : Memory} (run : GenuineRun w allowed m M) :
    ∃ es P, (pathSystem w allowed).Run (PathCache.new fun _ => none) es P ∧ Abstracts w M P ∧
      M.answers = answersOf es := by
  induction run with
  | refl => exact ⟨[], _, .nil, initial_abstracts m, rfl⟩
  | tail run hstep ih =>
      obtain ⟨es, P, hrun, habs, hanswers⟩ := ih
      obtain ⟨es', P', hrun', habs', hanswers'⟩ := habs.step hrun (GenuineRun.disciplined run) hstep
      refine ⟨es ++ es', P', hrun', habs', ?_⟩
      rw [hanswers', hanswers, answersOf_append]

/-- **The lock refines the atomic steps**: every run of the machine in which no death runs code
under the lock, and tuples at one address are one tuple, is a run of callers of `getOrParsePath` in
atomic steps, one for each call on a stack. Each caller stands where its call does, the cache is the
same up to what the holder of the lock has made room for and will push, and the answers are the same
in the same order. -/
theorem pathLock_refines (w : ℕ) (allowed : PathArg → Prop) (m : Memory)
    (run : GenuineRun w allowed m M) :
    ∃ es P, (pathSystem w allowed).Run (PathCache.new fun _ => none) es P ∧ Abstracts w M P ∧
      M.answers = answersOf es :=
  run.abstracts

/-- **An answer under the lock is the parse**: in every such run, a call with a path whose
iteration yields its stored items is answered with what the parser returns. -/
theorem pathLock_parse (w : ℕ) (allowed : PathArg → Prop) (m : Memory)
    (run : GenuineRun w allowed m M) (hi : M.stack i = .call c :: rest) (plain : c.path.Plain)
    (hstep : M.callStep w i = some M') {a : PyResult OwnedPath}
    (hanswer : M'.answers = M.answers ++ [(i, a)]) : a = parsePath w c.path := by
  obtain ⟨es, P, hrun, habs, -⟩ := run.abstracts
  have hreply : (c.run w M.shared).2 = .answer a := by
    have hstep' := hstep
    rw [callStep_eq hi, Option.map_eq_some_iff] at hstep'
    obtain ⟨L, -, rfl⟩ := hstep'
    have hlog := List.append_cancel_left hanswer
    cases hr : (c.run w M.shared).2 with
    | answer b =>
        rw [hr] at hlog
        simpa [Reply.answers] using hlog
    | goto d | interrupt d => simp [hr, Reply.answers] at hlog
  have hquiet : ¬c.CodeDue M.shared.memory := fun hdue => by
    obtain ⟨d, hd, -⟩ := PathCall.run_of_codeDue (w := w) hdue
    rw [hreply] at hd
    cases hd
  obtain ⟨es', P', hrun', -, -, hret⟩ := habs.callStep hrun run.disciplined hi hquiet hstep
  obtain ⟨path, p, tr, hc, hmem⟩ := hret a hreply
  obtain ⟨hplain, hparse⟩ := hc.parsePath_eq plain
  have hpost := (pathContract_holds_allowed w allowed).post (PathCache.shape_new w _).toInv hrun'
    (List.mem_append_right es hmem)
  rw [hpost.2.1 hplain, hparse]

/-- **The cache under the lock**: in every such run over lists and plain tuples, also between the
eviction and the push, the entries and what is about to be pushed are at most 64, have distinct
paths, and each path is the parse of its tuple. -/
theorem pathLock_shape (w : ℕ) (m : Memory) (run : GenuineRun w PathArg.Plain m M) :
    M.shared.entries.length + M.pending.length ≤ 64 ∧
      ((M.shared.entries ++ M.pending).map Prod.snd).Nodup ∧
      ∀ e ∈ M.shared.entries ++ M.pending, parsePath w (.tuple e.1 none) = .ok e.2 := by
  obtain ⟨es, P, hrun, habs, -⟩ := run.abstracts
  have hshape := (pathContract_holds_shape w).inv (PathCache.shape_new w _) hrun
  rw [← List.length_append, ← habs.entries]
  refine ⟨?_, hshape.nodup, fun e he => ?_⟩
  · rw [hshape.recent]
    exact BoundedQueue.length_rtake_le _ _
  · rw [parsePath_tuple_of_plain (hshape.plain e he)]
    exact hshape.parsed e he (hshape.plain e he)

/-! ### A call that evicts -/

section Evicting

/-- The tuple of a call with a tuple of one index. -/
lemma exists_number_of_tuple? {c : PathCall} (h : OfNumber c) {t : PyTuple}
    (ht : c.tuple? = some t) : ∃ k, t = numberTuple k := by
  cases c with
  | start path | parsing path =>
      obtain ⟨k, rfl⟩ := h
      exact ⟨k, (Option.some.inj ht).symm⟩
  | looking t' override =>
      obtain ⟨-, k, rfl⟩ := h
      exact ⟨k, (Option.some.inj ht).symm⟩
  | _ =>
      obtain ⟨k, rfl⟩ := h
      exact ⟨k, (Option.some.inj ht).symm⟩

/-- Tuples of one index at one address are one tuple. -/
lemma OfNumbers.identity {M : Machine Unit} (h : M.OfNumbers) : M.Identity := by
  have hnumber : ∀ t, M.Refers t → ∃ k, t = numberTuple k := by
    rintro t (⟨p, hp⟩ | ⟨i, c, hc, ht⟩)
    · exact h.1 (t, p) hp
    · exact exists_number_of_tuple? (h.2 i c hc) ht
  intro t t' ht ht' haddr
  obtain ⟨k, rfl⟩ := hnumber t ht
  obtain ⟨k', rfl⟩ := hnumber t' ht'
  rw [show k = k' from haddr]

/-- A run of calls with tuples of one index is one that the results are about. -/
lemma genuineRun_of_numberSteps {m : Memory} {M : Machine Unit}
    (hallowed : ∀ k, allowed (.tuple (numberTuple k) none))
    (run : Relation.ReflTransGen NumberStep (initial m) M) : GenuineRun 64 allowed m M := by
  induction run with
  | refl => exact .refl
  | @tail N N' run hstep ih =>
      obtain ⟨-, hdrops⟩ := quietEvictions_keep (initial_disciplined m) (initial_dropsQuietly m)
        (quietEvictions_of_numberSteps run)
      obtain ⟨⟨i, hmove, -, -⟩, hnumbers⟩ := hstep
      refine ih.tail ⟨⟨i, not_codeDue_of_dropsQuietly hdrops i, hmove⟩, hnumbers.identity, ?_⟩
      intro j path hmem
      obtain ⟨k, rfl⟩ := hnumbers.2 j _ hmem
      exact hallowed k

/-- With the oldest entry evicted, the call is about to push: it stands for a caller that has its
answer. -/
theorem pathLock_refines_pushing :
    ∃ es P, (pathSystem 64 fun _ => True).Run (PathCache.new fun _ => none) es P ∧
      Abstracts 64 pushingLast P ∧ pushingLast.answers = answersOf es :=
  pathLock_refines 64 (fun _ => True) (numberMemory 0)
    (genuineRun_of_numberSteps (fun _ => trivial) reaches_pushingLast)

/-- It is answered with the parse of its tuple. -/
theorem pathLock_parse_pushing :
    (.ok [.Index 64] : PyResult OwnedPath) = parsePath 64 (.tuple (numberTuple 64) none) :=
  pathLock_parse 64 (fun _ => True) (numberMemory 0)
    (genuineRun_of_numberSteps (fun _ => trivial) reaches_pushingLast) stack_atPoint rfl
    (callStep_answer rfl) rfl

/-- What it is about to push makes up for what has been evicted. -/
theorem pathLock_shape_pushing :
    pushingLast.pending = [(numberTuple 64, [.Index 64])] ∧
      pushingLast.shared.entries.length = 63 ∧
      pushingLast.shared.entries.length + pushingLast.pending.length ≤ 64 :=
  ⟨pending_of_holder (i := ()) rfl stack_atPoint, rfl,
    (pathLock_shape 64 (numberMemory 0)
      (genuineRun_of_numberSteps (fun _ => rfl) reaches_pushingLast)).1⟩

end Evicting

end Machine

end MaxminddbRust
