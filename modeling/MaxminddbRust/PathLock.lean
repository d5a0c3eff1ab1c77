import MaxminddbRust.PathCache
import MaxminddbRust.Concurrent.Eventually
import MaxminddbRust.Concurrent.Lock
import Mathlib.Algebra.BigOperators.Group.Finset.Basic
import Mathlib.Logic.Relation

/-!
The lock of the path cache: `get_or_parse_path` at the grain of what happens while it is held.

* `Memory`: Python's objects with their reference counts, the objects they refer to and whether
  their death runs Python code. `Memory.drop`: dropping a reference, where the last one to an
  object first runs this code and then drops what the object refers to.
* `PathCall`: the points of `get_or_parse_path`; `PathCall.run`: what it does at each. A call
  holds the lock at the critical points. The evicted entry is dropped at one of these.
* `Machine`, `Step`: threads whose stacks hold Python code and calls of `get_or_parse_path` it
  makes, one above the other, and one lock that is not re-entrant.
* `Step.disciplined`: unless a death runs code, the holder's innermost frame is its section.
* `getOrParsePath_returns`: a call made alone does what `getOrParsePath` does in atomic steps.
-/

namespace MaxminddbRust

open Concurrent

/-! ### Python's memory -/

/-- The objects that are alive, the number of references to each, the objects that each refers to,
such as the items of a tuple, and whether its death runs Python code: `__del__`, the callback of a
weak reference to it, or the `finally` block of a generator that is suspended. -/
structure Memory where
  live : Finset ℕ
  refs : ℕ → ℕ
  items : ℕ → List ℕ
  deathCode : ℕ → Bool

/-- A reference that is being dropped: the reference itself, or an object whose code has been run
because the last reference to it was dropped. -/
inductive Drop where
  | decref (a : ℕ)
  | dying (a : ℕ)
  deriving DecidableEq

/-- The object of the reference. -/
def Drop.addr : Drop → ℕ
  | decref a | dying a => a

namespace Memory

def incref (m : Memory) (a : ℕ) : Memory :=
  { m with refs := Function.update m.refs a (m.refs a + 1) }

def decref (m : Memory) (a : ℕ) : Memory :=
  { m with refs := Function.update m.refs a (m.refs a - 1) }

/-- The object is gone. -/
def free (m : Memory) (a : ℕ) : Memory :=
  { m with live := m.live.erase a, refs := Function.update m.refs a 0 }

/-- There is one reference left to a live object. -/
def isLast (m : Memory) (a : ℕ) : Bool := decide (a ∈ m.live ∧ m.refs a ≤ 1)

/-- Dropping the reference runs Python code: it is the last one to an object whose death does. -/
def codeDue (m : Memory) : Drop → Bool
  | .decref a => m.isLast a && m.deathCode a
  | .dying _ => false

/-- One step of dropping a reference, and the references to drop next. The object is gone with the
last reference, if the code that its death runs has not made a new one. -/
def drop (m : Memory) : Drop → Memory × List Drop
  | .decref a =>
      if m.isLast a then
        if m.deathCode a then (m, [.dying a]) else (m.free a, (m.items a).map .decref)
      else (m.decref a, [])
  | .dying a =>
      if m.isLast a then (m.free a, (m.items a).map .decref) else (m.decref a, [])

end Memory

/-! ### `get_or_parse_path`, point by point -/

/-- The field `path_cache`, whether its lock is poisoned, and Python's memory. -/
structure SharedMemory where
  entries : List CachedPath
  poisoned : Bool
  memory : Memory

/-- The points of `get_or_parse_path`. -/
inductive PathCall where
  /-- The call begins; for a tuple it goes on to take the lock. -/
  | start (path : PathArg)
  /-- The first critical section, in `lookup_cached_path`. -/
  | looking (t : PyTuple) (override : Option Iteration)
  /-- In `parse_path`, without the lock. -/
  | parsing (path : PathArg)
  /-- The tuple is parsed; the call goes on to take the lock again. -/
  | parsed (t : PyTuple) (path : OwnedPath)
  /-- The second critical section, up to the eviction. -/
  | inserting (t : PyTuple) (path : OwnedPath)
  /-- In `pop_front`'s result being dropped, with the references that are left to drop. -/
  | dropping (t : PyTuple) (path : OwnedPath) (work : List Drop)
  /-- At `push_back`. -/
  | pushing (t : PyTuple) (path : OwnedPath)

/-- What a call does next: go on, return, or go on after the code of a death. -/
inductive Reply where
  | goto (c : PathCall)
  | answer (a : PyResult OwnedPath)
  | interrupt (c : PathCall)

namespace PathCall

/-- The guard of the lock is alive at these points. -/
def critical : PathCall → Bool
  | looking _ _ | inserting _ _ | dropping _ _ _ | pushing _ _ => true
  | start _ | parsing _ | parsed _ _ => false

/-- The next step of the call takes the lock. -/
def Acquires : PathCall → Prop
  | start (.tuple _ _) | parsed _ _ => True
  | _ => False

/-- What `get_or_parse_path` does at each point. The comparison of a tuple with the cached paths
reads the items that are `str` or `int` at their C level and so runs no Python code. -/
def run (w : ℕ) (s : SharedMemory) : PathCall → SharedMemory × Reply
  | start (.tuple t override) => (s, .goto (looking t override))
  | start path => (s, .goto (parsing path))
  | looking t override =>
      if s.poisoned then (s, .goto (parsing (.tuple t override)))
      else match lookupCachedPathInCache w t s.entries with
        | some cachedPath => (s, .answer (.ok cachedPath))
        | none => (s, .goto (parsing (.tuple t override)))
  | parsing path => match parsePath w path with
      | .error e => (s, .answer (.error e))
      | .ok ownedPath => match path with
          | .tuple t _ => (s, .goto (parsed t ownedPath))
          | _ => (s, .answer (.ok ownedPath))
  | parsed t path => (s, .goto (inserting t path))
  | inserting t path =>
      if s.poisoned then (s, .answer (.ok path))
      else match lookupCachedPathInCache w t s.entries with
        | some cachedPath => (s, .answer (.ok cachedPath))
        | none =>
            if s.entries.length ≥ pathCacheMaxEntries then
              -- `pop_front`; what it returns is dropped here, under the lock
              ({ s with entries := s.entries.tail },
                .goto (dropping t path (s.entries.head?.map fun e => .decref e.1.addr).toList))
            else (s, .goto (pushing t path))
  | dropping t path [] => (s, .goto (pushing t path))
  | dropping t path (d :: work) =>
      let next := dropping t path ((s.memory.drop d).2 ++ work)
      ({ s with memory := (s.memory.drop d).1 },
        if s.memory.codeDue d then .interrupt next else .goto next)
  | pushing t path =>
      ({ s with entries := s.entries ++ [(t, path)], memory := s.memory.incref t.addr },
        .answer (.ok path))

/-- The objects that a call has references to: its tuple, and those that it has still to drop. -/
def references : PathCall → List ℕ
  | start (.tuple t _) | looking t _ | parsing (.tuple t _) | parsed t _ | inserting t _
  | pushing t _ => [t.addr]
  | dropping t _ work => t.addr :: work.map Drop.addr
  | _ => []

/-- The next step of the call drops the last reference to an object whose death runs code. -/
def CodeDue (m : Memory) : PathCall → Prop
  | dropping _ _ (d :: _) => m.codeDue d = true
  | _ => False

end PathCall

/-! ### Threads and the lock -/

/-- A frame on the stack of a thread: Python code, or a call of `get_or_parse_path` at one of its
points. -/
inductive Frame where
  | python
  | call (c : PathCall)

/-- A frame of a call that holds the lock. -/
def Frame.critical : Frame → Bool
  | python => false
  | call c => c.critical

/-- The objects that the frame of a call has references to. -/
def Frame.references : Frame → List ℕ
  | python => []
  | call c => c.references

/-- The frames that take the place of a call's. -/
def Reply.frames : Reply → List Frame
  | goto c => [.call c]
  | answer _ => []
  | interrupt c => [.python, .call c]

/-- The answer of a call of thread `i`. -/
def Reply.answers {ι : Type} (i : ι) : Reply → List (ι × PyResult OwnedPath)
  | answer a => [(i, a)]
  | _ => []

/-- Threads, the lock of the path cache, the memory they share, and the log of the answers. -/
structure Machine (ι : Type) extends Locked ι Frame where
  shared : SharedMemory
  answers : List (ι × PyResult OwnedPath)

/-- Iterating the path runs Python code. -/
def PathArg.RunsPython : PathArg → Prop
  | tuple t _ => ¬t.plain = true
  | iterable _ => True
  | _ => False

namespace Machine

variable {ι : Type}

/-- Every thread runs Python code, and the cache is new. -/
def initial (m : Memory) : Machine ι := ⟨⟨fun _ => [.python], none⟩, ⟨[], false, m⟩, []⟩

/-- The references to an object that Python must not give up: the cache's, and those of the calls
of thread `i`. -/
def owned (M : Machine ι) (i : ι) (a : ℕ) : ℕ :=
  (M.shared.entries.map fun e => e.1.addr).count a +
    ((M.stack i).flatMap Frame.references).count a

/-- Python keeps alive what the cache and the calls refer to: it gives up references of its own
only. -/
def Keeps (M : Machine ι) (m : Memory) : Prop :=
  ∀ i a, 0 < M.owned i a → a ∈ m.live ∧ M.owned i a ≤ m.refs a

/-- The innermost frame of the thread is a call whose next step drops the last reference to an
object whose death runs code. -/
def CodeDue (M : Machine ι) (i : ι) : Prop :=
  ∃ c rest, M.stack i = .call c :: rest ∧ c.CodeDue M.shared.memory

variable [DecidableEq ι]

/-- A step of the call that is the innermost frame of a thread; none if there is no call, or if it
waits for the lock. -/
def callStep (w : ℕ) (i : ι) (M : Machine ι) : Option (Machine ι) :=
  match M.stack i with
  | .call c :: rest =>
      let (shared, reply) := c.run w M.shared
      (M.replace Frame.critical i (.call c) reply.frames rest).map fun L =>
        ⟨L, shared, M.answers ++ reply.answers i⟩
  | _ => none

/-- The thread has another stack, and the lock is as it was. -/
def withStack (M : Machine ι) (i : ι) (stack : List Frame) : Machine ι :=
  { M with stack := Function.update M.stack i stack }

/-- A step of a thread. -/
inductive Step (w : ℕ) (i : ι) (M : Machine ι) : Machine ι → Prop
  /-- The innermost call goes on. -/
  | call {M' : Machine ι} (h : M.callStep w i = some M') : Step w i M M'
  /-- Python code calls `get_path` or `get_many_path` with a path. -/
  | enter (path : PathArg) {rest : List Frame} (h : M.stack i = .python :: rest) :
      Step w i M (M.withStack i (.call (.start path) :: .python :: rest))
  /-- The parser asks for an item of a path whose iteration runs Python code. -/
  | iterate {path : PathArg} {rest : List Frame} (hpath : path.RunsPython)
      (h : M.stack i = .call (.parsing path) :: rest) :
      Step w i M (M.withStack i (.python :: .call (.parsing path) :: rest))
  /-- Python code that was called returns. -/
  | ret {f : Frame} {rest : List Frame} (h : M.stack i = .python :: f :: rest) :
      Step w i M (M.withStack i (f :: rest))
  /-- Python code makes, refers to and gives up objects. -/
  | python {rest : List Frame} (m : Memory) (h : M.stack i = .python :: rest) (keeps : M.Keeps m) :
      Step w i M { M with shared := { M.shared with memory := m } }
  /-- The lock is poisoned. -/
  | poison : Step w i M { M with shared := { M.shared with poisoned := true } }

/-- A step that does not drop the last reference to an object whose death runs code. -/
def QuietStep (w : ℕ) (M M' : Machine ι) : Prop := ∃ i, ¬M.CodeDue i ∧ Step w i M M'

/-- Thread `i` goes on, or the thread that holds the lock if it has to wait. -/
def serve (w : ℕ) (i : ι) (M : Machine ι) : Option (Machine ι) :=
  (M.callStep w i).or (M.holder.bind fun j => M.callStep w j)

end Machine

/-! ### What a call has left to do -/

/-- The steps that dropping a reference takes by itself. -/
def Drop.weight : Drop → ℕ
  | decref _ => 2
  | dying _ => 1

/-- The steps that dropping what the live objects refer to may take. -/
def Memory.potential (m : Memory) : ℕ := ∑ a ∈ m.live, 2 * (m.items a).length

/-- The steps that a call may still take, but for what the objects it drops refer to. -/
def PathCall.weight : PathCall → ℕ
  | start _ => 9
  | looking _ _ => 8
  | parsing _ => 7
  | parsed _ _ => 6
  | inserting _ _ => 5
  | dropping _ _ work => 2 + (work.map Drop.weight).sum
  | pushing _ _ => 1

def Reply.weight : Reply → ℕ
  | goto c | interrupt c => c.weight
  | answer _ => 0

namespace Memory

variable (m : Memory) {a : ℕ}

lemma potential_free (h : a ∈ m.live) :
    (m.free a).potential + 2 * (m.items a).length = m.potential :=
  Finset.sum_erase_add m.live _ h

lemma weight_decrefs (l : List ℕ) : ((l.map Drop.decref).map Drop.weight).sum = 2 * l.length := by
  induction l with
  | nil => rfl
  | cons a l ih =>
      simp only [List.map_cons, List.sum_cons, List.length_cons, ih, Drop.weight]
      omega

/-- Dropping a reference leaves less to do. -/
lemma weight_drop (d : Drop) :
    (((m.drop d).2.map Drop.weight).sum) + (m.drop d).1.potential < d.weight + m.potential := by
  have hgone : ∀ {a}, m.isLast a = true →
      (((m.items a).map Drop.decref).map Drop.weight).sum + (m.free a).potential = m.potential := by
    intro a hlast
    have hlive : a ∈ m.live := (of_decide_eq_true hlast).1
    rw [weight_decrefs, ← m.potential_free hlive, add_comm]
  cases d with
  | decref a =>
      rw [drop]
      by_cases hlast : m.isLast a = true
      · rw [if_pos hlast]
        by_cases hfin : m.deathCode a = true
        · rw [if_pos hfin]
          simp [Drop.weight]
        · rw [if_neg hfin, hgone hlast, Drop.weight]
          omega
      · rw [if_neg hlast, Drop.weight]
        show 0 + m.potential < 2 + m.potential
        omega
  | dying a =>
      rw [drop]
      by_cases hlast : m.isLast a = true
      · rw [if_pos hlast, hgone hlast, Drop.weight]
        omega
      · rw [if_neg hlast, Drop.weight]
        show 0 + m.potential < 1 + m.potential
        omega

end Memory

namespace PathCall

variable {w : ℕ} {s : SharedMemory}

/-- What a step of a call comes to: it leaves less to do, and it runs the code of a death
exactly where this is due, still in the section of the lock. -/
structure Runs (w : ℕ) (s : SharedMemory) (c : PathCall) : Prop where
  less : (c.run w s).2.weight + (c.run w s).1.memory.potential < c.weight + s.memory.potential
  reply : (¬c.CodeDue s.memory ∧ ∃ c', (c.run w s).2 = .goto c') ∨
    (¬c.CodeDue s.memory ∧ ∃ a, (c.run w s).2 = .answer a) ∨
    c.CodeDue s.memory ∧ ∃ c', (c.run w s).2 = .interrupt c' ∧ c'.critical = true

lemma Runs.of_goto {c c' : PathCall} {s' : SharedMemory} (hrun : c.run w s = (s', .goto c'))
    (hdue : ¬c.CodeDue s.memory)
    (hless : c'.weight + s'.memory.potential < c.weight + s.memory.potential) : Runs w s c := by
  refine ⟨?_, .inl ⟨hdue, c', ?_⟩⟩ <;> rw [hrun]
  exact hless

lemma Runs.of_answer {c : PathCall} {s' : SharedMemory} {a : PyResult OwnedPath}
    (hrun : c.run w s = (s', .answer a)) (hdue : ¬c.CodeDue s.memory)
    (hless : s'.memory.potential < c.weight + s.memory.potential) : Runs w s c := by
  refine ⟨?_, .inr (.inl ⟨hdue, a, ?_⟩)⟩ <;> rw [hrun]
  simpa [Reply.weight] using hless

/-- The references that are left to drop after one of them. -/
lemma weight_dropping (t : PyTuple) (p : OwnedPath) (d : Drop) (work : List Drop) :
    (dropping t p ((s.memory.drop d).2 ++ work)).weight + (s.memory.drop d).1.potential
      < (dropping t p (d :: work)).weight + s.memory.potential := by
  have hdrop := s.memory.weight_drop d
  simp only [weight, List.map_append, List.sum_append, List.map_cons, List.sum_cons]
  omega

variable {t : PyTuple} {p : OwnedPath} {d : Drop}

/-- The next reference is dropped. -/
lemma run_dropping (hdue : ¬s.memory.codeDue d = true) (work : List Drop) :
    (dropping t p (d :: work)).run w s = ({ s with memory := (s.memory.drop d).1 },
      .goto (dropping t p ((s.memory.drop d).2 ++ work))) := by
  rw [run, if_neg hdue]

lemma run_dropping_of_due (hdue : s.memory.codeDue d = true) (work : List Drop) :
    (dropping t p (d :: work)).run w s = ({ s with memory := (s.memory.drop d).1 },
      .interrupt (dropping t p ((s.memory.drop d).2 ++ work))) := by
  rw [run, if_pos hdue]

/-- **Every step of a call**, one case for each point. -/
lemma run_spec (w : ℕ) (s : SharedMemory) (c : PathCall) : Runs w s c := by
  cases c with
  | start path => cases path <;> exact .of_goto rfl id (by simp [weight])
  | looking t override =>
      by_cases hp : s.poisoned = true
      · exact .of_goto (by rw [run, if_pos hp]) id (by simp [weight])
      · cases hlookup : lookupCachedPathInCache w t s.entries with
        | some cachedPath =>
            exact .of_answer (by rw [run, if_neg hp, hlookup]) id (by simp [weight])
        | none => exact .of_goto (by rw [run, if_neg hp, hlookup]) id (by simp [weight])
  | parsing path =>
      cases hparse : parsePath w path with
      | error e => exact .of_answer (by rw [run, hparse]) id (by simp [weight])
      | ok ownedPath =>
          cases path with
          | tuple t override => exact .of_goto (by rw [run, hparse]) id (by simp [weight])
          | _ => exact .of_answer (by rw [run, hparse]) id (by simp [weight])
  | parsed t path => exact .of_goto rfl id (by simp [weight])
  | inserting t path =>
      by_cases hp : s.poisoned = true
      · exact .of_answer (by rw [run, if_pos hp]) id (by simp [weight])
      · cases hlookup : lookupCachedPathInCache w t s.entries with
        | some cachedPath =>
            exact .of_answer (by rw [run, if_neg hp, hlookup]) id (by simp [weight])
        | none =>
            by_cases hfull : s.entries.length ≥ pathCacheMaxEntries
            · refine .of_goto (by rw [run, if_neg hp, hlookup, if_pos hfull]) id ?_
              cases s.entries.head? <;> simp [weight, Drop.weight]
            · exact .of_goto (by rw [run, if_neg hp, hlookup, if_neg hfull]) id (by simp [weight])
  | dropping t path work =>
      cases work with
      | nil => exact .of_goto rfl id (by simp [weight])
      | cons d work =>
          have hless := weight_dropping (s := s) t path d work
          by_cases hdue : s.memory.codeDue d = true
          · have hrun := run_dropping_of_due (w := w) (t := t) (p := path) hdue work
            refine ⟨?_, .inr (.inr ⟨hdue, _, by rw [hrun], rfl⟩)⟩
            rw [hrun]
            exact hless
          · exact .of_goto (run_dropping hdue work) hdue hless
  | pushing t path =>
      refine .of_answer rfl id ?_
      show s.memory.potential < 1 + s.memory.potential
      omega

/-- A call runs the code of a death exactly where this is due. -/
lemma run_of_codeDue {c : PathCall} (h : c.CodeDue s.memory) :
    ∃ c', (c.run w s).2 = .interrupt c' ∧ c'.critical = true := by
  rcases (run_spec w s c).reply with ⟨hnot, -⟩ | ⟨hnot, -⟩ | ⟨-, hinterrupt⟩
  · exact absurd h hnot
  · exact absurd h hnot
  · exact hinterrupt

/-- Otherwise it goes on or returns. -/
lemma run_of_not_codeDue {c : PathCall} (h : ¬c.CodeDue s.memory) :
    (∃ c', (c.run w s).2 = .goto c') ∨ ∃ a, (c.run w s).2 = .answer a := by
  rcases (run_spec w s c).reply with ⟨-, hgoto⟩ | ⟨-, hanswer⟩ | ⟨hdue, -⟩
  · exact .inl hgoto
  · exact .inr hanswer
  · exact absurd hdue h

lemma critical_of_acquires {c : PathCall} (h : c.Acquires) : c.critical = false := by
  cases c <;> first | rfl | exact h.elim

end PathCall

/-! ### Steps of the machine -/

namespace Machine

variable {ι : Type} [DecidableEq ι] {w : ℕ} {i : ι} {M M' : Machine ι} {c : PathCall}
  {rest : List Frame}

/-- What a step of a call is: it goes to the frames of its reply, as far as the lock lets it. -/
lemma callStep_eq (h : M.stack i = .call c :: rest) :
    M.callStep w i
      = (M.replace Frame.critical i (.call c) (c.run w M.shared).2.frames rest).map fun L =>
          ⟨L, (c.run w M.shared).1, M.answers ++ (c.run w M.shared).2.answers i⟩ := by
  simp only [callStep, h]

omit [DecidableEq ι] in
/-- The innermost frame of the holder is a call. -/
lemma exists_call_of_holder (hM : M.Disciplined Frame.critical) (hheld : M.holder = some i) :
    ∃ c rest, M.stack i = .call c :: rest ∧ c.critical = true := by
  obtain ⟨f, rest, hi, hf⟩ := (hM.holder_iff i).mp hheld
  cases f with
  | python => cases hf
  | call c => exact ⟨c, rest, hi, hf⟩

omit [DecidableEq ι] in
lemma codeDue_iff (h : M.stack i = .call c :: rest) :
    M.CodeDue i ↔ c.CodeDue M.shared.memory := by
  constructor
  · rintro ⟨c', rest', hi, hdue⟩
    rw [h] at hi
    cases hi
    exact hdue
  · exact fun hdue => ⟨c, rest, h, hdue⟩

/-- What a step of a call does unless the code of a death is due: the discipline is kept, the other
threads are where they were, and the call has less to do or has returned. -/
structure Advanced (i : ι) (c : PathCall) (rest : List Frame) (M M' : Machine ι) : Prop where
  disciplined : M'.Disciplined Frame.critical
  others : ∀ k, k ≠ i → M'.stack k = M.stack k ∧ (M'.holder = some k ↔ M.holder = some k)
  goes : (∃ c', M'.stack i = .call c' :: rest ∧ M'.answers = M.answers ∧
      c'.weight + M'.shared.memory.potential < c.weight + M.shared.memory.potential) ∨
    ∃ a, M'.stack i = rest ∧ M'.answers = M.answers ++ [(i, a)] ∧ M'.holder ≠ some i ∧
      M'.shared.memory.potential < c.weight + M.shared.memory.potential

lemma advanced_of_callStep (hM : M.Disciplined Frame.critical) (hi : M.stack i = .call c :: rest)
    (hquiet : ¬M.CodeDue i) (hstep : M.callStep w i = some M') : Advanced i c rest M M' := by
  rw [codeDue_iff hi] at hquiet
  rw [callStep_eq hi, Option.map_eq_some_iff] at hstep
  obtain ⟨L, hL, rfl⟩ := hstep
  have hweight := (c.run_spec w M.shared).less
  have hstack := Locked.stack_of_replace hL
  have hothers : ∀ k, k ≠ i → L.stack k = M.stack k ∧ (L.holder = some k ↔ M.holder = some k) := by
    intro k hk
    rw [hM.holder_replace hi hL k, if_neg hk, hstack, Function.update_of_ne hk]
    exact ⟨rfl, Iff.rfl⟩
  rcases PathCall.run_of_not_codeDue (w := w) hquiet with ⟨c', hrun⟩ | ⟨a, hrun⟩ <;>
    rw [hrun] at hL hstack hweight ⊢
  · refine ⟨hM.replace hi (by simp [Reply.frames]) hL, hothers, .inl ⟨c', ?_, ?_, hweight⟩⟩
    · show L.stack i = _
      rw [hstack, Function.update_self]
      rfl
    · simp [Reply.answers]
  · refine ⟨hM.replace hi (by simp [Reply.frames]) hL, hothers, .inr ⟨a, ?_, ?_, ?_, ?_⟩⟩
    · show L.stack i = _
      rw [hstack, Function.update_self]
      rfl
    · rfl
    · show L.holder ≠ some i
      rw [ne_eq, hM.holder_replace hi hL i, if_pos rfl]
      simp [Reply.frames]
    · simpa [Reply.weight] using hweight

/-- A step of the Python code and of the parser around it keeps the discipline. -/
lemma disciplined_withStack (hM : M.Disciplined Frame.critical) {f : Frame}
    (hi : M.stack i = f :: rest) (hf : f.critical = false) (fs : List Frame)
    (hfs : ∀ g ∈ fs, g.critical = false) :
    (M.withStack i (fs ++ rest)).Disciplined Frame.critical := by
  have hreplace : M.replace Frame.critical i f fs rest
      = some (M.withStack i (fs ++ rest)).toLocked := by
    have hany : fs.any Frame.critical = false := by simpa using hfs
    rw [Locked.replace, hf, hany]
    rfl
  exact hM.replace hi (fun g hg => hfs g (List.mem_of_mem_tail hg)) hreplace

/-- **The discipline of the lock** is kept by every step but one that runs the code of a death. -/
lemma Step.disciplined (hM : M.Disciplined Frame.critical) (hquiet : ¬M.CodeDue i)
    (h : Step w i M M') : M'.Disciplined Frame.critical := by
  cases h with
  | call h =>
      cases hi : M.stack i with
      | nil => simp [callStep, hi] at h
      | cons f rest =>
          cases f with
          | python => simp [callStep, hi] at h
          | call c => exact (advanced_of_callStep hM hi hquiet h).disciplined
  | enter path h =>
      exact disciplined_withStack hM h rfl [.call (.start path), .python]
        (by simp [Frame.critical, PathCall.critical])
  | @iterate path rest hpath h =>
      exact disciplined_withStack hM h rfl [.python, .call (.parsing path)]
        (by simp [Frame.critical, PathCall.critical])
  | ret h => exact disciplined_withStack hM h rfl [] (by simp)
  | python m h keeps => exact ⟨hM.holder_iff, hM.below⟩
  | poison => exact ⟨hM.holder_iff, hM.below⟩

omit [DecidableEq ι] in
lemma initial_disciplined (m : Memory) : (initial m : Machine ι).Disciplined Frame.critical where
  holder_iff i := by simp [initial, Frame.critical]
  below i f rest h g hg := by
    obtain ⟨-, rfl⟩ := List.cons.inj h
    simp at hg

/-! ### A call alone -/

/-- What the innermost call of a thread has left to do. -/
def weight (M : Machine ι) (i : ι) : ℕ :=
  match M.stack i with
  | .call c :: _ => c.weight
  | _ => 0

omit [DecidableEq ι] in
lemma weight_of_call (h : M.stack i = .call c :: rest) : M.weight i = c.weight := by
  rw [weight, h]

section Alone

variable {s s' : SharedMemory} {ans : List (ι × PyResult OwnedPath)}

/-- Thread `i` is at a point of its call, which holds the lock there or leaves it free. -/
def atPoint (M : Machine ι) (i : ι) (rest : List Frame) (c : PathCall) (s : SharedMemory)
    (answers : List (ι × PyResult OwnedPath)) : Machine ι :=
  ⟨⟨Function.update M.stack i (.call c :: rest), if c.critical then some i else none⟩, s, answers⟩

/-- The call of thread `i` has returned. -/
def returned (M : Machine ι) (i : ι) (rest : List Frame) (s : SharedMemory)
    (answers : List (ι × PyResult OwnedPath)) : Machine ι :=
  ⟨⟨Function.update M.stack i rest, none⟩, s, answers⟩

lemma stack_atPoint : (M.atPoint i rest c s ans).stack i = .call c :: rest := by simp [atPoint]

/-- A step to another point. -/
lemma callStep_goto {c' : PathCall} (hrun : c.run w s = (s', .goto c')) :
    (M.atPoint i rest c s ans).callStep w i = some (M.atPoint i rest c' s' ans) := by
  rw [callStep_eq stack_atPoint]
  cases hc : c.critical <;> cases hc' : c'.critical <;>
    simp [atPoint, hrun, Locked.replace, Frame.critical, Reply.frames, Reply.answers, hc, hc']

/-- The last step of a call. -/
lemma callStep_answer {a : PyResult OwnedPath} (hrun : c.run w s = (s', .answer a)) :
    (M.atPoint i rest c s ans).callStep w i = some (M.returned i rest s' (ans ++ [(i, a)])) := by
  rw [callStep_eq stack_atPoint]
  cases hc : c.critical <;>
    simp [atPoint, returned, hrun, Locked.replace, Frame.critical, Reply.frames, Reply.answers, hc]

/-- A step to the code of a death. -/
lemma callStep_interrupt {c' : PathCall} (hc : c.critical = true) (hc' : c'.critical = true)
    (hrun : c.run w s = (s', .interrupt c')) :
    (M.atPoint i rest c s ans).callStep w i
      = some ⟨⟨Function.update M.stack i (.python :: .call c' :: rest), some i⟩, s', ans⟩ := by
  rw [callStep_eq stack_atPoint]
  simp [atPoint, hrun, Locked.replace, Frame.critical, Reply.frames, Reply.answers, hc, hc']

variable {t : PyTuple} {p : OwnedPath}

/-- Dropping the evicted entry comes to its end. -/
lemma dropping_alone (w : ℕ) (work : List Drop) :
    Eventually (callStep w i) (fun N => ¬N.CodeDue i)
      (fun N => ∃ m, N = M.atPoint i rest (.pushing t p) { s with memory := m } ans)
      (M.atPoint i rest (.dropping t p work) s ans) := by
  refine Eventually.of_measure
    (fun N => ∃ work m, N = M.atPoint i rest (.dropping t p work) { s with memory := m } ans)
    (fun N => N.weight i + N.shared.memory.potential) ?_ _ ⟨work, s.memory, rfl⟩
  rintro N ⟨work, m, rfl⟩
  cases work with
  | nil => exact ⟨_, callStep_goto rfl, fun _ => .inl ⟨m, rfl⟩⟩
  | cons d work =>
      by_cases hdue : m.codeDue d = true
      · exact ⟨_, callStep_interrupt rfl rfl (PathCall.run_dropping_of_due hdue work),
          fun hquiet => absurd ⟨_, rest, stack_atPoint, hdue⟩ hquiet⟩
      · refine ⟨_, callStep_goto (PathCall.run_dropping hdue work),
          fun _ => .inr ⟨⟨_, _, rfl⟩, ?_⟩⟩
        rw [weight_of_call stack_atPoint, weight_of_call stack_atPoint]
        exact PathCall.weight_dropping (s := ⟨s.entries, s.poisoned, m⟩) t p d work

/-- Made alone from a point, with the lock free outside its sections and as long as no code
of a death is due, the call returns `a` and leaves the entries. -/
def Returns (w : ℕ) (M : Machine ι) (i : ι) (rest : List Frame)
    (ans : List (ι × PyResult OwnedPath)) (s : SharedMemory) (c : PathCall)
    (entries : List CachedPath) (a : PyResult OwnedPath) : Prop :=
  Eventually (callStep w i) (fun N => ¬N.CodeDue i)
    (fun N => ∃ m, N = M.returned i rest ⟨entries, s.poisoned, m⟩ (ans ++ [(i, a)]))
    (M.atPoint i rest c s ans)

lemma Returns.of_goto {c' : PathCall} {entries : List CachedPath} {a : PyResult OwnedPath}
    (hrun : c.run w s = (s', .goto c')) (hp : s'.poisoned = s.poisoned)
    (h : Returns w M i rest ans s' c' entries a) : Returns w M i rest ans s c entries a := by
  rw [Returns, ← hp]
  exact .later (callStep_goto hrun) fun _ => h

lemma Returns.of_answer {a : PyResult OwnedPath} (hrun : c.run w s = (s, .answer a)) :
    Returns w M i rest ans s c s.entries a :=
  .later (callStep_answer hrun) fun _ => .now ⟨s.memory, rfl⟩

lemma pushing_returns : Returns w M i rest ans s (.pushing t p) (s.entries ++ [(t, p)]) (.ok p) :=
  .later (callStep_answer rfl) fun _ => .now ⟨_, rfl⟩

/-- After the eviction the entry is pushed. -/
lemma dropping_returns (work : List Drop) :
    Returns w M i rest ans s (.dropping t p work) (s.entries ++ [(t, p)]) (.ok p) := by
  refine Eventually.trans (dropping_alone (M := M) (i := i) (s := s) w work) ?_
  rintro N ⟨m, rfl⟩
  exact .later (callStep_answer rfl) fun _ => .now ⟨_, rfl⟩

/-- The second critical section is `insertPath`. -/
lemma inserting_returns {C : PathCache} (hentries : C.entries = s.entries)
    (hpoisoned : C.poisoned = s.poisoned) :
    Returns w M i rest ans s (.inserting t p) (insertPath w t p C).entries
      (.ok (insertedPath w t p C)) := by
  rw [insertPath, insertedPath, lookupCachedPath, hentries, hpoisoned]
  by_cases hp : s.poisoned = true
  · rw [if_pos hp, if_pos hp, hentries]
    exact .of_answer (by rw [PathCall.run, if_pos hp]; rfl)
  · rw [if_neg hp, if_neg hp]
    cases hlookup : lookupCachedPathInCache w t s.entries with
    | some cachedPath =>
        rw [hentries]
        exact .of_answer (by rw [PathCall.run, if_neg hp, hlookup]; rfl)
    | none =>
        show Returns w M i rest ans s (.inserting t p)
          (BoundedQueue.push pathCacheMaxEntries C.entries (t, p)) (.ok p)
        rw [hentries, BoundedQueue.push]
        by_cases hfull : s.entries.length ≥ pathCacheMaxEntries
        · rw [if_pos hfull]
          have hrun : (PathCall.inserting t p).run w s = ({ s with entries := s.entries.tail },
              .goto (.dropping t p (s.entries.head?.map fun e => .decref e.1.addr).toList)) := by
            rw [PathCall.run, if_neg hp, hlookup, if_pos hfull]
          exact .of_goto hrun rfl (dropping_returns _)
        · rw [if_neg hfull]
          refine .of_goto ?_ rfl pushing_returns
          rw [PathCall.run, if_neg hp, hlookup, if_neg hfull]

/-- The first critical section is `lookupCachedPath`. -/
lemma run_looking {C : PathCache} (hentries : C.entries = s.entries)
    (hpoisoned : C.poisoned = s.poisoned) (override : Option Iteration) :
    (PathCall.looking t override).run w s = (s, match lookupCachedPath w t C with
      | some cachedPath => .answer (.ok cachedPath)
      | none => .goto (.parsing (.tuple t override))) := by
  rw [PathCall.run, lookupCachedPath, hentries, hpoisoned]
  by_cases hp : s.poisoned = true
  · rw [if_pos hp, if_pos hp]
  · rw [if_neg hp, if_neg hp]
    cases lookupCachedPathInCache w t s.entries <;> rfl

/-- Of what is not a tuple, a call parses the path and returns. -/
lemma start_returns {path : PathArg} (hpath : ∀ t override, path ≠ .tuple t override) :
    Returns w M i rest ans s (.start path) s.entries (parsePath w path) := by
  have hstart : (PathCall.start path).run w s = (s, .goto (.parsing path)) := by
    cases path with
    | tuple t override => exact absurd rfl (hpath t override)
    | _ => rfl
  refine .of_goto hstart rfl (.of_answer ?_)
  rw [PathCall.run]
  cases parsePath w path with
  | error e => rfl
  | ok ownedPath =>
      cases path with
      | tuple t override => exact absurd rfl (hpath t override)
      | _ => rfl

/-- **The call on the machine is the call in atomic steps**: made alone, with the lock free, and
as long as no code of a death is due, it comes to the answer and to the cache of
`getOrParsePath`. -/
theorem getOrParsePath_returns (w : ℕ) (path : PathArg) {C : PathCache}
    (hentries : C.entries = s.entries) (hpoisoned : C.poisoned = s.poisoned) :
    Returns w M i rest ans s (.start path) ((getOrParsePath w path).final C).entries
      ((getOrParsePath w path).value C) := by
  by_cases hpath : ∃ t override, path = .tuple t override
  · obtain ⟨t, override, rfl⟩ := hpath
    refine .of_goto rfl rfl ?_
    have hlooking := run_looking (w := w) (t := t) hentries hpoisoned override
    rw [getOrParsePath, Prog.final_atom, Prog.value_atom]
    cases hit : lookupCachedPath w t C with
    | some cachedPath =>
        rw [hit] at hlooking
        show Returns w M i rest ans s _ C.entries _
        rw [hentries]
        exact .of_answer hlooking
    | none =>
        rw [hit] at hlooking
        refine .of_goto hlooking rfl ?_
        have hparsing : (PathCall.parsing (.tuple t override)).run w s
            = (s, match parsePath w (.tuple t override) with
              | .error e => .answer (.error e)
              | .ok ownedPath => .goto (.parsed t ownedPath)) := by
          rw [PathCall.run]
          cases parsePath w (.tuple t override) <;> rfl
        dsimp only
        rw [Prog.final_atom, Prog.value_atom]
        cases hparse : parsePath w (.tuple t override) with
        | error e =>
            rw [hparse] at hparsing
            show Returns w M i rest ans s _ C.entries _
            rw [hentries]
            exact .of_answer hparsing
        | ok ownedPath =>
            rw [hparse] at hparsing
            exact .of_goto hparsing rfl (.of_goto rfl rfl (inserting_returns hentries hpoisoned))
  · push Not at hpath
    have hprog : getOrParsePath w path = .atom (fun _ => .parsePath (parsePath w path)) id
        fun _ => .ret (parsePath w path) := by
      cases path with
      | tuple t override => exact absurd rfl (hpath t override)
      | _ => rfl
    rw [hprog]
    show Returns w M i rest ans s _ C.entries (parsePath w path)
    rw [hentries]
    exact start_returns hpath

end Alone

end Machine

end MaxminddbRust
