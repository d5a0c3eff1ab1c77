import MaxminddbRust.Concurrent.Borrow
import MaxminddbRust.Iteration
import MaxminddbRust.KeyCaches
import MaxminddbRust.Linearizability

/-!
An iterator that threads share.

`__next__` takes the iterator as `&mut self`: a call borrows it for as long as it runs, also while
the constructor of `ipaddress.IPv4Network` runs Python code, and a call that comes in between is
refused with a `RuntimeError`, whether it comes from another thread or from that code.

* `nextBody`: `__next__` step by step; `nextBody_exec`: alone it is `ReaderIterator.next`.
* `nextBody_computed`: what it makes of the iterator, whatever others decode in between.
* `iterator_linearizable`: the calls that are not refused give the entries of the enumeration one
  after the other, each of them once.
-/

namespace MaxminddbRust

open Concurrent
open Concurrent.Prog

/-! ### The method -/

/-- What a step of `__next__` is seen to do. -/
inductive NextLabel where
  | entry
  | advance
  | decode (thread : ℕ)
  | network

section Method

variable (ipnetwork : IpNetworkCrate)

/-- `__next__` on a thread, once it has the iterator. -/
def nextBody (thread : ℕ) : Prog NextLabel (ReaderIterator × (ℕ → KeyCache))
    (PyResult (Option (PyIpNetwork × PyObj))) :=
  .atom (fun _ => .entry) id fun s => match s.1.iter with
    | [] => .ret (.ok none)
    | result :: iter => .atom (fun _ => .advance) (fun s => (⟨iter⟩, s.2)) fun _ =>
        .atom (fun _ => .decode thread)
          (fun s => (s.1, Function.update s.2 thread
            (ReaderIterator.nextWithin ipnetwork result (s.2 thread)).2))
          fun s => match (ReaderIterator.nextWithin ipnetwork result (s.2 thread)).1 with
            | .error err =>
                .ret (.error (.invalidDatabaseError [.str "Iteration error: ", .err err]))
            | .ok (ipNet, data) => .atom (fun _ => .network) id fun _ =>
                .ret ((ReaderIterator.networkToPython ipNet).map fun networkObj =>
                  some (networkObj, data))

/-- Callers of `__next__` of one iterator, while other readers decode. -/
def iteratorSystem : System ℕ (BorrowLabel NextLabel) (Cell ReaderIterator (ℕ → KeyCache))
    (Option (PyResult (Option (PyIpNetwork × PyObj)))) :=
  cellSystem (nextBody ipnetwork) DecodeStep

/-- An iterator that answers at once: the outcome of the next entry, or none at the end. -/
def iteratorObject (it : ReaderIterator) :
    AtomicObject ℕ ReaderIterator (PyResult (Option (PyIpNetwork × PyObj))) where
  init := it
  step _ it := (ReaderIterator.nextOutcome ipnetwork it.iter, ⟨it.iter.tail⟩)

end Method

section Results

variable {ipnetwork : IpNetworkCrate}

/-- **Alone, the method is `ReaderIterator.next`**: it returns the same, and leaves the same
iterator and the same caches. -/
lemma nextBody_exec (thread : ℕ) (it : ReaderIterator) (caches : ℕ → KeyCache) :
    (nextBody ipnetwork thread).value (it, caches) = (it.next ipnetwork (caches thread)).1.1 ∧
      (nextBody ipnetwork thread).final (it, caches) = ((it.next ipnetwork (caches thread)).1.2,
        Function.update caches thread (it.next ipnetwork (caches thread)).2) := by
  obtain ⟨iter⟩ := it
  cases iter with
  | nil =>
      refine ⟨rfl, ?_⟩
      simp only [nextBody, ReaderIterator.next, final_atom, id, Function.update_eq_self]
      rfl
  | cons result iter =>
      simp only [nextBody, ReaderIterator.next, value_atom, final_atom, id]
      cases hn : ReaderIterator.nextWithin ipnetwork result (caches thread) with
      | mk r cache' =>
          rcases r with e | ⟨ipNet, data⟩
          · exact ⟨rfl, rfl⟩
          · simp only [value_atom, final_atom]
            cases ReaderIterator.networkToPython ipNet <;> exact ⟨rfl, rfl⟩

/-- Caches of which one has been used. -/
lemma sound_update {caches : ℕ → KeyCache} (h : ∀ thread, (caches thread).Sound) {thread : ℕ}
    {cache : KeyCache} (hcache : cache.Sound) :
    ∀ other, (Function.update caches thread cache other).Sound := by
  intro other
  by_cases hother : other = thread
  · subst hother
    rw [Function.update_self]
    exact hcache
  · rw [Function.update_of_ne hother]
    exact h other

/-- **What the method makes of the iterator** does not depend on what others decode while it
runs. -/
lemma nextBody_computed (it : ReaderIterator) :
    Computed (nextBody ipnetwork) DecodeStep (iteratorObject ipnetwork it)
      fun caches => ∀ thread, (caches thread).Sound where
  body thread it := by
    obtain ⟨iter⟩ := it
    intro caches hsound
    refine ⟨hsound, ?_⟩
    cases iter with
    | nil => exact ⟨rfl, rfl⟩
    | cons result iter =>
        refine fun caches hsound => ⟨hsound, fun caches hsound => ?_⟩
        obtain ⟨hvalue, hsound'⟩ :=
          ReaderIterator.nextWithin_returns ipnetwork result (caches thread) (hsound thread)
        refine ⟨sound_update hsound hsound', ?_⟩
        simp only [iteratorObject, ReaderIterator.nextOutcome, ReaderIterator.itemOutcome, hvalue]
        cases ReaderIterator.entryOutcome ipnetwork result with
        | error err => exact ⟨rfl, rfl⟩
        | ok item =>
            obtain ⟨ipNet, data⟩ := item
            refine fun caches hsound => ⟨hsound, ?_, rfl⟩
            simp only
            cases ReaderIterator.networkToPython ipNet <;> rfl
  others caches caches' hstep hsound := by
    rcases hstep with rfl | ⟨thread, v, rfl⟩
    · exact hsound
    · exact sound_update hsound ((hsound thread).deserialize v)

/-! ### Runs -/

/-- The operations that an account of an iterator lists are its entries one after the other. -/
lemma iterator_ops {ι : Type} [DecidableEq ι] {it it' : ReaderIterator}
    {H : List (CallEvent ι ℕ (PyResult (Option (PyIpNetwork × PyObj))))}
    {ops : List (ι × ℕ × PyResult (Option (PyIpNetwork × PyObj)))}
    {st : ι → Option (ℕ × Option (PyResult (Option (PyIpNetwork × PyObj))))}
    (h : Linearized (iteratorObject ipnetwork it) H ops it' st) :
    it'.iter = it.iter.drop ops.length ∧
      ops.map (fun op => op.2.2) = (List.range ops.length).map fun k =>
        ReaderIterator.nextOutcome ipnetwork (it.iter.drop k) := by
  induction h with
  | nil => exact ⟨rfl, rfl⟩
  | call _ _ ih => exact ih
  | ret _ _ ih => exact ih
  | point _ _ answer ih =>
      obtain ⟨hiter, hops⟩ := ih
      obtain ⟨rfl, rfl⟩ := Prod.mk.inj answer
      rw [List.length_append, List.length_singleton, List.range_succ, List.map_append,
        List.map_append, hops, hiter]
      exact ⟨List.tail_drop, rfl⟩

/-- **An iterator that threads share gives every entry once.** In every run of any number of calls
of `__next__` of one iterator, which interleave step by step, also within Python code that a call
runs, while other readers decode: the calls that are not refused are those of an iterator that
answers at once, so that they give the entries of the enumeration one after the other, none of
them twice and none left out, however they interleave; one call at most has the iterator; and a
call is refused only while another one has it, and changes nothing. -/
theorem iterator_linearizable {ι : Type} [DecidableEq ι] (it : ReaderIterator)
    {caches : ℕ → KeyCache} (sound : ∀ thread, (caches thread).Sound)
    {es : List (Event ι ℕ (BorrowLabel NextLabel)
      (Option (PyResult (Option (PyIpNetwork × PyObj)))))}
    {P : Pool ι ℕ (BorrowLabel NextLabel) (Cell ReaderIterator (ℕ → KeyCache))
      (Option (PyResult (Option (PyIpNetwork × PyObj))))}
    (run : (iteratorSystem ipnetwork).Run ⟨it, false, caches⟩ es P) :
    (∃ ops it' st, Linearized (iteratorObject ipnetwork it) (granted es) ops it' st ∧
      it'.iter = it.iter.drop ops.length ∧
      ops.map (fun op => op.2.2) = (List.range ops.length).map (fun k =>
        ReaderIterator.nextOutcome ipnetwork (it.iter.drop k)) ∧
      (P.shared.borrowed = false → P.shared.value = it')) ∧
    (∀ i j t t', P.tasks i = some t → P.tasks j = some t' → t.Borrowing → t'.Borrowing → i = j) ∧
    ∀ i thread P', (iteratorSystem ipnetwork).Step P (.step i thread (.borrow false)) P' →
      P'.shared = P.shared ∧ ∃ j t, j ≠ i ∧ P.tasks j = some t ∧ t.Borrowing := by
  have hC : Computed (nextBody ipnetwork) DecodeStep (iteratorObject ipnetwork it)
      fun caches => ∀ thread, (caches thread).Sound := nextBody_computed it
  refine ⟨?_, (cell_exclusive hC sound rfl rfl run).1,
    fun i thread P' hs => cell_refused hC sound rfl rfl run hs⟩
  obtain ⟨ops, it', st, hlin, hvalue⟩ := cell_linearizable hC sound rfl rfl run
  obtain ⟨hiter, hops⟩ := iterator_ops hlin
  exact ⟨ops, it', st, hlin, hiter, hops, hvalue⟩

/-- A call during which another one is refused. -/
theorem iterator_linearizable_refused :
    let it : ReaderIterator :=
      ⟨[.ok ⟨.ok (.V4 0x80000000 1), some (.scalar (.bool true)), fun _ => .ok none⟩]⟩
    ∃ es, ∃ P : Pool Bool ℕ (BorrowLabel NextLabel) (Cell ReaderIterator (ℕ → KeyCache))
        (Option (PyResult (Option (PyIpNetwork × PyObj)))),
      (iteratorSystem plainNetworks).Run ⟨it, false, fun _ => []⟩ es P ∧
        .step true 1 (.borrow false) ∈ es ∧
        (∃ tr item, .ret false 0 tr (some (.ok (some item))) ∈ es) ∧
        ∃ ops it' st, Linearized (iteratorObject plainNetworks it) (granted es) ops it' st := by
  intro it
  have start : (iteratorSystem plainNetworks).Run ⟨it, false, fun _ => []⟩ [] _ :=
    .nil (ι := Bool)
  have begun := (start.snoc (.call (i := false) (c := 0) rfl trivial)).snoc
    (.step (i := false) rfl)
  have refused := begun.exec (i := true) (c := 1) rfl trivial
  have returned := ((((((refused.snoc (.step (i := false) rfl)).snoc (.step (i := false) rfl)).snoc
    (.step (i := false) rfl)).snoc (.step (i := false) rfl)).snoc (.step (i := false) rfl)).snoc
    (.ret (i := false) rfl))
  obtain ⟨⟨ops, it', st, hlin, -⟩, -⟩ :=
    iterator_linearizable it (fun _ => Memo.sound_nil) returned
  refine ⟨_, _, returned, ?_, ⟨_, _, List.mem_append_right _ (List.mem_singleton_self _)⟩, ops, it',
    st, hlin⟩
  iterate 6 apply List.mem_append_left
  exact List.mem_append_left _ (List.mem_append_right _ (List.mem_cons_self (a := _) (l := [])))

end Results

end MaxminddbRust
