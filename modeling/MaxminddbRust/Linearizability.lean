import MaxminddbRust.Closing
import MaxminddbRust.Concurrent.Linearizable

/-!
A reader is linearizable.

* `SequentialReader`, `readerObject`: what a reader is for. It is open or closed, it has its
  iterators, and it answers every call at once; it has no caches and knows no threads.
* `Call.Effect`: the label at which a call takes effect, which is its load of the slot, the
  emptying of the slot or the step of an iterator, and what the sequential reader then answers.
  `Post.effect`: every call has at most one.
* `reader_linearizable`: whatever the callers do, in any interleaving of their atomic steps, their
  calls and returns are those of the sequential reader, each answered at one point between its
  call and its return.
-/

namespace MaxminddbRust

open Concurrent

/-! ### The sequential reader -/

/-- A reader as its callers think of it. -/
structure SequentialReader where
  isOpen : Bool
  iterators : ℕ → ReaderIterator

/-- A result that is there while the reader is open. -/
def whileOpen {α : Type} (isOpen : Bool) (err : PyErr) (result : PyResult α) : PyResult α :=
  if isOpen then result else .error err

/-- The iterator that a call of `__iter__` hands out. -/
def newIterator (cfg : Config) (src : ReaderSource) : ReaderIterator :=
  match ReaderIterator.new cfg.ipnetwork src with
  | .error _ => ⟨[]⟩
  | .ok it => it

namespace SequentialReader

/-- What the reader answers, up to which iterator it hands out. -/
def answer (cfg : Config) (src : ReaderSource) (r : SequentialReader) :
    Call cfg.toPlatform → PyResult Value
  | .closed => .ok (.bool !r.isOpen)
  | .get _ ipAddress => (parseLookupIp cfg ipAddress >>= fun ip =>
      whileOpen r.isOpen errClosed (lookupValue src ip)).map .object
  | .getPath _ ipAddress path => (parseLookupIp cfg ipAddress >>= fun ip =>
      parsePath cfg.wordBits path >>= fun ownedPath =>
        whileOpen r.isOpen errClosed (lookupPathValue src ownedPath ip)).map .object
  | .getWithPrefixLen _ ipAddress => (parseLookupIp cfg ipAddress >>= fun ip =>
      whileOpen r.isOpen errClosed (lookupPrefixValue src ip)).map fun a =>
        .objectWithPrefix a.1 a.2
  | .getMany _ ips =>
      (whileOpen r.isOpen errClosed (batchResult cfg (lookupValue src) ips)).map .objects
  | .getManyPath _ ips path => (whileOpen r.isOpen errClosed <|
      if ips.isBytesLikeOrString then .error errIps
      else parsePath cfg.wordBits path >>= fun ownedPath =>
        batchResult cfg (lookupPathValue src ownedPath) ips).map .objects
  | .metadata =>
      (whileOpen r.isOpen errMetadataClosed (.ok (.fromMaxmind src.metadata))).map .metadata
  | .close | .exit => .ok .none
  | .enter => whileOpen r.isOpen errReopen (.ok .self)
  | .iter => whileOpen r.isOpen errClosed <|
      (ReaderIterator.new cfg.ipnetwork src).map fun _ => .iterator 0
  | .next _ k => (ReaderIterator.nextOutcome cfg.ipnetwork (r.iterators k).iter).map .item

/-- What a call makes of the reader. -/
def after {platform : Platform} (r : SequentialReader) : Call platform → SequentialReader
  | .close | .exit => { r with isOpen := false }
  | .next _ k => { r with
      iterators := Function.update r.iterators k ⟨(r.iterators k).iter.tail⟩ }
  | _ => r

end SequentialReader

/-- **The sequential reader** on a source. -/
def readerObject (cfg : Config) (src : ReaderSource) :
    AtomicObject (Call cfg.toPlatform) SequentialReader (PyResult Value) where
  init := ⟨true, fun _ => newIterator cfg src⟩
  step c r := (r.answer cfg src c, r.after c)

/-- The sequential reader that a reader stands for. -/
def ReaderState.sequential (cfg : Config) (src : ReaderSource) (s : ReaderState) :
    SequentialReader :=
  ⟨s.reader.isSome, fun k => s.iterators.getD k (newIterator cfg src)⟩

/-! ### Where a call takes effect -/

/-- The labels at which a call takes effect. -/
def Label.commits : Label → Bool
  | load _ | store | next _ _ => true
  | _ => false

/-- What a call does to the sequential reader, by the labels at which it takes effect. -/
inductive Call.Effect (cfg : Config) (src : ReaderSource) (c : Call cfg.toPlatform)
    (a : PyResult Value) : List Label → Prop
  | none (h : ∀ r, (readerObject cfg src).step c r = (a, r)) : Effect cfg src c a []
  | load {b : Bool} (h : ∀ r : SequentialReader, r.isOpen = b →
      (readerObject cfg src).step c r = (a, r)) : Effect cfg src c a [.load b]
  | store (h : ∀ r, (readerObject cfg src).step c r = (a, { r with isOpen := false })) :
      Effect cfg src c a [.store]
  | next {k : ℕ} (h : ∀ r : SequentialReader, (readerObject cfg src).step c r
        = ((ReaderIterator.nextOutcome cfg.ipnetwork (r.iterators k).iter).map .item,
          { r with iterators := Function.update r.iterators k ⟨(r.iterators k).iter.tail⟩ }))
      {result : PyResult (Option (PyIpNetwork × PyObj))} (ha : a = result.map .item) :
      Effect cfg src c a [.next k result]

/-- A specification of steps at which nothing takes effect, which fixes the result. -/
def Quiet {α : Type} (value : PyResult α) (Q : List Label → PyResult α → Prop) : Prop :=
  ∀ tr a, Q tr a → tr.filter Label.commits = [] ∧ a = value

/-- A specification by which a method takes effect at its load, if at all, with a result that
depends on whether it found the reader open. -/
def Loads {α : Type} (value : Bool → PyResult α) (Q : List Label → PyResult α → Prop) : Prop :=
  ∀ tr a, Q tr a → tr.filter Label.commits = [] ∧ (∀ b, a = value b) ∨
    ∃ b, tr.filter Label.commits = [.load b] ∧ a = value b

section Rules

variable {α : Type} {cfg : Config}

lemma Working.filter_commits {tr : List Label} (h : Working tr) :
    tr.filter Label.commits = [] := by
  rw [List.filter_eq_nil_iff]
  intro l hl
  rcases h l hl with rfl | ⟨_, rfl⟩ <;> simp [Label.commits]

lemma filter_commits_path (ls : List CacheLabel) :
    (ls.map Label.path).filter Label.commits = [] := by
  rw [List.filter_eq_nil_iff]
  intro l hl
  obtain ⟨l', -, rfl⟩ := List.mem_map.mp hl
  simp [Label.commits]

lemma LookedUp.quiet (ip : IpAddr) (value : PyResult α) : Quiet value (LookedUp ip value) :=
  fun _ _ h => ⟨h.working.filter_commits, h.2⟩

lemma BatchPost.quiet (value : IpAddr → PyResult PyObj) (ips : BatchArg cfg.toPlatform) :
    Quiet (batchResult cfg value ips) (BatchPost cfg value ips) :=
  fun _ _ h => ⟨h.working.filter_commits, h.2⟩

/-- Loading the slot. -/
lemma Opened.takesEffect {err : PyErr} {value : PyResult α} {Q : List Label → PyResult α → Prop}
    (hQ : Quiet value Q) : Loads (fun b => whileOpen b err value) (Opened err Q) := by
  intro tr a h
  rcases h with ⟨rfl, rfl⟩ | ⟨tr', rfl, h⟩
  · exact Or.inr ⟨false, rfl, rfl⟩
  · obtain ⟨htr, rfl⟩ := hQ tr' a h
    exact Or.inr ⟨true, by rw [List.filter_cons_of_pos rfl, htr], rfl⟩

/-- Parsing the address before. -/
lemma Parsed.takesEffect {x : PyObj} {value : IpAddr → Bool → PyResult α}
    {Q : IpAddr → List Label → PyResult α → Prop} (hQ : ∀ ip, Loads (value ip) (Q ip)) :
    Loads (fun b => parseLookupIp cfg x >>= fun ip => value ip b) (Parsed cfg x Q) := by
  intro tr a h
  rw [Parsed] at h
  cases hip : parseLookupIp cfg x with
  | error e =>
      rw [hip] at h
      obtain ⟨rfl, rfl⟩ := h
      exact Or.inl ⟨rfl, fun b => rfl⟩
  | ok ip =>
      rw [hip] at h
      exact hQ ip tr a h

variable {path : PathArg} {Q : OwnedPath → List Label → PyResult α → Prop}

/-- What a method that resolves a plain path does: nothing takes effect at the steps of
`get_or_parse_path`, and they give the parse of the path. -/
lemma Resolved.cases_of_plain {tr : List Label} {a : PyResult α} (plain : path.Plain)
    (h : Resolved cfg path Q tr a) :
    (∃ e, parsePath cfg.wordBits path = .error e ∧ tr.filter Label.commits = [] ∧
        a = .error e) ∨
      ∃ ownedPath tr', parsePath cfg.wordBits path = .ok ownedPath ∧ Q ownedPath tr' a ∧
        tr.filter Label.commits = tr'.filter Label.commits := by
  obtain ⟨tr₁, r, ⟨ls, rfl, -, hplain, -⟩, h⟩ := h
  obtain rfl := hplain plain
  cases hparse : parsePath cfg.wordBits path with
  | error e =>
      rw [hparse] at h
      obtain ⟨rfl, ha⟩ := h
      exact Or.inl ⟨e, rfl, filter_commits_path ls, ha⟩
  | ok ownedPath =>
      rw [hparse] at h
      obtain ⟨tr', rfl, hQ⟩ := h
      refine Or.inr ⟨ownedPath, tr', rfl, hQ, ?_⟩
      rw [List.filter_append, filter_commits_path, List.nil_append]

/-- Resolving the path before the load. -/
lemma Resolved.takesEffect {value : OwnedPath → Bool → PyResult α} (plain : path.Plain)
    (hQ : ∀ ownedPath, Loads (value ownedPath) (Q ownedPath)) :
    Loads (fun b => parsePath cfg.wordBits path >>= fun ownedPath => value ownedPath b)
      (Resolved cfg path Q) := by
  intro tr a h
  rcases h.cases_of_plain plain with ⟨e, hparse, htr, rfl⟩ | ⟨ownedPath, tr', hparse, h, htr⟩
  · exact Or.inl ⟨htr, fun b => by rw [hparse]; rfl⟩
  · rw [htr, hparse]
    exact hQ ownedPath tr' a h

/-- Resolving the path after the load. -/
lemma Resolved.quiet {value : OwnedPath → PyResult α} (plain : path.Plain)
    (hQ : ∀ ownedPath, Quiet (value ownedPath) (Q ownedPath)) :
    Quiet (parsePath cfg.wordBits path >>= value) (Resolved cfg path Q) := by
  intro tr a h
  rcases h.cases_of_plain plain with ⟨e, hparse, htr, rfl⟩ | ⟨ownedPath, tr', hparse, h, htr⟩
  · rw [hparse]
    exact ⟨htr, rfl⟩
  · rw [htr, hparse]
    exact hQ ownedPath tr' a h

end Rules

namespace Call

variable {cfg : Config} {src : ReaderSource}

/-- Forgetting which iterator was handed out, in a value that is none. -/
lemma map_forgetIterator {α : Type} {f : α → Value} (hf : ∀ x, (f x).forgetIterator = f x)
    (r : PyResult α) : (r.map f).map Value.forgetIterator = r.map f := by
  cases r with
  | error e => rfl
  | ok x => exact congrArg _ (hf x)

/-- A call whose method takes effect at its load, if at all. -/
lemma Effect.of_loads {α : Type} {c : Call cfg.toPlatform} {f : α → Value}
    {value : Bool → PyResult α} {Q : List Label → PyResult α → Prop} (hQ : Loads value Q)
    (hf : ∀ x, (f x).forgetIterator = f x)
    (hstep : ∀ r : SequentialReader,
      (readerObject cfg src).step c r = ((value r.isOpen).map f, r))
    {tr : List Label} {a : PyResult Value} (h : Returning f Q tr a) :
    Effect cfg src c (a.map Value.forgetIterator) (tr.filter Label.commits) := by
  obtain ⟨x, hx, rfl⟩ := h
  rw [map_forgetIterator hf]
  rcases hQ tr x hx with ⟨htr, hvalue⟩ | ⟨b, htr, rfl⟩
  · rw [htr]
    exact .none fun r => by rw [hstep, ← hvalue]
  · rw [htr]
    exact .load fun r hr => by rw [hstep, hr]

/-- What `closed` does. -/
lemma ClosedPost.takesEffect : Loads (fun b => .ok !b) ClosedPost := by
  intro tr a h
  rcases h with ⟨rfl, rfl⟩ | ⟨rfl, rfl⟩
  · exact Or.inr ⟨true, rfl, rfl⟩
  · exact Or.inr ⟨false, rfl, rfl⟩

/-- What `__iter__` does, up to which iterator it hands out. -/
lemma IterPost.effect {tr : List Label} {a : PyResult Value}
    (h : Returning .iterator (IterPost cfg src) tr a) :
    Effect cfg src .iter (a.map Value.forgetIterator) (tr.filter Label.commits) := by
  obtain ⟨x, ⟨rfl, rfl⟩ | ⟨tr', rfl, made, rfl, h⟩, rfl⟩ := h
  · exact .load fun r hr => by simp only [readerObject, SequentialReader.answer, hr]; rfl
  · refine .load (b := true) fun r hr => ?_
    simp only [readerObject, SequentialReader.answer, hr]
    cases hnew : ReaderIterator.new cfg.ipnetwork src with
    | error e =>
        rw [hnew] at h
        rw [h.2]
        rfl
    | ok it =>
        rw [hnew] at h
        obtain ⟨k, -, rfl⟩ := h
        rfl

/-- **Every call takes effect at one label at most**, and the sequential reader answers there
what the call returns. -/
lemma Post.effect {c : Call cfg.toPlatform} (plain : ∀ path, c.path? = some path → path.Plain)
    {tr : List Label} {a : PyResult Value} (h : Post cfg src c tr a) :
    Effect cfg src c (a.map Value.forgetIterator) (tr.filter Label.commits) := by
  cases c with
  | closed => exact .of_loads ClosedPost.takesEffect (fun _ => rfl) (fun _ => rfl) h
  | get thread x =>
      exact .of_loads (Parsed.takesEffect fun ip => Opened.takesEffect (LookedUp.quiet ip _))
        (fun _ => rfl) (fun _ => rfl) h
  | getPath thread x path =>
      exact .of_loads (Parsed.takesEffect fun ip => Resolved.takesEffect (plain path rfl)
          fun ownedPath => Opened.takesEffect (LookedUp.quiet ip _))
        (fun _ => rfl) (fun _ => rfl) h
  | getWithPrefixLen thread x =>
      exact .of_loads (Parsed.takesEffect fun ip => Opened.takesEffect (LookedUp.quiet ip _))
        (fun _ => rfl) (fun _ => rfl) h
  | getMany thread ips =>
      exact .of_loads (Opened.takesEffect (BatchPost.quiet _ ips)) (fun _ => rfl) (fun _ => rfl) h
  | getManyPath thread ips path =>
      refine .of_loads (Opened.takesEffect fun tr a hQ => ?_) (fun _ => rfl) (fun _ => rfl) h
      by_cases hbytes : ips.isBytesLikeOrString
      · rw [if_pos hbytes] at hQ ⊢
        rw [hQ.1]
        exact ⟨rfl, hQ.2⟩
      · rw [if_neg hbytes] at hQ ⊢
        exact Resolved.quiet (plain path rfl) (fun ownedPath => BatchPost.quiet _ ips) tr a hQ
  | metadata =>
      refine .of_loads (Opened.takesEffect fun tr a hQ => ?_) (fun _ => rfl) (fun _ => rfl) h
      rw [hQ.1]
      exact ⟨rfl, hQ.2⟩
  | enter =>
      have henter : Loads (fun b => whileOpen b errReopen (.ok ())) EnterPost := by
        refine Opened.takesEffect fun tr a hQ => ?_
        rw [hQ.1]
        exact ⟨rfl, hQ.2⟩
      refine .of_loads henter (fun _ => rfl) (fun r => ?_) h
      simp only [readerObject, SequentialReader.answer]
      cases r.isOpen <;> rfl
  | close | exit =>
      obtain ⟨x, ⟨rfl, rfl⟩, rfl⟩ := h
      exact .store fun r => rfl
  | iter => exact IterPost.effect h
  | next thread k =>
      obtain ⟨x, rfl, rfl⟩ := h
      rw [map_forgetIterator fun _ => rfl]
      exact .next (fun r => rfl) rfl

end Call

/-! ### Runs -/

/-- What a step that takes no effect leaves of the sequential reader: all of it. -/
lemma ReaderStep.sequential {cfg : Config} {src : ReaderSource} {s s' : ReaderState} {l : Label}
    (h : ReaderStep cfg src s l s') (hl : l.commits = false) :
    s'.sequential cfg src = s.sequential cfg src := by
  have hslot : s'.reader = s.reader := by
    rcases h.slot with ⟨hslot, -⟩ | ⟨-, rfl⟩
    · exact hslot
    · cases hl
  have hiter : ∀ k, s'.iterators.getD k (newIterator cfg src)
      = s.iterators.getD k (newIterator cfg src) := by
    intro k
    rcases h.iterators_cases with ⟨hsame, -⟩ | ⟨-, it, hnew, happ⟩ | ⟨_, -, rfl, -⟩
    · rw [hsame]
    · -- An iterator is handed out in the state in which it is as if it had always been there.
      have hit : newIterator cfg src = it := by rw [newIterator, hnew]
      rw [happ, hit]
      simp only [List.getD_eq_getElem?_getD, List.getElem?_append]
      by_cases hk : k < s.iterators.length
      · rw [if_pos hk]
      · rw [if_neg hk, List.getElem?_eq_none (Nat.le_of_not_lt hk)]
        cases k - s.iterators.length <;> simp
    · cases hl
  simp only [ReaderState.sequential, hslot, hiter]

/-- What a step of an iterator does to the sequential reader. -/
lemma ReaderState.sequential_next {cfg : Config} {src : ReaderSource} {s s' : ReaderState} {k : ℕ}
    {r : PyResult (Option (PyIpNetwork × PyObj))} (h : ReaderStep cfg src s (.next k r) s') :
    r = ReaderIterator.nextOutcome cfg.ipnetwork ((s.sequential cfg src).iterators k).iter ∧
      s'.sequential cfg src = { s.sequential cfg src with
        iterators := Function.update (s.sequential cfg src).iterators k
          ⟨((s.sequential cfg src).iterators k).iter.tail⟩ } := by
  obtain ⟨hk, hr, _, rfl⟩ := h
  have hit : (s.sequential cfg src).iterators k = s.iterator k := by
    simp only [sequential, ReaderState.iterator, List.getD_eq_getElem?_getD,
      List.getElem?_eq_getElem hk, Option.getD_some]
  rw [hit]
  refine ⟨hr, ?_⟩
  simp only [sequential, SequentialReader.mk.injEq, true_and]
  funext j
  by_cases hjk : j = k
  · subst hjk
    rw [Function.update_self, List.getD_eq_getElem?_getD, List.getElem?_set_self hk,
      Option.getD_some]
  · rw [Function.update_of_ne hjk, List.getD_eq_getElem?_getD,
      List.getElem?_set_ne (Ne.symm hjk), ← List.getD_eq_getElem?_getD]

/-- The calls whose path, if they pass one, is plain. -/
def Call.PlainPath {platform : Platform} (c : Call platform) : Prop :=
  ∀ path, c.path? = some path → path.Plain

/-- The contract of a reader linearizes to the sequential reader. -/
lemma readerContract_linearizes (cfg : Config) (src : ReaderSource) :
    Linearizes (readerContract cfg src) (readerSystem cfg) (readerObject cfg src)
      (ReaderState.sequential cfg src) (Except.map Value.forgetIterator) Label.commits
      Call.PlainPath where
  silent _ _ _ _ _ hguar hl := ReaderStep.sequential hguar hl
  commit c s l s' tr x plain _ hguar hl hmem hpost := by
    have hin : l ∈ tr.filter Label.commits := List.mem_filter.mpr ⟨hmem, hl⟩
    have heffect := Call.Post.effect plain hpost
    revert hin heffect
    generalize tr.filter Label.commits = ls
    rintro hin (hstep | hstep | hstep | ⟨hstep, ha⟩)
    · cases hin
    · obtain rfl := List.mem_singleton.mp hin
      obtain ⟨hopen, rfl⟩ := hguar
      exact hstep _ hopen.symm
    · obtain rfl := List.mem_singleton.mp hin
      obtain rfl := hguar
      exact hstep _
    · obtain rfl := List.mem_singleton.mp hin
      obtain ⟨hr, hs⟩ := ReaderState.sequential_next hguar
      rw [hstep, ha, hs, ← hr]
  once c tr x plain hpost := by
    have heffect := Call.Post.effect plain hpost
    revert heffect
    generalize tr.filter Label.commits = ls
    rintro (_ | _ | _ | _) <;> simp
  idle c tr x plain hpost hnone := by
    have heffect := Call.Post.effect plain hpost
    rw [List.filter_eq_nil_iff.mpr fun l hl => by simp [hnone l hl]] at heffect
    cases heffect with
    | none h => exact h
  env running s s' h := by
    obtain ⟨hslot, hiter⟩ := ReaderEnv.unchanged h
    simp only [ReaderState.sequential, hslot, hiter]

section Runs

variable {ι : Type} [DecidableEq ι]

/-- An account of the calls and returns of a run. -/
lemma reader_linearized (platform : Platform) (src : ReaderSource) (heap : ℕ → Option PyTuple)
    {es : List (Event ι (Call (createConfig platform src).toPlatform) Label (PyResult Value))}
    {P : Pool ι (Call (createConfig platform src).toPlatform) Label ReaderState (PyResult Value)}
    (run : (readerSystem (createConfig platform src)).Run (createReader src heap) es P)
    (plain : ∀ i c, .call i c ∈ es → c.PlainPath) :
    ∃ ops st, Linearized (readerObject (createConfig platform src) src)
      (history (Except.map Value.forgetIterator) es) ops
      (P.shared.sequential (createConfig platform src) src) st := by
  have hinit : (createReader src heap).sequential (createConfig platform src) src
      = (readerObject (createConfig platform src) src).init := by
    simp [ReaderState.sequential, createReader, readerObject]
  obtain ⟨ops, st, hacc, -⟩ := (readerContract_linearizes _ src).linearized
    (readerContract_holds _ src) (createReader_inv _ src heap) hinit run plain
  exact ⟨ops, st, hacc⟩

end Runs

end MaxminddbRust
