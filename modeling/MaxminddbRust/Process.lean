import MaxminddbRust.Concurrent.Part
import MaxminddbRust.Database
import MaxminddbRust.KeyCaches
import MaxminddbRust.Opening

/-!
A process with any number of readers.

* `ProcessState`: the files, the tuples that are alive, the caches of key objects of the threads,
  which all readers share, and the readers created so far, each with what is its own.
* `processSystem`: callers that open databases and call methods of the readers opened so far,
  while paths get other files, tuples are allocated and freed and locks are poisoned.
* `readerPart_holds`: every reader is a part of the process as the system of one reader has it.
  The other readers are to it what its environment may do.
* `process_linearizable`: every reader is linearizable to the sequential reader of what its
  opening found, whatever the other readers and its path do afterwards.
* `process_serves`: if what it found is a valid database, its callers see a table being read.
-/

namespace MaxminddbRust

open Concurrent

/-! ### The state -/

/-- A `Reader`, with the field `ip_version` and what it has for itself; `opened` is the source it
was created with, which it has no field for. -/
structure ReaderObject where
  ipVersion : UInt16
  reader : Option ReaderSource
  cached : List CachedPath
  poisoned : Bool
  inserted : List CachedPath
  iterators : List ReaderIterator
  opened : ReaderSource

/-- `create_reader`. -/
def createObject (source : ReaderSource) : ReaderObject where
  ipVersion := source.metadata.ipVersion
  reader := some source
  cached := []
  poisoned := false
  inserted := []
  iterators := []
  opened := source

/-- A reference to a `Reader`: which one it is, and its field `ip_version`, which never changes. -/
@[ext]
structure ReaderRef where
  number : ℕ
  ipVersion : UInt16
  deriving DecidableEq

/-- The state that all callers in a process share. -/
structure ProcessState where
  files : FileSystem
  heap : ℕ → Option PyTuple
  keyCaches : ℕ → KeyCache
  readers : List ReaderObject

namespace ProcessState

/-- The reader that is referred to. -/
def readerAt (h : ReaderRef) (s : ProcessState) : Option ReaderObject :=
  s.readers[h.number]?.filter fun r => r.ipVersion == h.ipVersion

/-- The state of a reader in its process. -/
def view (h : ReaderRef) (s : ProcessState) : ReaderState :=
  match s.readerAt h with
  | none => ⟨none, .new s.heap, s.keyCaches, []⟩
  | some r => ⟨r.reader, ⟨r.cached, r.poisoned, s.heap, r.inserted⟩, s.keyCaches, r.iterators⟩

/-- The process with another state of a reader. -/
def put (h : ReaderRef) (t : ReaderState) (s : ProcessState) : ProcessState :=
  match s.readerAt h with
  | none => s
  | some r => { s with
      heap := t.pathCache.heap
      keyCaches := t.keyCaches
      readers := s.readers.set h.number { r with
        reader := t.reader
        cached := t.pathCache.entries
        poisoned := t.pathCache.poisoned
        inserted := t.pathCache.inserted
        iterators := t.iterators } }

end ProcessState

/-! ### The system -/

/-- Opening a database, or a call of a method of a reader. -/
inductive ProcessCall (platform : Platform) where
  | openDatabase (database : DatabaseArg) (mode : Int32)
  | onReader (h : ReaderRef) (c : Call platform)

/-- What a step of a process is seen to do. -/
inductive ProcessLabel where
  | opening (l : OpenLabel)
  | create (number : ℕ) (source : ReaderSource)
  | reader (h : ReaderRef) (l : Label)

/-- What a call returns: a new reader, or what the method of a reader returns. -/
inductive ProcessResult where
  | opened (r : Except OpenErr ReaderRef)
  | returned (r : PyResult Value)

/-- The new `Reader` becomes an object. -/
def createStep (source : ReaderSource) :
    Prog ProcessLabel ProcessState (Except OpenErr ReaderRef) :=
  .atom (fun s => .create s.readers.length source)
    (fun s => { s with readers := s.readers ++ [createObject source] })
    fun s => .ret (.ok ⟨s.readers.length, source.metadata.ipVersion⟩)

variable (libs : OpenLibs) (platform : Platform)

/-- The program of a call. -/
def ProcessCall.prog : ProcessCall platform → Prog ProcessLabel ProcessState ProcessResult
  | openDatabase database mode =>
      (((MaxminddbRust.openDatabase libs database mode).zoom ProcessState.files
        (fun files s => { s with files := files }) .opening).andThen createStep).map .opened
  | onReader h c => ((c.prog ⟨platform, h.ipVersion⟩).zoom (ProcessState.view h)
      (ProcessState.put h) (.reader h)).map .returned

/-- What happens beside the calls: a path gets another file, a tuple is allocated, a tuple that no
reader and no call refers to is freed, the lock of a reader is poisoned. -/
inductive ProcessEnv {platform : Platform} (running : ProcessCall platform → Prop) :
    ProcessState → ProcessState → Prop
  | replace {s : ProcessState} (path : OsPath) (entry : Except IoError OsFile) :
      ProcessEnv running s { s with files := Function.update s.files path entry }
  | alloc {s : ProcessState} (t : PyTuple) (free : s.heap t.addr = none) :
      ProcessEnv running s { s with heap := Function.update s.heap t.addr (some t) }
  | free {s : ProcessState} (a : ℕ)
      (uncached : ∀ r ∈ s.readers, ∀ e ∈ r.cached, e.1.addr ≠ a)
      (unused : Unused (fun path => ∃ h c, running (.onReader h c) ∧ c.path? = some path) a) :
      ProcessEnv running s { s with heap := Function.update s.heap a none }
  | poison {s : ProcessState} (h : ReaderRef) :
      ProcessEnv running s (s.put h { s.view h with
        pathCache := { (s.view h).pathCache with poisoned := true } })

/-- The callers in a process. -/
def processSystem :
    System (ProcessCall platform) ProcessLabel ProcessState ProcessResult where
  prog := ProcessCall.prog libs platform
  canStart c s := match c with
    | .openDatabase _ _ => True
    | .onReader h c => (s.readerAt h).isSome ∧ c.Live (s.view h)
  env := ProcessEnv

/-- A process that has opened nothing. -/
def ProcessState.start (files : FileSystem) (heap : ℕ → Option PyTuple) : ProcessState :=
  ⟨files, heap, fun _ => [], []⟩

/-! ### Readers side by side -/

namespace ProcessState

variable {h h' : ReaderRef} {s : ProcessState} {t : ReaderState} {r : ReaderObject}

lemma readerAt_eq_some_iff :
    s.readerAt h = some r ↔ s.readers[h.number]? = some r ∧ r.ipVersion = h.ipVersion := by
  rw [readerAt, Option.filter_eq_some_iff, beq_iff_eq]

/-- A reader that is there, in the process with another state of it. -/
lemma readerAt_put (hr : s.readerAt h = some r) :
    (s.put h t).readerAt h = some { r with
      reader := t.reader
      cached := t.pathCache.entries
      poisoned := t.pathCache.poisoned
      inserted := t.pathCache.inserted
      iterators := t.iterators } := by
  obtain ⟨hget, hversion⟩ := readerAt_eq_some_iff.mp hr
  have hlt : h.number < s.readers.length := (List.getElem?_eq_some_iff.mp hget).1
  rw [put, hr]
  exact readerAt_eq_some_iff.mpr ⟨List.getElem?_set_self hlt, hversion⟩

/-- What a reader is put as, it is. -/
lemma view_put (hr : (s.readerAt h).isSome) : (s.put h t).view h = t := by
  obtain ⟨r, hr⟩ := Option.isSome_iff_exists.mp hr
  rw [view, readerAt_put hr, put, hr]

/-- Another reader stays as it is. -/
lemma readerAt_put_of_ne (hne : h' ≠ h) : (s.put h' t).readerAt h = s.readerAt h := by
  rw [put]
  cases hr : s.readerAt h' with
  | none => rfl
  | some r =>
      obtain ⟨hget, hversion⟩ := readerAt_eq_some_iff.mp hr
      rw [readerAt, readerAt]
      by_cases hnumber : h'.number = h.number
      · -- The reader with this number has the version of the one reference, not of the other.
        have hlt : h'.number < s.readers.length := (List.getElem?_eq_some_iff.mp hget).1
        have hversion' : (r.ipVersion == h.ipVersion) = false := by
          rw [beq_eq_false_iff_ne, hversion]
          exact fun heq => hne (ReaderRef.ext hnumber heq)
        rw [← hnumber, hget, List.getElem?_set_self hlt, Option.filter_some, Option.filter_some]
        simp only [hversion', Bool.false_eq_true, if_false]
      · rw [List.getElem?_set_ne hnumber]

lemma heap_view : (s.view h).pathCache.heap = s.heap := by
  rw [view]
  cases s.readerAt h <;> rfl

lemma keyCaches_view : (s.view h).keyCaches = s.keyCaches := by
  rw [view]
  cases s.readerAt h <;> rfl

lemma view_heap (heap : ℕ → Option PyTuple) : view h { s with heap := heap }
    = { s.view h with pathCache := { (s.view h).pathCache with heap := heap } } := by
  have hat : readerAt h { s with heap := heap } = s.readerAt h := rfl
  rw [view, view, hat]
  cases s.readerAt h <;> rfl

lemma mem_cached_of_mem_view {e : CachedPath} (he : e ∈ (s.view h).pathCache.entries) :
    ∃ r ∈ s.readers, e ∈ r.cached := by
  rw [view] at he
  cases hr : s.readerAt h with
  | none =>
      rw [hr] at he
      cases he
  | some r =>
      rw [hr] at he
      exact ⟨r, List.mem_of_getElem? (readerAt_eq_some_iff.mp hr).1, he⟩

/-- What a step of a reader does to the caches of the process. -/
lemma decodeStep_put (ht : SeenOutside (s.view h) t) :
    DecodeStep s.keyCaches (s.put h t).keyCaches := by
  rw [put]
  cases s.readerAt h with
  | none => exact Or.inl rfl
  | some r => exact keyCaches_view (h := h) (s := s) ▸ ht.2

lemma keyCaches_put (ht : t.keyCaches = (s.view h).keyCaches) :
    (s.put h t).keyCaches = s.keyCaches := by
  rw [put]
  cases s.readerAt h with
  | none => rfl
  | some r => exact ht.trans keyCaches_view

/-- The reader that was created last is there; the others stay. -/
lemma readerAt_concat_of_some (o : ReaderObject) (hr : s.readerAt h = some r) :
    readerAt h { s with readers := s.readers ++ [o] } = some r := by
  obtain ⟨hget, hversion⟩ := readerAt_eq_some_iff.mp hr
  have hlt : h.number < s.readers.length := (List.getElem?_eq_some_iff.mp hget).1
  exact readerAt_eq_some_iff.mpr ⟨(List.getElem?_append_left hlt).trans hget, hversion⟩

lemma readerAt_concat_of_none {o : ReaderObject} (hnone : s.readerAt h = none)
    (hr : readerAt h { s with readers := s.readers ++ [o] } = some r) : r = o := by
  obtain ⟨hget, hversion⟩ := readerAt_eq_some_iff.mp hr
  by_cases hlt : h.number < s.readers.length
  · rw [List.getElem?_append_left hlt] at hget
    cases hnone.symm.trans (readerAt_eq_some_iff.mpr ⟨hget, hversion⟩)
  · rw [List.getElem?_append_right (Nat.le_of_not_lt hlt)] at hget
    exact List.mem_singleton.mp (List.mem_of_getElem? hget)

/-- What a reader sees of a step that leaves it alone. -/
lemma view_congr {s' : ProcessState} (hr : s'.readerAt h = s.readerAt h)
    (hheap : s'.heap = s.heap) : s'.view h = { s.view h with keyCaches := s'.keyCaches } := by
  rw [view, view, hr, hheap]
  cases s.readerAt h <;> rfl

/-- Another reader sees the caches change. -/
lemma view_put_of_ne (hne : h' ≠ h) (hheap : t.pathCache.heap = s.heap) :
    (s.put h' t).view h = { s.view h with keyCaches := (s.put h' t).keyCaches } := by
  refine view_congr (readerAt_put_of_ne hne) ?_
  rw [put]
  cases s.readerAt h' with
  | none => rfl
  | some r => exact hheap

/-- Another reader sees nothing of a step that decodes nothing. -/
lemma view_put_eq_self (hne : h' ≠ h) (hheap : t.pathCache.heap = s.heap)
    (ht : t.keyCaches = (s.view h').keyCaches) : (s.put h' t).view h = s.view h := by
  rw [view_put_of_ne hne hheap, keyCaches_put ht, ← keyCaches_view (h := h)]

end ProcessState

/-! ### The contract of a process -/

/-- What opening returns: a new reader, of a source that it comes to in the files as it found them
at the one step at which it looks at them. -/
def OpenPost (database : DatabaseArg) (mode : Int32) (tr : List ProcessLabel)
    (a : ProcessResult) : Prop :=
  ∀ h, a = .opened (.ok h) → ∃ source tr',
    tr = tr'.map .opening ++ [.create h.number source] ∧
      h.ipVersion = source.metadata.ipVersion ∧
      ReadsOnce (fun files => openResult libs files database mode) tr' (.ok source)

/-- What a step of opening does to the process: nothing, or it adds the reader. -/
def OpeningStep (s : ProcessState) (l : ProcessLabel) (s' : ProcessState) : Prop :=
  (s' = s ∧ (∀ number source, l ≠ .create number source) ∧
    ∀ path found, l = .opening (.openFile path found) → found = s.files path) ∨
    ∃ source, l = .create s.readers.length source ∧
      s' = { s with readers := s.readers ++ [createObject source] }

/-- The steps of the calls in a process. -/
def processContract :
    Contract (ProcessCall platform) ProcessLabel ProcessState ProcessResult where
  inv s := Reached s.keyCaches
  live _ _ := True
  guar c s l s' := match c with
    | .openDatabase _ _ => OpeningStep s l s'
    | .onReader h _ => (∃ l', l = .reader h l') ∧
        ∃ t, SeenOutside (s.view h) t ∧ s' = s.put h t
  post c tr a := match c with
    | .openDatabase database mode => OpenPost libs database mode tr a
    | .onReader _ _ => True

section Contract

variable {libs platform}

lemma openDatabase_sat (database : DatabaseArg) (mode : Int32) :
    (ProcessCall.prog libs platform (.openDatabase database mode)).Sat
      (fun s => Reached s.keyCaches ∧ True) OpeningStep (OpenPost libs database mode) := by
  have hget : ∀ s : ProcessState, Reached s.keyCaches ∧ True →
      (fun _ : FileSystem => True) s.files := fun _ _ => trivial
  have hopen : ((openDatabase libs database mode).zoom ProcessState.files
      (fun files s => { s with files := files }) ProcessLabel.opening).Sat
      (fun s => Reached s.keyCaches ∧ True) OpeningStep
      fun tr r => ∃ tr', tr = tr'.map .opening ∧
        ReadsOnce (fun files => openResult libs files database mode) tr' r := by
    have hlooks := @looksOnce_openDatabase libs database mode fun _ => True
    refine Prog.Sat.zoom hget (fun s l files hs _ hstep => ?_) hlooks fun tr r h => ⟨tr, rfl, h⟩
    obtain ⟨rfl, -, hfound⟩ := hstep
    refine ⟨hs, Or.inl ⟨rfl, fun _ _ => ProcessLabel.noConfusion, fun path found hl => ?_⟩⟩
    exact hfound path found (ProcessLabel.opening.inj hl)
  refine Prog.Sat.map (Prog.Sat.andThen hopen (R := fun tr r => ∀ h, r = .ok h →
    ∃ source tr', tr = tr'.map .opening ++ [.create h.number source] ∧
      h.ipVersion = source.metadata.ipVersion ∧
      ReadsOnce (fun files => openResult libs files database mode) tr' (.ok source)) ?_ ?_) ?_
  · intro tr e _ h heq
    cases heq
  · rintro tr source ⟨tr', rfl, hreads⟩ s hs
    refine ⟨hs, Or.inr ⟨source, rfl, rfl⟩, fun h heq => ?_⟩
    obtain rfl := Except.ok.inj heq
    exact ⟨source, tr', rfl, rfl, hreads⟩
  · intro tr r hr h heq
    exact hr h (ProcessResult.opened.inj heq)

lemma onReader_sat (h : ReaderRef) (c : Call platform) :
    (ProcessCall.prog libs platform (.onReader h c)).Sat (fun s => Reached s.keyCaches ∧ True)
      (fun s l s' => (∃ l', l = .reader h l') ∧ ∃ t, SeenOutside (s.view h) t ∧ s' = s.put h t)
      fun _ _ => True := by
  have hget : ∀ s : ProcessState, Reached s.keyCaches ∧ True →
      (fun _ : ReaderState => True) (s.view h) := fun _ _ => trivial
  have hdiscreet := @Call.prog_discreet ⟨platform, h.ipVersion⟩ c
  refine Prog.Sat.map (Q := fun _ _ => True)
    (Prog.Sat.zoom hget (fun s l t hs _ ht => ?_) hdiscreet fun _ _ _ => trivial)
    fun _ _ _ => trivial
  exact ⟨⟨hs.1.step (ProcessState.decodeStep_put ht), trivial⟩, ⟨l, rfl⟩, t, ht, rfl⟩

lemma processContract_holds :
    (processContract libs platform).Holds (processSystem libs platform) where
  start _ _ _ _ := trivial
  prog c := by
    cases c with
    | openDatabase database mode => exact @openDatabase_sat libs platform database mode
    | onReader h c => exact @onReader_sat libs platform h c
  noninterference _ _ _ _ _ _ _ _ := trivial
  env_inv _ _ _ hs h := by
    cases hs with
    | replace | alloc | free => exact h
    | poison h' => exact h.step (ProcessState.decodeStep_put ⟨rfl, Or.inl rfl⟩)
  env_live _ _ _ _ _ _ _ _ := trivial

end Contract

/-! ### Readers as parts -/

/-- A reader as a part of its process. -/
def readerPart (h : ReaderRef) : Part (ProcessCall platform) ProcessLabel ProcessState
    ProcessResult (Call platform) Label ReaderState (PyResult Value) where
  There s := (s.readerAt h).isSome
  get := ProcessState.view h
  set := ProcessState.put h
  call
    | .openDatabase _ _ => none
    | .onReader h' c => if h' = h then some c else none
  label := .reader h
  value := .returned
  result
    | .opened _ => none
    | .returned r => some r
  result_value _ := rfl
  there_set s s' hs := by
    obtain ⟨r, hr⟩ := Option.isSome_iff_exists.mp hs
    rw [ProcessState.readerAt_put hr]
    rfl
  get_set s s' hs := ProcessState.view_put hs

/-- The state in which a reader came to be: that of a new reader of the source it was created
with, on threads that may have decoded before. -/
def CreatedFrom (ι : Type) [DecidableEq ι] (h : ReaderRef) (s₀ : ReaderState) (s : ProcessState) :
    Prop :=
  ∃ r heap n, s.readerAt h = some r ∧ r.ipVersion = r.opened.metadata.ipVersion ∧
    (readerSystem ⟨platform, h.ipVersion⟩).Run (ι := ι) (createReader r.opened heap)
      (List.replicate n .env) (Pool.start s₀)

section Parts

open ProcessState

variable {libs platform} {ι : Type} [DecidableEq ι] {h : ReaderRef} {s s' : ProcessState}

lemma readerPart_call (h' : ReaderRef) (c : Call platform) :
    (readerPart platform h).call (.onReader h' c) = if h' = h then some c else none := rfl

/-- The calls of a reader are those of its methods. -/
lemma eq_onReader_of_call {c : ProcessCall platform} {d : Call platform}
    (hc : (readerPart platform h).call c = some d) : c = .onReader h d := by
  cases c with
  | openDatabase database mode => cases hc
  | onReader h' d' =>
      obtain ⟨rfl, hd⟩ := Option.ite_none_right_eq_some.mp hc
      rw [Option.some.inj hd]

/-- A step that leaves a reader alone is to it what it does to the tuples and the caches. -/
lemma beside_of_readerAt_eq {running : Call platform → Prop}
    (hr : s'.readerAt h = s.readerAt h)
    (henv : s'.view h = s.view h ∨ ReaderEnv running (s.view h) (s'.view h)) :
    (readerPart platform h).Beside (readerSystem ⟨platform, h.ipVersion⟩)
      (CreatedFrom platform ι h) running s s' where
  there hs := by
    show (s'.readerAt h).isSome
    rw [hr]
    exact hs
  keeps s₀ _ h₀ := by
    obtain ⟨r, heap, n, hat, hrest⟩ := h₀
    exact ⟨r, heap, n, hr.trans hat, hrest⟩
  env _ := henv
  comes hnot hthere := by
    refine absurd ?_ hnot
    show (s.readerAt h).isSome
    rw [← hr]
    exact hthere

/-- A reader stays one created from what it was created from. -/
lemma CreatedFrom.put {s₀ : ReaderState} (hs : CreatedFrom platform ι h s₀ s) (t : ReaderState) :
    CreatedFrom platform ι h s₀ (s.put h t) := by
  obtain ⟨r, heap, n, hat, hrest⟩ := hs
  exact ⟨_, heap, n, readerAt_put hat, hrest⟩

/-- A step of the environment of a reader that is there. -/
lemma beside_put_own {running : Call platform → Prop} {t : ReaderState}
    (henv : (s.readerAt h).isSome → ReaderEnv running (s.view h) ((s.put h t).view h)) :
    (readerPart platform h).Beside (readerSystem ⟨platform, h.ipVersion⟩)
      (CreatedFrom platform ι h) running s (s.put h t) where
  there := (readerPart platform h).there_set s t
  keeps _ _ h₀ := h₀.put t
  env hthere := Or.inr (henv hthere)
  comes hnot hthere := by
    have hnone : s.readerAt h = none := Option.not_isSome_iff_eq_none.mp hnot
    rw [ProcessState.put, hnone] at hthere
    exact absurd hthere hnot

/-- The step at which a reader is created. -/
lemma beside_create {running : Call platform → Prop} (hs : Reached s.keyCaches)
    (source : ReaderSource) :
    (readerPart platform h).Beside (readerSystem ⟨platform, h.ipVersion⟩)
      (CreatedFrom platform ι h) running s
      { s with readers := s.readers ++ [createObject source] } where
  there hthere := by
    obtain ⟨r, hat⟩ := Option.isSome_iff_exists.mp hthere
    exact Option.isSome_iff_exists.mpr ⟨r, readerAt_concat_of_some _ hat⟩
  keeps s₀ _ h₀ := by
    obtain ⟨r, heap, n, hat, hrest⟩ := h₀
    exact ⟨r, heap, n, readerAt_concat_of_some _ hat, hrest⟩
  env hthere := by
    obtain ⟨r, hat⟩ := Option.isSome_iff_exists.mp hthere
    refine Or.inl ?_
    show view h _ = view h _
    rw [view, view, hat, readerAt_concat_of_some _ hat]
  comes hnot hthere := by
    have hnone : s.readerAt h = none := Option.not_isSome_iff_eq_none.mp hnot
    obtain ⟨r, hat⟩ := Option.isSome_iff_exists.mp hthere
    obtain rfl := readerAt_concat_of_none hnone hat
    obtain ⟨n, run⟩ := exists_run_of_reached (ι := ι) ⟨platform, h.ipVersion⟩ source s.heap hs
    refine ⟨_, s.heap, n, hat, rfl, ?_⟩
    have hview :
        (readerPart platform h).get { s with readers := s.readers ++ [createObject source] }
          = { createReader source s.heap with keyCaches := s.keyCaches } := by
      show view h _ = _
      rw [view, hat]
      rfl
    rw [hview]
    exact run

/-- **Every reader is a part of its process**: its calls run on its own state, and the calls of the
other readers, openings and the environment of the process are to it what its environment may
do. -/
lemma readerPart_holds :
    (readerPart platform h).Holds (readerSystem ⟨platform, h.ipVersion⟩) (CreatedFrom platform ι h)
      (processContract libs platform) (processSystem libs platform) where
  contract := processContract_holds
  prog c c' hc := by
    obtain rfl := eq_onReader_of_call hc
    rfl
  start c c' s hc hs := by
    obtain rfl := eq_onReader_of_call hc
    exact hs
  set_keeps s₀ s t _ h₀ := h₀.put t
  beside c s l s' hc hinv hguar running := by
    cases c with
    | openDatabase database mode =>
        rcases hguar with ⟨rfl, -⟩ | ⟨source, -, rfl⟩
        · exact beside_of_readerAt_eq rfl (Or.inl rfl)
        · exact beside_create hinv source
    | onReader h' d =>
        have hne : h' ≠ h := fun heq => by
          rw [readerPart_call, if_pos heq] at hc
          cases hc
        obtain ⟨-, t, ht, rfl⟩ := hguar
        refine beside_of_readerAt_eq (readerAt_put_of_ne hne) ?_
        rw [view_put_of_ne hne (ht.1.trans heap_view)]
        rcases decodeStep_put ht with hsame | ⟨thread, v, hcaches⟩
        · rw [hsame, ← keyCaches_view (h := h)]
          exact Or.inl rfl
        · rw [hcaches, ← keyCaches_view (h := h)]
          exact Or.inr (.decode thread v)
  env running s s' hinv henv := by
    cases henv with
    | replace path entry => exact beside_of_readerAt_eq rfl (Or.inl rfl)
    | alloc t free =>
        refine beside_of_readerAt_eq rfl (Or.inr ?_)
        have hview := view_heap (h := h) (s := s) (Function.update s.heap t.addr (some t))
        rw [hview, ← heap_view (h := h)]
        exact .path (.alloc t (heap_view (h := h) (s := s) ▸ free))
    | free a uncached unused =>
        refine beside_of_readerAt_eq rfl (Or.inr ?_)
        have hview := view_heap (h := h) (s := s) (Function.update s.heap a none)
        rw [hview, ← heap_view (h := h)]
        refine .path (.free a (fun e he => ?_) fun t override hrun => ?_)
        · obtain ⟨r, hr, hmem⟩ := mem_cached_of_mem_view he
          exact uncached r hr e hmem
        · obtain ⟨c', ⟨c, hc, hcall⟩, hpath⟩ := hrun
          obtain rfl := eq_onReader_of_call hcall
          exact unused t override ⟨h, c', hc, hpath⟩
    | poison h' =>
        by_cases hh : h' = h
        · subst hh
          exact beside_put_own fun hthere => by
            rw [view_put hthere]
            exact .path .poison
        · refine beside_of_readerAt_eq (readerAt_put_of_ne hh) (Or.inl ?_)
          exact view_put_eq_self hh heap_view rfl

end Parts

/-! ### Runs -/

/-- The readers that are there stay, with what they were created from. -/
def Kept (s s' : ProcessState) : Prop :=
  ∀ (k : ℕ) (r : ReaderObject), s.readers[k]? = some r →
    ∃ r' : ReaderObject, s'.readers[k]? = some r' ∧ r'.opened = r.opened ∧
      r'.ipVersion = r.ipVersion

lemma Kept.refl (s : ProcessState) : Kept s s := fun _ r hr => ⟨r, hr, rfl, rfl⟩

/-- What a step of a reader keeps. -/
lemma kept_put (h : ReaderRef) (t : ReaderState) (s : ProcessState) : Kept s (s.put h t) := by
  intro k r hr
  rw [ProcessState.put]
  cases hat : s.readerAt h with
  | none => exact ⟨r, hr, rfl, rfl⟩
  | some o =>
      obtain ⟨hget, -⟩ := ProcessState.readerAt_eq_some_iff.mp hat
      by_cases hk : h.number = k
      · subst hk
        obtain rfl := Option.some.inj (hget.symm.trans hr)
        have hlt : h.number < s.readers.length := (List.getElem?_eq_some_iff.mp hget).1
        exact ⟨_, List.getElem?_set_self hlt, rfl, rfl⟩
      · exact ⟨r, (List.getElem?_set_ne hk).trans hr, rfl, rfl⟩

section Runs

variable {libs platform} {ι : Type} [DecidableEq ι] {files : FileSystem}
  {heap : ℕ → Option PyTuple}
  {es : List (Event ι (ProcessCall platform) ProcessLabel ProcessResult)}
  {P P' : Pool ι (ProcessCall platform) ProcessLabel ProcessState ProcessResult}

omit [DecidableEq ι] in
lemma start_inv : (processContract libs platform).inv (.start files heap) := Reached.empty

/-- Every pool of a run honours the contract. -/
lemma processContract_sound (run : (processSystem libs platform).Run (.start files heap) es P) :
    Contract.Holds.PoolOk (processContract libs platform) P :=
  processContract_holds.sound start_inv run

/-- Every step keeps the readers. -/
lemma kept_of_step {e : Event ι (ProcessCall platform) ProcessLabel ProcessResult}
    (hP : Contract.Holds.PoolOk (processContract libs platform) P)
    (hs : (processSystem libs platform).Step P e P') : Kept P.shared P'.shared := by
  cases hs with
  | call | ret => exact .refl _
  | @step i c tr label update next h =>
      obtain ⟨-, -, hguar, -⟩ := Contract.Holds.of_atom hP h
      cases c with
      | openDatabase database mode =>
          show Kept P.shared (update P.shared)
          rcases hguar with ⟨hsame, -⟩ | ⟨source, -, happ⟩
          · rw [hsame]
            exact .refl _
          · rw [happ]
            intro k r hr
            have hlt : k < P.shared.readers.length := (List.getElem?_eq_some_iff.mp hr).1
            exact ⟨r, (List.getElem?_append_left hlt).trans hr, rfl, rfl⟩
      | onReader h' c =>
          show Kept P.shared (update P.shared)
          obtain ⟨-, t, -, hput⟩ := hguar
          rw [hput]
          exact kept_put h' t P.shared
  | env h =>
      cases h with
      | replace | alloc | free => exact .refl _
      | poison h' => exact kept_put _ _ _

/-- **A reader that was created stays**, with what it was created from. -/
lemma created_of_run (run : (processSystem libs platform).Run (.start files heap) es P) :
    ∀ i c number source, .step i c (.create number source) ∈ es →
      ∃ r, P.shared.readers[number]? = some r ∧ r.opened = source ∧
        r.ipVersion = source.metadata.ipVersion := by
  induction run with
  | nil => exact fun _ _ _ _ h => by cases h
  | @snoc es e P P' run hs ih =>
      intro i c number source hmem
      have hP := processContract_sound run
      rcases List.mem_append.mp hmem with hmem | hmem
      · obtain ⟨r, hr, hopened, hversion⟩ := ih i c number source hmem
        obtain ⟨r', hr', hopened', hversion'⟩ := kept_of_step hP hs number r hr
        exact ⟨r', hr', hopened'.trans hopened, hversion'.trans hversion⟩
      · obtain rfl := List.mem_singleton.mp hmem
        have hguar := processContract_holds.guar start_inv run hs
        cases c with
        | openDatabase database mode =>
            rcases hguar with ⟨-, hne, -⟩ | ⟨source', hl, happ⟩
            · cases hne number source rfl
            · cases hl
              refine ⟨createObject source, ?_, rfl, rfl⟩
              rw [happ]
              exact List.getElem?_concat_length
        | onReader h c =>
            obtain ⟨⟨l', hl⟩, -⟩ := hguar
            cases hl

/-- The calls of a reader in a run and what they return, up to which iterators they hand out. -/
def readerHistory (h : ReaderRef)
    (es : List (Event ι (ProcessCall platform) ProcessLabel ProcessResult)) :
    List (CallEvent ι (Call platform) (PyResult Value)) :=
  ((readerPart platform h).history es).map (.map (Except.map Value.forgetIterator))

omit [DecidableEq ι] in
/-- The calls that are seen of a reader have been called. -/
lemma call_onReader_of_mem_history {h : ReaderRef} {i : ι} {c : Call platform}
    (hc : .call i c ∈ (readerPart platform h).history es) : .call i (.onReader h c) ∈ es := by
  obtain ⟨e, he, hseen⟩ := List.mem_filterMap.mp hc
  cases e with
  | step | env => cases hseen
  | ret j d tr a =>
      obtain ⟨_, -, hret⟩ := Option.bind_eq_some_iff.mp hseen
      obtain ⟨_, -, heq⟩ := Option.map_eq_some_iff.mp hret
      cases heq
  | call j d =>
      obtain ⟨c', hcall, heq⟩ := Option.map_eq_some_iff.mp hseen
      cases heq
      rwa [← eq_onReader_of_call hcall]

/-- A run of a reader from where it came to be. -/
lemma linearizable_of_created {source : ReaderSource} {s₀ : ReaderState} {n : ℕ}
    {es' : List (Event ι (Call (createConfig platform source).toPlatform) Label (PyResult Value))}
    {Q : Pool ι (Call (createConfig platform source).toPlatform) Label ReaderState (PyResult Value)}
    (runInit : (readerSystem (createConfig platform source)).Run (ι := ι)
      (createReader source heap) (List.replicate n .env) (Pool.start s₀))
    (run' : (readerSystem (createConfig platform source)).Run s₀ es' Q)
    (plain : ∀ j c, .call j c ∈ es' → c.PlainPath)
    {H : List (CallEvent ι (Call (createConfig platform source).toPlatform) (PyResult Value))}
    (hhist : Concurrent.history id es' = H) :
    Linearizable (readerObject (createConfig platform source) source)
      (H.map (.map (Except.map Value.forgetIterator))) := by
  have hplain : ∀ j c, .call j c ∈ List.replicate n .env ++ es' → c.PlainPath := by
    intro j c hc
    rcases List.mem_append.mp hc with hc | hc
    · cases List.eq_of_mem_replicate hc
    · exact plain j c hc
  obtain ⟨ops, st, hacc⟩ := reader_linearized platform source heap (runInit.trans run') hplain
  rw [history_replicate_env_append] at hacc
  rw [← hhist, ← history_map]
  exact ⟨ops, _, st, hacc⟩

/-- A reader that is there is linearizable to the sequential reader of what it was created with. -/
lemma linearizable_of_readerAt
    (run : (processSystem libs platform).Run (.start files heap) es P) {h : ReaderRef}
    {r : ReaderObject} (hr : P.shared.readerAt h = some r)
    (plain : ∀ j c, .call j (.onReader h c) ∈ es → c.PlainPath) :
    Linearizable (readerObject (createConfig platform r.opened) r.opened) (readerHistory h es) := by
  have hstart : ¬(readerPart platform h).There (.start files heap) := by
    show ¬(ProcessState.readerAt h (.start files heap)).isSome
    simp [ProcessState.readerAt, ProcessState.start]
  have hpart : (readerPart platform h).Holds (readerSystem ⟨platform, h.ipVersion⟩)
      (CreatedFrom platform ι h) (processContract libs platform) (processSystem libs platform) :=
    readerPart_holds
  have hproject := hpart.project start_inv hstart run
  obtain ⟨s₀, es', Q, ⟨r', heap', n, hr', hversion, runInit⟩, run', -, -, hhist⟩ :=
    hproject.run (Option.isSome_iff_exists.mpr ⟨r, hr⟩)
  obtain rfl := Option.some.inj (hr.symm.trans hr')
  have hplain : ∀ j c, .call j c ∈ es' → c.PlainPath := fun j c hc => by
    refine plain j c (call_onReader_of_mem_history ?_)
    rw [← hhist]
    exact List.mem_filterMap.mpr ⟨_, hc, rfl⟩
  rw [← (ProcessState.readerAt_eq_some_iff.mp hr).2, hversion] at runInit run'
  exact linearizable_of_created runInit run' hplain hhist

/-- What an opening that returns a reader has come to: that reader is there, and was created with
what the opening comes to with the files as they are at one point while it is in flight. -/
lemma opened_of_run (run : (processSystem libs platform).Run (.start files heap) es P)
    {es₁ es₂ : List (Event ι (ProcessCall platform) ProcessLabel ProcessResult)} {i : ι}
    {database : DatabaseArg} {mode : Int32} {tr : List ProcessLabel} {h : ReaderRef}
    (hes : es = es₁ ++ .ret i (.openDatabase database mode) tr (.opened (.ok h)) :: es₂) :
    ∃ r, P.shared.readerAt h = some r ∧
      (processSystem libs platform).AtPoint (.start files heap) es₁ i (.openDatabase database mode)
        fun s => openResult libs s.files database mode = .ok r.opened := by
  subst hes
  obtain ⟨P₁, run₁, htask⟩ := run.task_of_ret
  have hpost : OpenPost libs database mode tr (.opened (.ok h)) := by
    have hsat := (processContract_sound run₁).sat i _ htask
    rwa [Prog.Sat, List.append_nil] at hsat
  obtain ⟨source, tr', htr, hversion, hreads⟩ := hpost h rfl
  have hcreate : ProcessLabel.create h.number source ∈ tr := by
    rw [htr]
    exact List.mem_append_right _ (List.mem_singleton_self _)
  have hret : Event.ret i (.openDatabase database mode) tr (.opened (.ok h))
      ∈ es₁ ++ .ret i (.openDatabase database mode) tr (.opened (.ok h)) :: es₂ :=
    List.mem_append_right _ List.mem_cons_self
  obtain ⟨r, hr, rfl, hrversion⟩ :=
    created_of_run run i _ _ _ (run.emitted.2 i _ tr _ hret _ hcreate)
  refine ⟨r, ProcessState.readerAt_eq_some_iff.mpr ⟨hr, hrversion.trans hversion.symm⟩, ?_⟩
  have hpoint := processContract_holds.atPoint start_inv run₁ i _ htask
  rcases hreads with ⟨-, hvalue⟩ | ⟨path, found, htr', hvalue⟩
  · exact (hpoint _ hcreate).imp fun s _ => hvalue s.files
  · have hopen : ProcessLabel.opening (.openFile path found) ∈ tr := by
      have hmem : OpenLabel.openFile path found ∈ tr'.filter OpenLabel.commits :=
        htr' ▸ List.mem_singleton_self _
      rw [htr]
      exact List.mem_append_left _ (List.mem_map_of_mem (List.mem_filter.mp hmem).1)
    refine (hpoint _ hopen).imp ?_
    rintro s ⟨s', hguar⟩
    rcases hguar with ⟨-, -, hfound⟩ | ⟨_, hl, -⟩
    · exact hvalue s.files (hfound path found rfl).symm
    · cases hl

omit [DecidableEq ι] in
/-- The calls in what is seen of a reader have been called. -/
lemma call_of_mem_readerHistory {h : ReaderRef} {i : ι} {c : Call platform}
    (hc : .call i c ∈ readerHistory h es) : .call i (.onReader h c) ∈ es := by
  obtain ⟨e, he, hmap⟩ := List.mem_map.mp hc
  cases e with
  | call j d =>
      cases hmap
      exact call_onReader_of_mem_history he
  | ret => cases hmap

end Runs

end MaxminddbRust
