import MaxminddbRust.ReaderSpec

/-!
Any number of callers of one reader.

* `Call.Post`, `Call.prog_honours`: the specification of every call.
* `readerSystem`: the callers of a reader, and an environment that allocates and frees tuples,
  poisons the lock of the path cache and decodes for other readers of the same threads.
* `readerContract_holds`: the specifications hold in every run.
* `ReaderState.Reachable`, `ReaderState.Open`: the states of a reader over all runs, and those in
  which it is open; `exec_post`: what a call made alone in such a state does.
* `get_open` and its companions: what single lookups return on an open reader, in whatever state
  its caches are.
-/

namespace MaxminddbRust

open Concurrent
open Concurrent.Prog

variable {cfg : Config} {src : ReaderSource}

/-! ### The specifications of the other methods -/

section Methods

variable {L : ReaderState → Prop}

/-- What `closed` does. -/
def ClosedPost (tr : List Label) (a : PyResult Bool) : Prop :=
  tr = [.load true] ∧ a = .ok false ∨ tr = [.load false] ∧ a = .ok true

lemma closed_honours : Honours cfg src L ClosedPost closed := by
  refine honours_of_unchanged (fun s => ⟨rfl, rfl⟩) fun s hs => ?_
  rcases hs.1.slot with hslot | hslot
  · rw [hslot]
    exact Or.inr ⟨rfl, rfl⟩
  · rw [hslot]
    exact Or.inl ⟨rfl, rfl⟩

/-- What `metadata` does. -/
def MetadataPost (src : ReaderSource) : List Label → PyResult Metadata → Prop :=
  Opened errMetadataClosed fun tr a => tr = [.metadata] ∧ a = .ok (.fromMaxmind src.metadata)

lemma metadata_honours : Honours cfg src L (MetadataPost src) metadata :=
  load_andThen (honours_of_unchanged (fun _ => rfl) fun _ _ => ⟨rfl, rfl⟩)

/-- What `__enter__` does. -/
def EnterPost : List Label → PyResult Unit → Prop :=
  Opened errReopen fun tr a => tr = [] ∧ a = .ok ()

lemma enter_honours : Honours cfg src L EnterPost enter := by
  refine honours_of_unchanged (fun s => ⟨rfl, rfl⟩) fun s hs => ?_
  rcases hs.1.slot with hslot | hslot
  · rw [hslot]
    exact Or.inl ⟨rfl, rfl⟩
  · rw [hslot]
    exact Or.inr ⟨[], rfl, rfl, rfl⟩

/-- What `close` and `__exit__` do. -/
def ClosePost (tr : List Label) (a : PyResult Unit) : Prop := tr = [.store] ∧ a = .ok ()

lemma close_honours (hL : ∀ s s', ReaderStep cfg src s .store s' → L s → L s') :
    Honours cfg src L ClosePost close := fun s hs =>
  ⟨⟨⟨Or.inl rfl, hs.1.cache, hs.1.keys⟩, hL s _ rfl hs.2⟩, rfl, rfl, rfl⟩

/-- What `__iter__` does: it returns the number of the iterator that it makes. -/
def IterPost (cfg : Config) (src : ReaderSource) : List Label → PyResult ℕ → Prop :=
  Opened errClosed fun tr a => ∃ made, tr = [.within made] ∧
    match ReaderIterator.new cfg.ipnetwork src with
    | .error e => made = none ∧ a = .error e
    | .ok _ => ∃ k, made = some k ∧ a = .ok k

lemma iter_honours (hL : Stable cfg src L) : Honours cfg src L (IterPost cfg src) (iter cfg) := by
  refine load_andThen fun s hs => ?_
  cases h : ReaderIterator.new cfg.ipnetwork src with
  | error e => exact ⟨hs, rfl, _, rfl, rfl, rfl⟩
  | ok it =>
      have hstep : ReaderStep cfg src s (.within (some s.iterators.length))
          { s with iterators := s.iterators ++ [it] } := ⟨rfl, it, h, rfl⟩
      exact ⟨⟨⟨hs.1.slot, hs.1.cache, hs.1.keys⟩, hL _ _ _ hstep Label.noConfusion hs.2⟩, hstep,
        _, rfl, _, rfl, rfl⟩

/-- What `__next__` does. -/
def NextPost (k : ℕ) (tr : List Label) (a : PyResult (Option (PyIpNetwork × PyObj))) : Prop :=
  tr = [.next k a]

lemma next_honours (hL : Stable cfg src L) (thread : ℕ) {k : ℕ}
    (hk : ∀ s, L s → k < s.iterators.length) :
    Honours cfg src L (NextPost k) (next cfg thread k) := by
  intro s hs
  obtain ⟨h1, h2⟩ :=
    ReaderIterator.next_returns cfg.ipnetwork (s.iterator k) _ (hs.1.keys thread)
  have hresult := congrArg Prod.fst h1
  have hrest := congrArg Prod.snd h1
  have hstep : ReaderStep cfg src s
      (.next k ((s.iterator k).next cfg.ipnetwork (s.keyCaches thread)).1.1)
      { s with
        iterators := s.iterators.set k
          ((s.iterator k).next cfg.ipnetwork (s.keyCaches thread)).1.2
        keyCaches := Function.update s.keyCaches thread
          ((s.iterator k).next cfg.ipnetwork (s.keyCaches thread)).2 } :=
    ⟨hk s hs.2, hresult, _, by rw [hrest]⟩
  refine ⟨⟨⟨hs.1.slot, hs.1.cache, fun th => ?_⟩, hL _ _ _ hstep Label.noConfusion hs.2⟩, hstep,
    rfl⟩
  by_cases hth : th = thread
  · subst hth
    show (Function.update s.keyCaches th _ th).Sound
    rw [Function.update_self]
    exact h2
  · show (Function.update s.keyCaches thread _ th).Sound
    rw [Function.update_of_ne hth]
    exact hs.1.keys th

end Methods

/-! ### The specification of every call -/

namespace Call

/-- The path argument of a call. -/
def path? {platform : Platform} : Call platform → Option PathArg
  | getPath _ _ path => some path
  | getManyPath _ _ path => some path
  | _ => none

/-- What a call in flight relies on: its tuple is alive, its iterator exists. -/
def Live {platform : Platform} : Call platform → ReaderState → Prop
  | getPath _ _ path, s => path.Alive s.pathCache
  | getManyPath _ _ path, s => path.Alive s.pathCache
  | next _ k, s => k < s.iterators.length
  | _, _ => True

/-- The specification of a method, about its result as a value. -/
def Returning {α : Type} (f : α → Value) (Q : List Label → PyResult α → Prop) (tr : List Label)
    (a : PyResult Value) : Prop :=
  ∃ r, Q tr r ∧ a = r.map f

/-- What each call does. -/
def Post (cfg : Config) (src : ReaderSource) :
    Call cfg.toPlatform → List Label → PyResult Value → Prop
  | closed => Returning .bool ClosedPost
  | get _ ipAddress => Returning .object (GetPost cfg src ipAddress)
  | getPath _ ipAddress path => Returning .object (GetPathPost cfg src ipAddress path)
  | getWithPrefixLen _ ipAddress =>
      Returning (fun r => .objectWithPrefix r.1 r.2) (GetWithPrefixLenPost cfg src ipAddress)
  | getMany _ ips => Returning .objects (GetManyPost cfg src ips)
  | getManyPath _ ips path => Returning .objects (GetManyPathPost cfg src ips path)
  | metadata => Returning .metadata (MetadataPost src)
  | close => Returning (fun _ => .none) ClosePost
  | enter => Returning (fun _ => .self) EnterPost
  | exit => Returning (fun _ => .none) ClosePost
  | iter => Returning .iterator (IterPost cfg src)
  | next _ k => Returning .item (NextPost k)

/-- What a call relies on, the others' steps leave alone. -/
lemma Live.step {c : Call cfg.toPlatform} {s s' : ReaderState} {l : Label} (hc : c.Live s)
    (hstep : ReaderStep cfg src s l s') : c.Live s' := by
  cases c with
  | getPath _ _ path => exact PathArg.Alive.congr hstep.heap hc
  | getManyPath _ _ path => exact PathArg.Alive.congr hstep.heap hc
  | next _ k => exact Nat.lt_of_lt_of_le hc hstep.iterators
  | _ => trivial

/-- From the specification of a method to that of its call. -/
lemma returning_honours {α : Type} {L : ReaderState → Prop}
    {Q : List Label → PyResult α → Prop} {m : Method α} (f : α → Value)
    (h : Honours cfg src L Q m) : Honours cfg src L (Returning f Q) (m.returning f) :=
  Sat.map h fun _ r hQ => ⟨r, hQ, rfl⟩

/-- **Every call honours its specification.** -/
theorem prog_honours (c : Call cfg.toPlatform) :
    Honours cfg src c.Live (Post cfg src c) (c.prog cfg) := by
  have hL : Stable cfg src c.Live := fun _ _ _ hstep _ hc => hc.step hstep
  have hstore : ∀ s s', ReaderStep cfg src s .store s' → c.Live s → c.Live s' :=
    fun _ _ hstep hc => hc.step hstep
  cases c with
  | closed => exact returning_honours _ closed_honours
  | get thread ipAddress => exact returning_honours _ (get_honours hL thread ipAddress)
  | getPath thread ipAddress path =>
      exact returning_honours _ (getPath_honours hL thread ipAddress fun _ h => h)
  | getWithPrefixLen thread ipAddress =>
      exact returning_honours _ (getWithPrefixLen_honours hL thread ipAddress)
  | getMany thread ips => exact returning_honours _ (getMany_honours hL thread ips)
  | getManyPath thread ips path =>
      exact returning_honours _ (getManyPath_honours hL thread ips fun _ h => h)
  | metadata => exact returning_honours _ metadata_honours
  | close => exact returning_honours _ (close_honours hstore)
  | enter => exact returning_honours _ enter_honours
  | exit => exact returning_honours _ (close_honours hstore)
  | iter => exact returning_honours _ (iter_honours hL)
  | next thread k => exact returning_honours _ (next_honours hL thread fun _ h => h)

end Call

/-! ### The system -/

/-- The calls in flight that pass a path, as the path cache sees them. -/
def RunningPath {platform : Platform} (running : Call platform → Prop) (path : PathArg) : Prop :=
  ∃ c, running c ∧ c.path? = some path

/-- What happens beside the calls: the environment of the path cache, and decodes for another
reader on some thread. -/
inductive ReaderEnv {platform : Platform} (running : Call platform → Prop) :
    ReaderState → ReaderState → Prop
  | path {s : ReaderState} {cache : PathCache}
      (h : PathEnv (RunningPath running) s.pathCache cache) :
      ReaderEnv running s { s with pathCache := cache }
  | decode {s : ReaderState} (thread : ℕ) (v : MMValue) :
      ReaderEnv running s { s with
        keyCaches := Function.update s.keyCaches thread (deserialize (s.keyCaches thread) v).2 }

/-- The callers of a reader. -/
def readerSystem (cfg : Config) :
    System (Call cfg.toPlatform) Label ReaderState (PyResult Value) where
  prog := Call.prog cfg
  canStart c s := c.Live s
  env := ReaderEnv

/-- The contract of a reader opened on a source. -/
def readerContract (cfg : Config) (src : ReaderSource) :
    Contract (Call cfg.toPlatform) Label ReaderState (PyResult Value) where
  inv := ReaderState.Inv cfg src
  live := Call.Live
  guar _ := ReaderStep cfg src
  post := Call.Post cfg src

/-- The environment keeps the invariant. -/
lemma ReaderState.Inv.env {s s' : ReaderState} (h : s.Inv cfg src)
    {running : Call cfg.toPlatform → Prop} (hs : ReaderEnv running s s') : s'.Inv cfg src := by
  cases hs with
  | path henv => exact ⟨h.slot, h.cache.env henv, h.keys⟩
  | decode thread v =>
      refine ⟨h.slot, h.cache, fun th => ?_⟩
      by_cases hth : th = thread
      · subst hth
        show (Function.update s.keyCaches th _ th).Sound
        rw [Function.update_self]
        exact (h.keys th).deserialize v
      · show (Function.update s.keyCaches thread _ th).Sound
        rw [Function.update_of_ne hth]
        exact h.keys th

/-- The environment leaves the slot and the iterators alone. -/
lemma ReaderEnv.unchanged {s s' : ReaderState} {running : Call cfg.toPlatform → Prop}
    (hs : ReaderEnv running s s') : s'.reader = s.reader ∧ s'.iterators = s.iterators := by
  cases hs <;> exact ⟨rfl, rfl⟩

/-- The environment leaves alone what a call in flight relies on. -/
lemma Call.Live.env {s s' : ReaderState} {c : Call cfg.toPlatform} (h : c.Live s)
    {running : Call cfg.toPlatform → Prop} (hc : running c) (hs : ReaderEnv running s s') :
    c.Live s' := by
  cases hs with
  | path henv =>
      cases c with
      | getPath thread ipAddress path => exact PathArg.Alive.env h ⟨_, hc, rfl⟩ henv
      | getManyPath thread ips path => exact PathArg.Alive.env h ⟨_, hc, rfl⟩ henv
      | _ => exact h
  | decode thread v => cases c <;> exact h

/-- **The specifications hold in every run.** -/
theorem readerContract_holds (cfg : Config) (src : ReaderSource) :
    (readerContract cfg src).Holds (readerSystem cfg) where
  start _ _ h _ := h
  prog c := c.prog_honours
  noninterference _ _ _ _ _ _ hstep h := h.step hstep
  env_inv _ _ _ hs h := h.env hs
  env_live _ _ _ _ hs hc _ h := h.env hc hs

/-! ### Reachable states -/

/-- A new reader satisfies the invariant. -/
lemma createReader_inv (cfg : Config) (src : ReaderSource) (heap : ℕ → Option PyTuple) :
    (createReader src heap).Inv cfg src :=
  ⟨Or.inr rfl, (PathCache.shape_new _ heap).toInv, fun _ => Memo.sound_nil⟩

/-- The states of a reader that was opened on a source, over all runs of its callers. -/
def ReaderState.Reachable (platform : Platform) (src : ReaderSource) (s : ReaderState) : Prop :=
  ∃ heap es, ∃ P : Pool ℕ _ Label ReaderState (PyResult Value),
    (readerSystem (createConfig platform src)).Run (createReader src heap) es P ∧ P.shared = s

lemma ReaderState.Reachable.inv {platform : Platform} {s : ReaderState}
    (h : s.Reachable platform src) : s.Inv (createConfig platform src) src := by
  obtain ⟨heap, es, P, run, rfl⟩ := h
  exact (readerContract_holds _ src).inv (createReader_inv _ src heap) run

/-- The states in which the reader is open. -/
structure ReaderState.Open (platform : Platform) (src : ReaderSource) (s : ReaderState) : Prop where
  reachable : s.Reachable platform src
  slot : s.reader = some src

/-- A new reader is open. -/
lemma createReader_open (platform : Platform) (src : ReaderSource) (heap : ℕ → Option PyTuple) :
    (createReader src heap).Open platform src :=
  ⟨⟨heap, [], _, .nil, rfl⟩, rfl⟩

/-- What a program made alone in a state of the reader does, while the reader stays open. -/
lemma exec_post {α : Type} {s : ReaderState} (h : s.Inv cfg src) {L : ReaderState → Prop}
    (hs : L s) (hopen : ∀ s, L s → s.reader = some src) {Q : List Label → α → Prop}
    {p : Prog Label ReaderState α} (hp : Honours cfg src L Q p) :
    Q (p.labels s) (p.value s) ∧ .load false ∉ p.labels s := by
  refine ⟨(Sat.exec hp ⟨h, hs⟩).2, fun hl => ?_⟩
  obtain ⟨s₁, s₂, ⟨-, hs₁⟩, hload, -⟩ := Sat.exec_step hp ⟨h, hs⟩ _ hl
  rw [hopen s₁ hs₁] at hload
  cases hload

/-- An open reader stays open through the steps of methods other than `close`. -/
lemma stable_open (cfg : Config) (src : ReaderSource) :
    Stable cfg src fun s => s.reader = some src := by
  intro s l s' hstep hl hs
  rcases hstep.slot with ⟨hsame, -⟩ | ⟨-, h⟩
  · rw [hsame, hs]
  · exact absurd h hl

/-! ### Single lookups on an open reader -/

section Open

variable {platform : Platform} {s : ReaderState}

/-- What `get` returns on an open reader. -/
lemma get_open (hs : s.Open platform src) (thread : ℕ)
    (x : PyObj) :
    (get (createConfig platform src) thread x).value s
      = parseLookupIp (createConfig platform src) x >>= lookupValue src := by
  obtain ⟨hpost, hl⟩ := exec_post hs.reachable.inv hs.slot (fun _ h => h)
    (get_honours (stable_open _ src) thread x)
  refine Parsed.eq_bind hpost fun ip hpost => ?_
  obtain ⟨tr, -, hQ⟩ := hpost.open_of_not_closed hl
  exact hQ.2

/-- What `get_with_prefix_len` returns on an open reader. -/
lemma getWithPrefixLen_open (hs : s.Open platform src) (thread : ℕ) (x : PyObj) :
    (getWithPrefixLen (createConfig platform src) thread x).value s
      = parseLookupIp (createConfig platform src) x >>= lookupPrefixValue src := by
  obtain ⟨hpost, hl⟩ := exec_post hs.reachable.inv hs.slot (fun _ h => h)
    (getWithPrefixLen_honours (stable_open _ src) thread x)
  refine Parsed.eq_bind hpost fun ip hpost => ?_
  obtain ⟨tr, -, hQ⟩ := hpost.open_of_not_closed hl
  exact hQ.2

/-- An open reader and a live path stay so through the steps of methods other than `close`. -/
lemma stable_open_alive (cfg : Config) (src : ReaderSource) (path : PathArg) :
    Stable cfg src fun s => s.reader = some src ∧ path.Alive s.pathCache :=
  fun s l s' hstep hl h =>
    ⟨stable_open cfg src s l s' hstep hl h.1, PathArg.Alive.congr hstep.heap h.2⟩

/-- What `get_path` returns on an open reader. -/
lemma getPath_open (hs : s.Open platform src) (thread : ℕ)
    (x : PyObj) {path : PathArg} (plain : path.Plain) (alive : path.Alive s.pathCache) :
    (getPath (createConfig platform src) thread x path).value s
      = parseLookupIp (createConfig platform src) x >>= fun ip =>
          parsePath platform.wordBits path >>= fun p => lookupPathValue src p ip := by
  obtain ⟨hpost, hl⟩ := exec_post hs.reachable.inv ⟨hs.slot, alive⟩ (fun _ h => h.1)
    (getPath_honours (stable_open_alive _ src path) thread x fun _ h => h.2)
  refine Parsed.eq_bind hpost fun ip hpost => ?_
  obtain ⟨tr₁, r, ⟨ls, -, -, hr, -⟩, hrest⟩ := hpost
  have hparse : parsePath platform.wordBits path = r := (hr plain).symm
  rw [hparse]
  cases r with
  | error e => exact hrest.2
  | ok p =>
      obtain ⟨tr₂, htr, hQ⟩ := hrest
      obtain ⟨tr, -, hQ⟩ := hQ.open_of_not_closed fun hm => hl (htr ▸ List.mem_append_right _ hm)
      exact hQ.2

end Open

/-- No IPv6 address passes the check of a reader of an IPv4 database. -/
lemma isV4_of_parseLookupIp (hcfg : cfg.ipVersion = 4) {x : PyObj} {ip : IpAddr}
    (h : parseLookupIp cfg x = .ok ip) : ∃ v, ip = .V4 v := by
  rw [parseLookupIp] at h
  cases hip : parseIpAddress cfg.std x with
  | error e =>
      rw [hip] at h
      cases h
  | ok ip' =>
      rw [hip] at h
      cases ip' with
      | V4 v =>
          cases h
          exact ⟨v, rfl⟩
      | V6 v =>
          simp only [validateLookupIp, if_pos hcfg] at h
          cases h

/-! ### A small reader -/

/-- A platform of 64-bit words, whose allocator has room for less than 2^40 bytes at once. -/
def smallPlatform : Platform where
  wordBits := 64
  allocates bytes := decide (bytes < 2 ^ 40)
  std := .strict fun _ => none
  ipnetwork := ⟨fun _ => .error "", fun _ _ => .error "", IpNetwork.ip⟩

/-- An IPv4 source in which every address has the record `true`. -/
def constantSource : ReaderSource := .Memory
  { metadata := ⟨2, 0, 0, "Constant", [], 4, [], 1, 24⟩
    lookup := fun _ => .ok ⟨.ok (.V4 0 0), some (.scalar (.bool true)), fun _ => .ok none⟩
    within := fun _ => .ok [] }

end MaxminddbRust
