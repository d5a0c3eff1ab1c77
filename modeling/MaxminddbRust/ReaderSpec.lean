import MaxminddbRust.Reader

/-!
What each method of a reader does, whatever the other callers do between its steps.

* `ReaderState.Inv`: the invariant of a reader that was opened on a source. `ReaderStep`: what
  each kind of step changes; it says once what the later results derive everything from.
* `Honours`: the judgement for methods of that reader.
* `Opened`, `Parsed`, `Resolved`: how a method begins, by loading the slot, parsing an address or
  resolving a path.
* `lookupValue`, `batchResult` and their companions: what a method returns on the source, as
  functions of its arguments.
* `get_honours`, `getPath_honours`, `getMany_honours` and so on: one specification for each
  method, with the labels it emits and the result it returns.
-/

namespace MaxminddbRust

open Concurrent
open Concurrent.Prog

/-! ### The invariant and the steps -/

/-- **The invariant of a reader opened on a source**: the slot holds that source or nothing, the
path cache satisfies its invariant, and the caches of key objects are sound. -/
structure ReaderState.Inv (cfg : Config) (src : ReaderSource) (s : ReaderState) : Prop where
  slot : s.reader = none ∨ s.reader = some src
  cache : s.pathCache.Inv cfg.wordBits
  keys : ∀ thread, (s.keyCaches thread).Sound

/-- What a step of `get_or_parse_path` may do to the path cache. -/
def CacheStep (w : ℕ) (s : PathCache) (l : CacheLabel) (s' : PathCache) : Prop :=
  ∃ c, s' = s ∨ Inserted w c s l s'

/-- **What a step does**, by its label. -/
def ReaderStep (cfg : Config) (src : ReaderSource) (s : ReaderState) :
    Label → ReaderState → Prop
  | .load isOpen, s' => isOpen = s.reader.isSome ∧ s' = s
  | .path l, s' => ∃ cache, CacheStep cfg.wordBits s.pathCache l cache ∧
      s' = { s with pathCache := cache }
  | .lookup _, s' => ∃ caches, s' = { s with keyCaches := caches }
  | .metadata, s' => s' = s
  | .within none, s' => s' = s
  | .within (some k), s' => k = s.iterators.length ∧
      ∃ it, ReaderIterator.new cfg.ipnetwork src = .ok it ∧
        s' = { s with iterators := s.iterators ++ [it] }
  | .pull, s' => s' = s
  | .store, s' => s' = { s with reader := none }
  | .next k result, s' => k < s.iterators.length ∧
      result = ReaderIterator.nextOutcome cfg.ipnetwork (s.iterator k).iter ∧
        ∃ caches, s' = { s with
          iterators := s.iterators.set k ⟨(s.iterator k).iter.tail⟩, keyCaches := caches }

namespace ReaderStep

variable {cfg : Config} {src : ReaderSource} {s s' : ReaderState} {l : Label}

/-- The slot changes only by being emptied. -/
lemma slot (h : ReaderStep cfg src s l s') :
    s'.reader = s.reader ∧ l ≠ .store ∨ s'.reader = none ∧ l = .store := by
  cases l with
  | store =>
      cases h
      exact Or.inr ⟨rfl, rfl⟩
  | load => exact Or.inl ⟨congrArg _ h.2, Label.noConfusion⟩
  | path =>
      obtain ⟨_, -, rfl⟩ := h
      exact Or.inl ⟨rfl, Label.noConfusion⟩
  | lookup =>
      obtain ⟨_, rfl⟩ := h
      exact Or.inl ⟨rfl, Label.noConfusion⟩
  | within k =>
      cases k with
      | none =>
          cases h
          exact Or.inl ⟨rfl, Label.noConfusion⟩
      | some k =>
          obtain ⟨-, _, -, rfl⟩ := h
          exact Or.inl ⟨rfl, Label.noConfusion⟩
  | next =>
      obtain ⟨-, -, _, rfl⟩ := h
      exact Or.inl ⟨rfl, Label.noConfusion⟩
  | metadata | pull =>
      cases h
      exact Or.inl ⟨rfl, Label.noConfusion⟩

/-- No step frees a tuple. -/
lemma heap (h : ReaderStep cfg src s l s') : s'.pathCache.heap = s.pathCache.heap := by
  cases l with
  | path =>
      obtain ⟨cache, ⟨c, rfl | ⟨_, _, _, -, -, -, -, rfl⟩⟩, rfl⟩ := h <;> rfl
  | load => rw [h.2]
  | lookup =>
      obtain ⟨_, rfl⟩ := h
      rfl
  | within k =>
      cases k with
      | none =>
          cases h
          rfl
      | some k =>
          obtain ⟨-, _, -, rfl⟩ := h
          rfl
  | next =>
      obtain ⟨-, -, _, rfl⟩ := h
      rfl
  | metadata | pull | store =>
      cases h
      rfl

/-- No step takes an iterator away. -/
lemma iterators (h : ReaderStep cfg src s l s') :
    s.iterators.length ≤ s'.iterators.length := by
  cases l with
  | path =>
      obtain ⟨_, -, rfl⟩ := h
      exact Nat.le_refl _
  | load => rw [h.2]
  | lookup =>
      obtain ⟨_, rfl⟩ := h
      exact Nat.le_refl _
  | within k =>
      cases k with
      | none =>
          cases h
          exact Nat.le_refl _
      | some k =>
          obtain ⟨-, _, -, rfl⟩ := h
          simp
  | next =>
      obtain ⟨-, -, _, rfl⟩ := h
      simp
  | metadata | pull | store =>
      cases h
      exact Nat.le_refl _

end ReaderStep

/-- Which tuples are alive depends on the heap alone. -/
lemma PathArg.Alive.congr {p : PathArg} {s s' : PathCache} (h : s'.heap = s.heap)
    (hp : p.Alive s) : p.Alive s' := by
  cases p with
  | tuple t override =>
      show s'.heap t.addr = some t
      rw [h]
      exact hp
  | _ => trivial

/-! ### The judgement for methods -/

/-- A program of a reader opened on `src` satisfies `Q`, relying on `L` beside the invariant. -/
def Honours {α : Type} (cfg : Config) (src : ReaderSource) (L : ReaderState → Prop)
    (Q : List Label → α → Prop) (p : Prog Label ReaderState α) : Prop :=
  p.Sat (fun s => s.Inv cfg src ∧ L s) (ReaderStep cfg src) Q

/-- What steps other than closing the reader cannot falsify. -/
def Stable (cfg : Config) (src : ReaderSource) (L : ReaderState → Prop) : Prop :=
  ∀ s l s', ReaderStep cfg src s l s' → l ≠ .store → L s → L s'

section Methods

variable {cfg : Config} {src : ReaderSource} {L : ReaderState → Prop}

/-- A step that changes nothing. -/
lemma honours_of_unchanged {α : Type} {Q : List Label → α → Prop} {label : ReaderState → Label}
    {next : ReaderState → Prog Label ReaderState α}
    (hstep : ∀ s, ReaderStep cfg src s (label s) s)
    (h : ∀ s, s.Inv cfg src ∧ L s → Honours cfg src L (fun tr a => Q (label s :: tr) a) (next s)) :
    Honours cfg src L Q (.atom label id next) :=
  fun s hs => ⟨hs, hstep s, h s hs⟩

/-- What a method does that loads the slot and goes on with what it found: it finds the source
and goes on as `Q` says, or it finds nothing and fails with `err`. -/
def Opened {α : Type} (err : PyErr) (Q : List Label → PyResult α → Prop) (tr : List Label)
    (a : PyResult α) : Prop :=
  tr = [.load false] ∧ a = .error err ∨ ∃ tr', tr = .load true :: tr' ∧ Q tr' a

namespace Opened

variable {α : Type} {err : PyErr} {Q : List Label → PyResult α → Prop} {tr : List Label}
  {a : PyResult α}

/-- A call that does not find the slot empty finds the source. -/
lemma open_of_not_closed (h : Opened err Q tr a) (hl : .load false ∉ tr) :
    ∃ tr', tr = .load true :: tr' ∧ Q tr' a := by
  rcases h with ⟨rfl, -⟩ | h
  · exact absurd (List.mem_singleton_self _) hl
  · exact h

/-- A call that finds the slot empty fails at once. -/
lemma of_closed (hQ : ∀ tr a, Q tr a → .load false ∉ tr) (h : Opened err Q tr a)
    (hl : .load false ∈ tr) : tr = [.load false] ∧ a = .error err := by
  rcases h with h | ⟨tr', rfl, h⟩
  · exact h
  · rcases List.mem_cons.mp hl with hl | hl
    · cases hl
    · exact absurd hl (hQ _ _ h)

lemma loads (h : Opened err Q tr a) : ∃ b, .load b ∈ tr := by
  rcases h with ⟨rfl, -⟩ | ⟨tr', rfl, -⟩
  · exact ⟨false, List.mem_singleton_self _⟩
  · exact ⟨true, List.mem_cons_self⟩

end Opened

/-- Loading the slot, and going on. -/
lemma load_andThen {α : Type} {err : PyErr} {Q : List Label → PyResult α → Prop}
    {f : ReaderSource → Method α} (h : Honours cfg src L Q (f src)) :
    Honours cfg src L (Opened err Q) ((load err).andThen f) := by
  rw [load, andThen_atom]
  refine honours_of_unchanged (fun s => ⟨rfl, rfl⟩) fun s hs => ?_
  rcases hs.1.slot with hslot | hslot
  · simp only [hslot, andThen_ret_error]
    exact Or.inl ⟨rfl, rfl⟩
  · simp only [hslot, andThen_ret_ok]
    exact Sat.imp h fun tr a hQ => Or.inr ⟨tr, rfl, hQ⟩

/-- A step that decodes. -/
lemma decodeStep_honours {α : Type} (hL : Stable cfg src L) (ip : IpAddr) (thread : ℕ)
    {f : Decoding α} {a : α} (h : f.Returns a) :
    Honours cfg src L (fun tr b => tr = [.lookup ip] ∧ b = a)
      (decodeStep (.lookup ip) thread f) := by
  intro s hs
  obtain ⟨h1, h2⟩ := h _ (hs.1.keys thread)
  have hkeys : ∀ th, (Function.update s.keyCaches thread (f (s.keyCaches thread)).2 th).Sound := by
    intro th
    by_cases hth : th = thread
    · subst hth
      rw [Function.update_self]
      exact h2
    · rw [Function.update_of_ne hth]
      exact hs.1.keys th
  refine ⟨⟨⟨hs.1.slot, hs.1.cache, hkeys⟩, ?_⟩, ⟨_, rfl⟩, rfl, h1⟩
  exact hL s (.lookup ip) _ ⟨_, rfl⟩ Label.noConfusion hs.2

/-! ### Single lookups -/

/-- What `get` returns for a parsed address. -/
def lookupValue (src : ReaderSource) (ip : IpAddr) : PyResult PyObj :=
  lookupResultToPython (src.lookupOutcome ip)

/-- What `get_path` returns for a parsed address and a parsed path. -/
def lookupPathValue (src : ReaderSource) (path : OwnedPath) (ip : IpAddr) : PyResult PyObj :=
  lookupResultToPython (src.lookupPathOutcome ip (pathElementsFromOwnedPath path))

/-- What `get_with_prefix_len` returns for a parsed address. -/
def lookupPrefixValue (src : ReaderSource) (ip : IpAddr) : PyResult (PyObj × ℕ) :=
  lookupPrefixResultToPython (src.lookupPrefixOutcome ip)

/-- One lookup of an address, returning a value. -/
def LookedUp {α : Type} (ip : IpAddr) (value : PyResult α) (tr : List Label) (a : PyResult α) :
    Prop :=
  tr = [.lookup ip] ∧ a = value

lemma lookupStep_honours (hL : Stable cfg src L) (thread : ℕ) (ip : IpAddr) :
    Honours cfg src L (LookedUp ip (lookupValue src ip)) (lookupStep thread src ip) :=
  Sat.map (decodeStep_honours hL ip thread (src.lookup_returns ip))
    fun _ _ ⟨htr, ha⟩ => ⟨htr, congrArg _ ha⟩

lemma lookupPathStep_honours (hL : Stable cfg src L) (thread : ℕ) (path : OwnedPath)
    (ip : IpAddr) :
    Honours cfg src L (LookedUp ip (lookupPathValue src path ip))
      (lookupPathStep thread src (pathElementsFromOwnedPath path) ip) :=
  Sat.map (decodeStep_honours hL ip thread (src.lookupPath_returns ip _))
    fun _ _ ⟨htr, ha⟩ => ⟨htr, congrArg _ ha⟩

/-- What a method does that parses its address and goes on: it fails before its first step, or it
goes on as `Q` says. -/
def Parsed {α : Type} (cfg : Config) (ipAddress : PyObj)
    (Q : IpAddr → List Label → PyResult α → Prop) (tr : List Label) (a : PyResult α) : Prop :=
  match parseLookupIp cfg ipAddress with
  | .error e => tr = [] ∧ a = .error e
  | .ok ip => Q ip tr a

namespace Parsed

variable {α : Type} {ipAddress : PyObj} {Q : IpAddr → List Label → PyResult α → Prop}
  {tr : List Label} {a : PyResult α}

/-- A call that takes a step has parsed its address. -/
lemma of_mem {l : Label} (h : Parsed cfg ipAddress Q tr a) (hl : l ∈ tr) : ∃ ip, Q ip tr a := by
  rw [Parsed] at h
  cases hip : parseLookupIp cfg ipAddress with
  | error e =>
      rw [hip] at h
      rw [h.1] at hl
      cases hl
  | ok ip =>
      rw [hip] at h
      exact ⟨ip, h⟩

lemma of_ok {ip : IpAddr} (h : Parsed cfg ipAddress Q tr a)
    (hip : parseLookupIp cfg ipAddress = .ok ip) : Q ip tr a := by
  rw [Parsed, hip] at h
  exact h

/-- The result, if it is fixed once the address is parsed. -/
lemma eq_bind {value : IpAddr → PyResult α} (h : Parsed cfg ipAddress Q tr a)
    (hQ : ∀ ip, Q ip tr a → a = value ip) : a = parseLookupIp cfg ipAddress >>= value := by
  rw [Parsed] at h
  cases hip : parseLookupIp cfg ipAddress with
  | error e =>
      rw [hip] at h
      exact h.2
  | ok ip =>
      rw [hip] at h
      exact hQ ip h

end Parsed

/-- Parsing the address, and going on. -/
lemma parsed_honours {α : Type} {Q : IpAddr → List Label → PyResult α → Prop}
    {f : IpAddr → Method α} (ipAddress : PyObj) (h : ∀ ip, Honours cfg src L (Q ip) (f ip)) :
    Honours cfg src L (Parsed cfg ipAddress Q) (match parseLookupIp cfg ipAddress with
      | .error e => .ret (.error e)
      | .ok ip => f ip) := by
  cases hip : parseLookupIp cfg ipAddress with
  | error e =>
      show Parsed cfg ipAddress Q [] (.error e)
      rw [Parsed, hip]
      exact ⟨rfl, rfl⟩
  | ok ip =>
      refine Sat.imp (h ip) fun tr a hpost => ?_
      rw [Parsed, hip]
      exact hpost

/-- What `get` does. -/
def GetPost (cfg : Config) (src : ReaderSource) (ipAddress : PyObj) :
    List Label → PyResult PyObj → Prop :=
  Parsed cfg ipAddress fun ip => Opened errClosed (LookedUp ip (lookupValue src ip))

lemma get_honours (hL : Stable cfg src L) (thread : ℕ) (ipAddress : PyObj) :
    Honours cfg src L (GetPost cfg src ipAddress) (get cfg thread ipAddress) :=
  parsed_honours ipAddress fun ip => load_andThen (lookupStep_honours hL thread ip)

/-- What `get_with_prefix_len` does. -/
def GetWithPrefixLenPost (cfg : Config) (src : ReaderSource) (ipAddress : PyObj) :
    List Label → PyResult (PyObj × ℕ) → Prop :=
  Parsed cfg ipAddress fun ip => Opened errClosed (LookedUp ip (lookupPrefixValue src ip))

lemma getWithPrefixLen_honours (hL : Stable cfg src L) (thread : ℕ) (ipAddress : PyObj) :
    Honours cfg src L (GetWithPrefixLenPost cfg src ipAddress)
      (getWithPrefixLen cfg thread ipAddress) := by
  refine parsed_honours ipAddress fun ip => load_andThen ?_
  exact Sat.map (decodeStep_honours hL ip thread (src.lookupPrefix_returns ip))
    fun _ _ ⟨htr, ha⟩ => ⟨htr, congrArg _ ha⟩

/-! ### Paths -/

/-- What `get_or_parse_path` does: its last step fixes the result, which is the parse of a path
whose iteration yields its stored items, and an error only if the parse is that error. -/
def PathPost (cfg : Config) (path : PathArg) (tr : List Label) (r : PyResult OwnedPath) : Prop :=
  ∃ ls : List CacheLabel, tr = ls.map .path ∧ ls.getLast?.bind CacheLabel.outcome = some r ∧
    (path.Plain → r = parsePath cfg.wordBits path) ∧
    ∀ e, r = .error e → parsePath cfg.wordBits path = .error e

lemma pathStep_honours (hL : Stable cfg src L) {path : PathArg}
    (hpath : ∀ s, L s → path.Alive s.pathCache) :
    Honours cfg src L (PathPost cfg path) (pathStep cfg path) := by
  refine Sat.zoom (fun s hs => ⟨hs.1.cache, trivial, hpath s hs.2⟩) (fun s l t hs ht hg => ?_)
    ((pathContract_holds_inv cfg.wordBits).prog path) fun tr a hpost => ⟨tr, rfl, hpost⟩
  have hstep : ReaderStep cfg src s (.path l) { s with pathCache := t } := ⟨t, ⟨path, hg⟩, rfl⟩
  exact ⟨⟨⟨hs.1.slot, ht.1, hs.1.keys⟩, hL _ _ _ hstep Label.noConfusion hs.2⟩, hstep⟩

/-- A method that resolves a path and goes on. -/
def Resolved {α : Type} (cfg : Config) (path : PathArg)
    (Q : OwnedPath → List Label → PyResult α → Prop) (tr : List Label) (a : PyResult α) : Prop :=
  ∃ tr₁ r, PathPost cfg path tr₁ r ∧ match r with
    | .error e => tr = tr₁ ∧ a = .error e
    | .ok ownedPath => ∃ tr₂, tr = tr₁ ++ tr₂ ∧ Q ownedPath tr₂ a

lemma pathStep_andThen {α : Type} {Q : OwnedPath → List Label → PyResult α → Prop}
    (hL : Stable cfg src L) {path : PathArg} (hpath : ∀ s, L s → path.Alive s.pathCache)
    {f : OwnedPath → Method α} (h : ∀ ownedPath, Honours cfg src L (Q ownedPath) (f ownedPath)) :
    Honours cfg src L (Resolved cfg path Q) ((pathStep cfg path).andThen f) := by
  refine Sat.andThen (pathStep_honours hL hpath) (fun tr e hpost => ?_) fun tr p hpost => ?_
  · exact ⟨tr, .error e, hpost, rfl, rfl⟩
  · exact Sat.imp (h p) fun tr' a hQ => ⟨tr, .ok p, hpost, tr', rfl, hQ⟩

/-- What `get_path` does. -/
def GetPathPost (cfg : Config) (src : ReaderSource) (ipAddress : PyObj) (path : PathArg) :
    List Label → PyResult PyObj → Prop :=
  Parsed cfg ipAddress fun ip => Resolved cfg path fun ownedPath =>
    Opened errClosed (LookedUp ip (lookupPathValue src ownedPath ip))

lemma getPath_honours (hL : Stable cfg src L) (thread : ℕ) (ipAddress : PyObj) {path : PathArg}
    (hpath : ∀ s, L s → path.Alive s.pathCache) :
    Honours cfg src L (GetPathPost cfg src ipAddress path) (getPath cfg thread ipAddress path) := by
  refine parsed_honours ipAddress fun ip => pathStep_andThen hL hpath fun ownedPath => ?_
  exact load_andThen (lookupPathStep_honours hL thread ownedPath ip)

/-! ### Batches -/

/-- The result of a batch over its items: those of the single lookups in order, or the first
error. -/
def itemsResult (cfg : Config) (value : IpAddr → PyResult PyObj) (items : List PyObj) :
    PyResult (List PyObj) :=
  items.mapM fun item => parseLookupIp cfg item >>= value

/-- The labels of a batch over its items, which ends at the first failing item. `pulls` are the
labels of asking for an item. -/
def itemsTrace (cfg : Config) (value : IpAddr → PyResult PyObj) (pulls : List Label) :
    List PyObj → List Label
  | [] => pulls
  | item :: items => pulls ++ match parseLookupIp cfg item with
      | .error _ => []
      | .ok ip => .lookup ip :: match value ip with
          | .error _ => []
          | .ok _ => itemsTrace cfg value pulls items

/-- The result of a batch whose iteration ends with `raises`. -/
def iterationResult (raises : Option PyErr) (result : PyResult (List PyObj)) :
    PyResult (List PyObj) :=
  result.bind fun objects => match raises with
    | some e => .error e
    | none => .ok objects

/-- The result of a batch. -/
def batchResult (cfg : Config) (value : IpAddr → PyResult PyObj) :
    BatchArg cfg.toPlatform → PyResult (List PyObj)
  | .list xs | .tuple xs => itemsResult cfg value xs.items
  | .iterable len iter => match withCapacity cfg.toPlatform (len.getD 0) with
      | .error e => .error e
      | .ok () => iterationResult iter.raises (itemsResult cfg value iter.items)
  | .bytesLike | .notIterable => .error errIps

/-- The labels of a batch. -/
def batchTrace (cfg : Config) (value : IpAddr → PyResult PyObj) :
    BatchArg cfg.toPlatform → List Label
  | .list xs | .tuple xs => itemsTrace cfg value [] xs.items
  | .iterable len iter => match withCapacity cfg.toPlatform (len.getD 0) with
      | .error _ => []
      | .ok () => itemsTrace cfg value [.pull] iter.items
  | .bytesLike | .notIterable => []

/-- What a batch does once its arguments are checked. -/
def BatchPost (cfg : Config) (value : IpAddr → PyResult PyObj) (ips : BatchArg cfg.toPlatform)
    (tr : List Label) (a : PyResult (List PyObj)) : Prop :=
  tr = batchTrace cfg value ips ∧ a = batchResult cfg value ips

/-- The first item fails, or the batch is its value and the rest. -/
lemma itemsResult_cons (cfg : Config) (value : IpAddr → PyResult PyObj) (item : PyObj)
    (items : List PyObj) :
    itemsResult cfg value (item :: items) = match parseLookupIp cfg item with
      | .error e => .error e
      | .ok ip => match value ip with
          | .error e => .error e
          | .ok object => (itemsResult cfg value items).map fun objects => object :: objects := by
  rw [itemsResult, List.mapM_cons]
  cases parseLookupIp cfg item with
  | error e => rfl
  | ok ip =>
      simp only [Bind.bind, Except.bind, Pure.pure, Except.pure]
      cases value ip <;> rfl

variable {value : IpAddr → PyResult PyObj} {single : IpAddr → Method PyObj}

lemma withCapacity_of_reserves {platform : Platform} {n : ℕ} (h : platform.Reserves n) :
    withCapacity platform n = .ok () := by
  rw [withCapacity, if_pos h.1, if_pos h.2]

/-- Nothing has to be reserved for no pointers. -/
lemma reserves_zero (platform : Platform) : platform.Reserves 0 := by
  have hzero : platform.pointerBytes 0 = 0 := Nat.zero_mul _
  refine ⟨?_, Or.inl hzero⟩
  rw [hzero]
  exact Nat.two_pow_pos _

/-- The loop over stored items. -/
lemma fromItemsLoop_honours
    (hsingle : ∀ ip, Honours cfg src L (LookedUp ip (value ip)) (single ip)) :
    ∀ (items objects : List PyObj),
      Honours cfg src L
        (fun tr a => tr = itemsTrace cfg value [] items ∧
          a = (itemsResult cfg value items).map fun rest => objects ++ rest)
        (fromItemsLoop cfg single objects items)
  | [], objects => ⟨rfl, by simp [itemsResult, Except.map, pure, Except.pure]⟩
  | item :: items, objects => by
      rw [fromItemsLoop, itemsTrace, itemsResult_cons]
      cases parseLookupIp cfg item with
      | error e => exact ⟨rfl, rfl⟩
      | ok ip =>
          refine Sat.andThen (hsingle ip) (fun tr e hpost => ?_) fun tr object hpost => ?_
          · obtain ⟨rfl, hvalue⟩ := hpost
            simp only [← hvalue]
            exact ⟨rfl, rfl⟩
          · obtain ⟨rfl, hvalue⟩ := hpost
            simp only [← hvalue]
            refine Sat.imp (fromItemsLoop_honours hsingle items (objects ++ [object]))
              fun tr a hpost => ?_
            obtain ⟨rfl, rfl⟩ := hpost
            refine ⟨rfl, ?_⟩
            cases itemsResult cfg value items <;> simp [Except.map]

/-- The loop over an iterator. -/
lemma iteratorLoop_honours (hsingle : ∀ ip, Honours cfg src L (LookedUp ip (value ip)) (single ip))
    (raises : Option PyErr) :
    ∀ (items objects : List PyObj),
      Honours cfg src L
        (fun tr a => tr = itemsTrace cfg value [.pull] items ∧
          a = iterationResult raises
            ((itemsResult cfg value items).map fun rest => objects ++ rest))
        (iteratorLoop cfg single raises objects items)
  | [], objects => by
      refine honours_of_unchanged (fun s => rfl) fun s hs => ⟨rfl, ?_⟩
      cases raises <;> simp [itemsResult, iterationResult, Except.map, Except.bind, pure,
        Except.pure]
  | item :: items, objects => by
      refine honours_of_unchanged (fun s => rfl) fun s hs => ?_
      rw [itemsTrace, itemsResult_cons]
      cases parseLookupIp cfg item with
      | error e => exact ⟨rfl, rfl⟩
      | ok ip =>
          refine Sat.andThen (hsingle ip) (fun tr e hpost => ?_) fun tr object hpost => ?_
          · obtain ⟨rfl, hvalue⟩ := hpost
            simp only [← hvalue]
            exact ⟨rfl, rfl⟩
          · obtain ⟨rfl, hvalue⟩ := hpost
            simp only [← hvalue]
            refine Sat.imp (iteratorLoop_honours hsingle raises items (objects ++ [object]))
              fun tr a hpost => ?_
            obtain ⟨rfl, rfl⟩ := hpost
            refine ⟨rfl, ?_⟩
            cases itemsResult cfg value items <;> simp [Except.map]

/-- There is room for the items of a list or a tuple. -/
lemma withCapacity_of_fits {platform : Platform} (xs : ItemArray platform) :
    withCapacity platform xs.items.length = .ok () := withCapacity_of_reserves xs.fits

lemma fromItems_honours (hsingle : ∀ ip, Honours cfg src L (LookedUp ip (value ip)) (single ip))
    (xs : ItemArray cfg.toPlatform) :
    Honours cfg src L
      (fun tr a => tr = itemsTrace cfg value [] xs.items ∧ a = itemsResult cfg value xs.items)
      (fromItems cfg single xs) := by
  rw [fromItems, withCapacity_of_fits]
  refine Sat.imp (fromItemsLoop_honours hsingle xs.items []) fun tr a hpost => ⟨hpost.1, ?_⟩
  rw [hpost.2]
  cases itemsResult cfg value xs.items <;> rfl

lemma batch_honours (hsingle : ∀ ip, Honours cfg src L (LookedUp ip (value ip)) (single ip))
    (ips : BatchArg cfg.toPlatform) :
    Honours cfg src L (BatchPost cfg value ips) (batch cfg single ips) := by
  cases ips with
  | list xs => exact fromItems_honours hsingle xs
  | tuple xs => exact fromItems_honours hsingle xs
  | iterable len iter =>
      rw [batch]
      cases hcap : withCapacity cfg.toPlatform (len.getD 0) with
      | error e =>
          show BatchPost cfg value (.iterable len iter) [] (.error e)
          rw [BatchPost, batchTrace, batchResult, hcap]
          exact ⟨rfl, rfl⟩
      | ok u =>
          refine Sat.imp (iteratorLoop_honours hsingle iter.raises iter.items [])
            fun tr a hpost => ?_
          rw [BatchPost, batchTrace, batchResult, hcap]
          refine ⟨hpost.1, hpost.2.trans ?_⟩
          cases itemsResult cfg value iter.items <;> rfl
  | bytesLike => exact ⟨rfl, rfl⟩
  | notIterable => exact ⟨rfl, rfl⟩

/-- What `get_many` does. -/
def GetManyPost (cfg : Config) (src : ReaderSource) (ips : BatchArg cfg.toPlatform) :
    List Label → PyResult (List PyObj) → Prop :=
  Opened errClosed (BatchPost cfg (lookupValue src) ips)

lemma getMany_honours (hL : Stable cfg src L) (thread : ℕ) (ips : BatchArg cfg.toPlatform) :
    Honours cfg src L (GetManyPost cfg src ips) (getMany cfg thread ips) := by
  refine load_andThen ?_
  cases ips with
  | bytesLike => exact ⟨rfl, rfl⟩
  | _ => exact batch_honours (lookupStep_honours hL thread) _

/-- What `get_many_path` does. -/
def GetManyPathPost (cfg : Config) (src : ReaderSource) (ips : BatchArg cfg.toPlatform)
    (path : PathArg) : List Label → PyResult (List PyObj) → Prop :=
  Opened errClosed <| if ips.isBytesLikeOrString then fun tr a => tr = [] ∧ a = .error errIps
    else Resolved cfg path fun ownedPath => BatchPost cfg (lookupPathValue src ownedPath) ips

lemma getManyPath_honours (hL : Stable cfg src L) (thread : ℕ) (ips : BatchArg cfg.toPlatform)
    {path : PathArg} (hpath : ∀ s, L s → path.Alive s.pathCache) :
    Honours cfg src L (GetManyPathPost cfg src ips path) (getManyPath cfg thread ips path) := by
  refine load_andThen ?_
  by_cases h : ips.isBytesLikeOrString
  · rw [if_pos h, if_pos h]
    exact ⟨rfl, rfl⟩
  · rw [if_neg h, if_neg h]
    exact pathStep_andThen hL hpath fun ownedPath =>
      batch_honours (lookupPathStep_honours hL thread ownedPath) ips

end Methods

end MaxminddbRust
