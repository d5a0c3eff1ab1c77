import MaxminddbRust.ReaderSystem

/-!
Batches are sequences of single lookups.

* `Sequential`: what it means that a batch is the sequence of single lookups. It returns all
  their results, or the first error and has then asked for and looked up nothing further.
* `items_sequential`: a batch over its items is that, by induction on the items.
* `BatchIsSingles`: `get_many` and `get_many_path` with a path are the sequences of `get` and
  `get_path`, on every reader and in all its states. `batch_eq_singles`: that is so exactly if
  iterating the path yields its stored items; `batch_ne_singles_override`: a tuple for which it
  does not.
-/

namespace MaxminddbRust

open Concurrent
open Concurrent.Prog

/-! ### Batches over their items -/

/-- `xs` is handed over as a list, as a tuple or as an iterator without `__len__`; `pulls` is
what asking for an item shows. -/
def BatchArg.Hands {platform : Platform} (xs : List PyObj) (pulls : List Label) :
    BatchArg platform → Prop
  | list a | tuple a => a.items = xs ∧ pulls = []
  | iterable len iter => len = none ∧ iter = ⟨xs, none⟩ ∧ pulls = [.pull]
  | _ => False

/-- What one item of a batch shows: asking for it, and the lookup if it is an address. -/
def attempt (cfg : Config) (pulls : List Label) (x : PyObj) : List Label :=
  pulls ++ match parseLookupIp cfg x with
    | .error _ => []
    | .ok ip => [.lookup ip]

/-- **A batch is the sequence of the single lookups** of `xs`. If all succeed it returns their
results. Otherwise it returns the error of the first that fails, and neither asks for nor looks
up anything after it. -/
structure Sequential (cfg : Config) (single : PyObj → PyResult PyObj) (pulls : List Label)
    (xs : List PyObj) (tr : List Label) (a : PyResult (List PyObj)) : Prop where
  success : ∀ objects, xs.map single = objects.map .ok →
    a = .ok objects ∧ tr = xs.flatMap (attempt cfg pulls) ++ pulls
  failure : ∀ before x after e, xs = before ++ x :: after →
    (∀ y ∈ before, ∃ object, single y = .ok object) → single x = .error e →
    a = .error e ∧ tr = (before ++ [x]).flatMap (attempt cfg pulls)

section Items

variable {cfg : Config} {value : IpAddr → PyResult PyObj}

/-- A single lookup succeeds if its address is valid and its value is there. -/
lemma single_eq_ok_iff {x object : PyObj} :
    (parseLookupIp cfg x >>= value) = .ok object ↔
      ∃ ip, parseLookupIp cfg x = .ok ip ∧ value ip = .ok object := by
  cases parseLookupIp cfg x <;> simp [Bind.bind, Except.bind]

/-- One item that succeeds. -/
lemma items_cons_of_ok {x object : PyObj} (h : (parseLookupIp cfg x >>= value) = .ok object)
    (pulls : List Label) (xs : List PyObj) :
    itemsTrace cfg value pulls (x :: xs) = attempt cfg pulls x ++ itemsTrace cfg value pulls xs ∧
      itemsResult cfg value (x :: xs)
        = (itemsResult cfg value xs).map fun objects => object :: objects := by
  obtain ⟨ip, hip, hvalue⟩ := single_eq_ok_iff.mp h
  rw [itemsTrace, itemsResult_cons, attempt, hip]
  simp only [hvalue, List.append_assoc, List.singleton_append, and_self]

/-- One item that fails. -/
lemma items_cons_of_error {x : PyObj} {e : PyErr} (h : (parseLookupIp cfg x >>= value) = .error e)
    (pulls : List Label) (xs : List PyObj) :
    itemsTrace cfg value pulls (x :: xs) = attempt cfg pulls x ∧
      itemsResult cfg value (x :: xs) = .error e := by
  rw [itemsTrace, itemsResult_cons, attempt]
  cases hip : parseLookupIp cfg x with
  | error e' =>
      rw [hip] at h
      obtain rfl : e' = e := Except.error.inj h
      exact ⟨by simp, rfl⟩
  | ok ip =>
      rw [hip] at h
      have hvalue : value ip = .error e := h
      simp only [hvalue]
      exact ⟨trivial, trivial⟩

/-- A batch over its items is the sequence of their single lookups. -/
lemma items_sequential (cfg : Config) (value : IpAddr → PyResult PyObj) (pulls : List Label)
    (xs : List PyObj) :
    Sequential cfg (fun x => parseLookupIp cfg x >>= value) pulls xs
      (itemsTrace cfg value pulls xs) (itemsResult cfg value xs) where
  success objects h := by
    induction xs generalizing objects with
    | nil =>
        obtain rfl := List.map_eq_nil_iff.mp h.symm
        exact ⟨rfl, rfl⟩
    | cons x xs ih =>
        cases objects with
        | nil => cases h
        | cons object objects =>
            obtain ⟨hx, hxs⟩ := List.cons.inj h
            obtain ⟨htr, hres⟩ := items_cons_of_ok hx pulls xs
            obtain ⟨ihres, ihtr⟩ := ih objects hxs
            rw [htr, hres, ihres, ihtr, List.flatMap_cons, List.append_assoc]
            exact ⟨rfl, rfl⟩
  failure before x after e hxs hbefore hx := by
    induction before generalizing xs with
    | nil =>
        rw [hxs]
        obtain ⟨htr, hres⟩ := items_cons_of_error hx pulls after
        rw [List.nil_append, htr, hres]
        exact ⟨rfl, by simp⟩
    | cons y before ih =>
        obtain ⟨object, hy⟩ := hbefore y List.mem_cons_self
        obtain ⟨htr, hres⟩ := items_cons_of_ok hy pulls (before ++ x :: after)
        obtain ⟨ih1, ih2⟩ := ih _ rfl fun z hz => hbefore z (List.mem_cons_of_mem _ hz)
        rw [hxs, List.cons_append, htr, hres, ih1, ih2, List.cons_append, List.flatMap_cons]
        exact ⟨rfl, rfl⟩

/-- What a batch is compared with are the results of its items alone. -/
lemma Sequential.congr {single single' : PyObj → PyResult PyObj} {pulls : List Label}
    {xs : List PyObj} {tr : List Label} {a : PyResult (List PyObj)}
    (h : Sequential cfg single pulls xs tr a) (heq : ∀ x ∈ xs, single x = single' x) :
    Sequential cfg single' pulls xs tr a where
  success objects hobjects :=
    h.success objects ((List.map_congr_left heq).trans hobjects)
  failure before x after e hxs hbefore hx := by
    have hmem : ∀ y ∈ before ++ [x], y ∈ xs := fun y hy => by
      rw [hxs, List.append_cons]
      exact List.mem_append_left _ hy
    refine h.failure before x after e hxs (fun y hy => ?_) ?_
    · rw [heq y (hmem y (List.mem_append_left _ hy))]
      exact hbefore y hy
    · rw [heq x (hmem x (List.mem_append_right _ (List.mem_singleton_self x)))]
      exact hx

/-- The three containers hand over their items alike. -/
lemma batchPost_of_hands {ips : BatchArg cfg.toPlatform} {xs : List PyObj} {pulls : List Label}
    (h : ips.Hands xs pulls) {tr : List Label} {a : PyResult (List PyObj)}
    (hpost : BatchPost cfg value ips tr a) :
    tr = itemsTrace cfg value pulls xs ∧ a = itemsResult cfg value xs := by
  cases ips with
  | list b =>
      obtain ⟨rfl, rfl⟩ := h
      exact hpost
  | tuple b =>
      obtain ⟨rfl, rfl⟩ := h
      exact hpost
  | iterable len iter =>
      obtain ⟨rfl, rfl, rfl⟩ := h
      have hcap : withCapacity cfg.toPlatform ((none : Option ℕ).getD 0) = .ok () :=
        withCapacity_of_reserves (reserves_zero _)
      rw [BatchPost, batchTrace, batchResult, hcap] at hpost
      refine ⟨hpost.1, hpost.2.trans ?_⟩
      cases itemsResult cfg value xs <;> rfl
  | bytesLike => exact h.elim
  | notIterable => exact h.elim

lemma not_bytesLike_of_hands {platform : Platform} {ips : BatchArg platform} {xs : List PyObj}
    {pulls : List Label} (h : ips.Hands xs pulls) : ips.isBytesLikeOrString = false := by
  cases ips with
  | bytesLike => exact h.elim
  | _ => rfl

/-- What a batch looks up are addresses of its items. -/
lemma lookup_mem_itemsTrace {pulls : List Label} (hpulls : ∀ ip, .lookup ip ∉ pulls) {ip : IpAddr} :
    ∀ {xs : List PyObj}, .lookup ip ∈ itemsTrace cfg value pulls xs →
      ∃ x ∈ xs, parseLookupIp cfg x = .ok ip
  | [], h => absurd h (hpulls ip)
  | x :: xs, h => by
      have hattempt : .lookup ip ∈ attempt cfg pulls x → parseLookupIp cfg x = .ok ip := by
        intro h
        rw [attempt] at h
        have h := (List.mem_append.mp h).resolve_left (hpulls ip)
        cases hip : parseLookupIp cfg x <;> rw [hip] at h
        · cases h
        · cases List.mem_singleton.mp h
          rfl
      cases hx : parseLookupIp cfg x >>= value with
      | error e =>
          rw [(items_cons_of_error hx pulls xs).1] at h
          exact ⟨x, List.mem_cons_self, hattempt h⟩
      | ok object =>
          rw [(items_cons_of_ok hx pulls xs).1] at h
          rcases List.mem_append.mp h with h | h
          · exact ⟨x, List.mem_cons_self, hattempt h⟩
          · obtain ⟨y, hy, hip⟩ := lookup_mem_itemsTrace hpulls h
            exact ⟨y, List.mem_cons_of_mem _ hy, hip⟩

lemma lookup_notMem_pulls {platform : Platform} {ips : BatchArg platform} {xs : List PyObj}
    {pulls : List Label} (h : ips.Hands xs pulls) (ip : IpAddr) : .lookup ip ∉ pulls := by
  cases ips with
  | list b =>
      obtain ⟨-, rfl⟩ := h
      simp
  | tuple b =>
      obtain ⟨-, rfl⟩ := h
      simp
  | iterable len iter =>
      obtain ⟨-, -, rfl⟩ := h
      simp
  | bytesLike => exact h.elim
  | notIterable => exact h.elim

end Items

/-! ### Batches and single lookups -/

section Batches

variable {platform : Platform} {src : ReaderSource}

/-- `single` is what `get` returns on each item, on some thread and in some state of the open
reader. -/
def GetReturns (platform : Platform) (src : ReaderSource) (xs : List PyObj)
    (single : PyObj → PyResult PyObj) : Prop :=
  ∀ x ∈ xs, ∃ thread s, ReaderState.Open platform src s ∧
    (get (createConfig platform src) thread x).value s = single x

/-- `single` is what `get_path` returns on each item and the path. -/
def GetPathReturns (platform : Platform) (src : ReaderSource) (path : PathArg) (xs : List PyObj)
    (single : PyObj → PyResult PyObj) : Prop :=
  ∀ x ∈ xs, ∃ thread s, ReaderState.Open platform src s ∧ path.Alive s.pathCache ∧
    (getPath (createConfig platform src) thread x path).value s = single x

/-- What `get` returns does not depend on the state. -/
lemma GetReturns.eq {xs : List PyObj} {single : PyObj → PyResult PyObj}
    (h : GetReturns platform src xs single) :
    ∀ x ∈ xs, (parseLookupIp (createConfig platform src) x >>= lookupValue src) = single x := by
  intro x hx
  obtain ⟨thread, s, hs, hsingle⟩ := h x hx
  calc (parseLookupIp (createConfig platform src) x >>= lookupValue src)
      = (get (createConfig platform src) thread x).value s := (get_open hs thread x).symm
    _ = single x := hsingle

/-- What `get_path` returns does not depend on the state. -/
lemma GetPathReturns.eq {path : PathArg} (plain : path.Plain) {p : OwnedPath}
    (hp : parsePath platform.wordBits path = .ok p) {xs : List PyObj}
    {single : PyObj → PyResult PyObj} (h : GetPathReturns platform src path xs single) :
    ∀ x ∈ xs,
      (parseLookupIp (createConfig platform src) x >>= lookupPathValue src p) = single x := by
  intro x hx
  obtain ⟨thread, s, hs, alive, hsingle⟩ := h x hx
  have hopen := getPath_open hs thread x plain alive
  rw [hp] at hopen
  calc (parseLookupIp (createConfig platform src) x >>= lookupPathValue src p)
      = (getPath (createConfig platform src) thread x path).value s := hopen.symm
    _ = single x := hsingle

/-- What `get_many` does on an open reader. -/
lemma getMany_items {ips : BatchArg (createConfig platform src).toPlatform} {xs : List PyObj}
    {pulls : List Label} (hips : ips.Hands xs pulls) {s : ReaderState} (hs : s.Open platform src)
    (thread : ℕ) :
    (getMany (createConfig platform src) thread ips).labels s
        = .load true :: itemsTrace (createConfig platform src) (lookupValue src) pulls xs ∧
      (getMany (createConfig platform src) thread ips).value s
        = itemsResult (createConfig platform src) (lookupValue src) xs := by
  obtain ⟨hpost, hl⟩ := exec_post hs.reachable.inv hs.slot (fun _ h => h)
    (getMany_honours (stable_open _ src) thread ips)
  obtain ⟨tr, htr, hbatch⟩ := hpost.open_of_not_closed hl
  obtain ⟨rfl, hvalue⟩ := batchPost_of_hands hips hbatch
  exact ⟨htr, hvalue⟩

/-- What `get_many_path` does on an open reader. -/
lemma getManyPath_items {ips : BatchArg (createConfig platform src).toPlatform} {xs : List PyObj}
    {pulls : List Label} (hips : ips.Hands xs pulls) {path : PathArg} (plain : path.Plain)
    {s : ReaderState} (hs : s.Open platform src) (alive : path.Alive s.pathCache) (thread : ℕ) :
    ∃ ls : List CacheLabel,
      (getManyPath (createConfig platform src) thread ips path).labels s
          = .load true :: (ls.map .path ++ match parsePath platform.wordBits path with
            | .error _ => []
            | .ok p =>
                itemsTrace (createConfig platform src) (lookupPathValue src p) pulls xs) ∧
        (getManyPath (createConfig platform src) thread ips path).value s
          = parsePath platform.wordBits path >>= fun p =>
              itemsResult (createConfig platform src) (lookupPathValue src p) xs := by
  obtain ⟨hpost, hl⟩ := exec_post hs.reachable.inv ⟨hs.slot, alive⟩ (fun _ h => h.1)
    (getManyPath_honours (stable_open_alive _ src path) thread ips fun _ h => h.2)
  obtain ⟨tr, htr, hQ⟩ := hpost.open_of_not_closed hl
  rw [not_bytesLike_of_hands hips, if_neg Bool.false_ne_true] at hQ
  obtain ⟨tr₁, r, ⟨ls, rfl, -, hr, -⟩, hrest⟩ := hQ
  have hparse : parsePath platform.wordBits path = r := (hr plain).symm
  refine ⟨ls, ?_⟩
  rw [hparse, htr]
  cases r with
  | error e =>
      obtain ⟨rfl, hvalue⟩ := hrest
      exact ⟨by simp, hvalue⟩
  | ok p =>
      obtain ⟨tr₂, rfl, hbatch⟩ := hrest
      obtain ⟨rfl, hvalue⟩ := batchPost_of_hands hips hbatch
      exact ⟨rfl, hvalue⟩

/-- **A batch is the sequence of its single lookups**, on every reader, for items handed over as a
list, as a tuple or as an iterator, and in every state in which the reader is open. A path that
the parser rejects fails with the parser's error before any lookup. The three kinds of container
give the same results, and no IPv6 address is looked up in an IPv4 database. -/
def BatchIsSingles (platform : Platform) (path : PathArg) : Prop :=
  ∀ (src : ReaderSource) (ips : BatchArg (createConfig platform src).toPlatform) (xs : List PyObj)
    (pulls : List Label), ips.Hands xs pulls → ∀ s : ReaderState, s.Open platform src →
    path.Alive s.pathCache → ∀ thread : ℕ,
    let many := getMany (createConfig platform src) thread ips
    let manyPath := getManyPath (createConfig platform src) thread ips path
    (∃ tr, many.labels s = .load true :: tr ∧ ∀ single, GetReturns platform src xs single →
        Sequential (createConfig platform src) single pulls xs tr (many.value s)) ∧
      (∃ ls : List CacheLabel, match parsePath platform.wordBits path with
        | .error e => manyPath.labels s = .load true :: ls.map .path ∧ manyPath.value s = .error e
        | .ok _ => ∃ tr, manyPath.labels s = .load true :: (ls.map .path ++ tr) ∧
            ∀ single, GetPathReturns platform src path xs single →
              Sequential (createConfig platform src) single pulls xs tr (manyPath.value s)) ∧
      (∀ ips' pulls', ips'.Hands xs pulls' → ∀ s' : ReaderState, s'.Open platform src →
        path.Alive s'.pathCache → ∀ thread',
          (getMany (createConfig platform src) thread' ips').value s' = many.value s ∧
            (getManyPath (createConfig platform src) thread' ips' path).value s'
              = manyPath.value s) ∧
      (src.metadata.ipVersion = 4 → ∀ ip, .lookup ip ∈ many.labels s ++ manyPath.labels s →
        ∃ v, ip = .V4 v)

/-- A path that iterates to its stored items means the same in all states of the cache. -/
lemma batchIsSingles_of_plain {path : PathArg} (plain : path.Plain) :
    BatchIsSingles platform path := by
  intro src ips xs pulls hips s hs alive thread
  obtain ⟨hlabels, hvalue⟩ := getMany_items hips hs thread
  obtain ⟨ls, hlabelsPath, hvaluePath⟩ := getManyPath_items hips plain hs alive thread
  have hpulls := lookup_notMem_pulls hips
  refine ⟨⟨_, hlabels, fun single hsingle => ?_⟩, ⟨ls, ?_⟩,
    fun ips' pulls' hips' s' hs' alive' thread' => ?_, fun hv4 ip hmem => ?_⟩
  · rw [hvalue]
    exact (items_sequential _ _ _ _).congr hsingle.eq
  · cases hp : parsePath platform.wordBits path with
    | error e =>
        rw [hp] at hlabelsPath hvaluePath
        rw [List.append_nil] at hlabelsPath
        exact ⟨hlabelsPath, hvaluePath⟩
    | ok p =>
        rw [hp] at hlabelsPath hvaluePath
        refine ⟨_, hlabelsPath, fun single hsingle => ?_⟩
        rw [hvaluePath]
        exact (items_sequential _ _ _ _).congr (hsingle.eq plain hp)
  · obtain ⟨-, hvaluePath'⟩ := (getManyPath_items hips' plain hs' alive' thread').choose_spec
    exact ⟨(getMany_items hips' hs' thread').2.trans hvalue.symm,
      hvaluePath'.trans hvaluePath.symm⟩
  · rw [hlabels, hlabelsPath] at hmem
    have hitems : ∀ value, .lookup ip ∈ itemsTrace (createConfig platform src) value pulls xs →
        ∃ v, ip = .V4 v := fun value h => by
      obtain ⟨x, -, hip⟩ := lookup_mem_itemsTrace hpulls h
      exact isV4_of_parseLookupIp hv4 hip
    cases hp : parsePath platform.wordBits path with
    | error e =>
        rw [hp] at hmem
        exact hitems (lookupValue src) (by simpa using hmem)
    | ok p =>
        rw [hp] at hmem
        have hor : .lookup ip ∈ itemsTrace (createConfig platform src) (lookupValue src) pulls xs ∨
            .lookup ip ∈
              itemsTrace (createConfig platform src) (lookupPathValue src p) pulls xs := by
          simpa using hmem
        exact hor.elim (hitems _) (hitems _)

/-! ### Paths that iterate to something else -/

/-- A source in which every address has the record `[true]`. -/
def arraySource : ReaderSource := .Memory
  { metadata := constantSource.metadata
    lookup := fun _ => .ok ⟨.ok (.V4 0 0), some (.array [.scalar (.bool true)]), fun path =>
      .ok (match path with
        | [] => some (.array [.scalar (.bool true)])
        | [.Index 0] => some (.scalar (.bool true))
        | _ => none)⟩
    within := fun _ => .ok [] }

/-- An address. -/
def oneAddress : PyObj := .str (.ofString "192.0.2.1")

/-- One address, handed over by an iterator. -/
def oneItem : BatchArg platform := .iterable none ⟨[oneAddress], none⟩

/-- What `get_many_path` returns on an open reader whose path has been resolved. -/
lemma value_getManyPath {s : ReaderState} (hs : s.Open platform src) {path : PathArg}
    (alive : path.Alive s.pathCache) {ownedPath : OwnedPath}
    (hpath : (pathStep (createConfig platform src) path).value s = .ok ownedPath)
    {ips : BatchArg (createConfig platform src).toPlatform}
    (hips : ips.isBytesLikeOrString = false) (thread : ℕ) :
    (getManyPath (createConfig platform src) thread ips path).value s
      = batchResult (createConfig platform src) (lookupPathValue src ownedPath) ips := by
  have hL := stable_open_alive (createConfig platform src) src path
  obtain ⟨hfinal, -⟩ := Sat.exec (pathStep_honours hL fun _ h => h.2)
    ⟨hs.reachable.inv, hs.slot, alive⟩
  have hbatch := (Sat.exec (batch_honours (lookupPathStep_honours hL thread ownedPath) ips)
    hfinal).2.2
  have hload : (load errClosed).value s = .ok src := by
    rw [load, value_atom, hs.slot]
    rfl
  rw [getManyPath, (ends_andThen_of_ok hload).1, hips, if_neg Bool.false_ne_true]
  exact (ends_andThen_of_ok hpath).1.trans hbatch

section Override

variable {t : PyTuple} {override : Option Iteration} {heap : ℕ → Option PyTuple}
  {ownedPath : OwnedPath}

/-- On a new reader a tuple is parsed, and its path cached. -/
lemma pathStep_new (hp : parsePath platform.wordBits (.tuple t override) = .ok ownedPath) :
    (pathStep (createConfig platform src) (.tuple t override)).value (createReader src heap)
        = .ok ownedPath ∧
      (pathStep (createConfig platform src) (.tuple t override)).final (createReader src heap)
        = { createReader src heap with pathCache := (PathCache.new heap).push (t, ownedPath) } := by
  have hmiss : lookupCachedPath platform.wordBits t (PathCache.new heap) = none := rfl
  have hpush : insertPath platform.wordBits t ownedPath (PathCache.new heap)
      = (PathCache.new heap).push (t, ownedPath) := rfl
  constructor <;>
    simp only [pathStep, getOrParsePath, zoom, value, final, exec, createReader, createConfig,
      hmiss, hp, id] <;> rfl

/-- Where the cache has an entry of the tuple, its path is that of the entry. -/
lemma pathStep_cached {s : ReaderState}
    (hs : s.pathCache = (PathCache.new heap).push (t, ownedPath)) :
    (pathStep (createConfig platform src) (.tuple t override)).value s = .ok ownedPath := by
  have hhit : lookupCachedPath platform.wordBits t ((PathCache.new heap).push (t, ownedPath))
      = some ownedPath := by
    simp [lookupCachedPath, lookupCachedPathInCache, PathCache.push, PathCache.new,
      BoundedQueue.push, pathCacheMaxEntries]
  simp only [pathStep, getOrParsePath, zoom, value, exec, createConfig, hs, hhit]

/-- There is a reader on which a tuple has been looked up when its iteration gave the items of a
path. -/
lemma exists_open_cached (hplain : ¬t.plain = true) {items : List PyObj}
    (hp : parseItems platform.wordBits none items [] = .ok ownedPath) :
    ∃ s : ReaderState, s.Open platform src ∧
      s.pathCache = (PathCache.new fun _ => some t).push (t, ownedPath) := by
  have hparse : parsePath platform.wordBits (.tuple t (some ⟨items, none⟩)) = .ok ownedPath :=
    by simp [parsePath, PathArg.tryIter, hplain, hp]
  obtain ⟨hvalue, hfinal⟩ : (pathStep (createConfig platform src) _).value
      (createReader src fun _ => some t) = .ok ownedPath ∧ _ := pathStep_new hparse
  have hload : (load errClosed).value (createReader src fun _ => some t) = .ok src := rfl
  have hbatch : ∀ single : IpAddr → Method PyObj,
      (batch (createConfig platform src) single (.iterable none ⟨[], none⟩)).final
        = (id : ReaderState → ReaderState) := fun single => by
    rw [batch, Option.getD_none, withCapacity_of_reserves (reserves_zero _)]
    rfl
  have hcall : (getManyPath (createConfig platform src) 0 (.iterable none ⟨[], none⟩)
      (.tuple t (some ⟨items, none⟩))).final (createReader src fun _ => some t)
      = { createReader src fun _ => some t with
          pathCache := (PathCache.new fun _ => some t).push (t, ownedPath) } := by
    rw [getManyPath, (ends_andThen_of_ok hload).2]
    show ((pathStep _ _).andThen _).final (createReader src fun _ => some t) = _
    rw [(ends_andThen_of_ok hvalue).2, hbatch, hfinal]
    rfl
  have start : (readerSystem (createConfig platform src)).Run
    (createReader src fun _ => some t) [] _ := .nil (ι := ℕ)
  have cached := start.exec (i := 0)
    (c := .getManyPath 0 (.iterable none ⟨[], none⟩) (.tuple t (some ⟨items, none⟩))) rfl rfl
  have hshared : (Call.prog (createConfig platform src) (.getManyPath 0 (.iterable none ⟨[], none⟩)
      (.tuple t (some ⟨items, none⟩)))).final (createReader src fun _ => some t)
      = { createReader src fun _ => some t with
          pathCache := (PathCache.new fun _ => some t).push (t, ownedPath) } := by
    rw [← hcall]
    exact final_bind _ _ _
  exact ⟨_, ⟨⟨fun _ => some t, _, _, cached, hshared⟩, rfl⟩, rfl⟩

/-- A batch of one address is its lookup. -/
lemma batchResult_oneItem (platform : Platform) (value : IpAddr → PyResult PyObj) :
    batchResult (createConfig platform arraySource) value oneItem
      = (value (.V4 0xC0000201)).map fun object => [object] := by
  have hip : parseLookupIp (createConfig platform arraySource) oneAddress
      = .ok (.V4 0xC0000201) := rfl
  rw [oneItem, batchResult, Option.getD_none, withCapacity_of_reserves (reserves_zero _)]
  simp only [itemsResult_cons, hip]
  cases value (.V4 0xC0000201) <;> rfl

/-- The source tells the empty path from every other. -/
lemma lookupPathValue_arraySource (path : OwnedPath) : ∃ object,
    lookupPathValue arraySource path (.V4 0xC0000201) = .ok object ∧
      (path ≠ [] → object ≠ .list [.bool true]) := by
  cases path with
  | nil => exact ⟨_, rfl, fun h => absurd rfl h⟩
  | cons element rest =>
      cases element with
      | Key key => exact ⟨.none, rfl, fun _ h => by cases h⟩
      | IndexFromEnd index => exact ⟨.none, rfl, fun _ h => by cases h⟩
      | Index index =>
          cases index <;> cases rest <;> exact ⟨_, rfl, fun _ h => by cases h⟩

/-- A tuple whose iteration may give something else than its stored items: with the path of an
earlier iteration in the cache, `get_many_path` does not return what it returns on a new reader. -/
lemma not_batchIsSingles_of_override (hplain : ¬t.plain = true) :
    ¬BatchIsSingles platform (.tuple t override) := by
  intro h
  -- an earlier iteration, which gave another path than the parser makes now
  have hearlier : ∃ items earlier object, parseItems platform.wordBits none items [] = .ok earlier ∧
      lookupPathValue arraySource earlier (.V4 0xC0000201) = .ok object ∧
      ∀ p, parsePath platform.wordBits (.tuple t override) = .ok p →
        lookupPathValue arraySource p (.V4 0xC0000201) ≠ .ok object := by
    by_cases hempty : parsePath platform.wordBits (.tuple t override) = .ok []
    · refine ⟨[.str (.ofString "a")], [.Key "a"], .none, ?_, rfl, fun p hp hvalue => ?_⟩
      · simp [parseItems, parseElement, PyObj.isBool, PyObj.extractString]
      · obtain rfl := Except.ok.inj (hempty.symm.trans hp)
        cases hvalue
    · refine ⟨[], [], .list [.bool true], rfl, rfl, fun p hp hvalue => ?_⟩
      obtain ⟨object, hobject, hne⟩ := lookupPathValue_arraySource p
      obtain rfl := Except.ok.inj (hobject.symm.trans hvalue)
      exact hne (fun hnil => hempty (hnil ▸ hp)) rfl
  obtain ⟨items, earlier, object, hitems, hobject, hne⟩ := hearlier
  obtain ⟨s, hs, hcache⟩ : ∃ s : ReaderState, s.Open platform arraySource ∧ _ :=
    exists_open_cached hplain hitems
  have hnew := createReader_open platform arraySource fun _ => some t
  have alive : PathArg.Alive (.tuple t override) s.pathCache := by
    rw [hcache]
    rfl
  have hcached : (getManyPath (createConfig platform arraySource) 0 oneItem _).value s = _ :=
    value_getManyPath hs alive (pathStep_cached hcache) rfl 0
  rw [batchResult_oneItem, hobject] at hcached
  have hsame := ((h arraySource oneItem [oneAddress] [.pull] ⟨rfl, rfl, rfl⟩ s hs alive 0).2.2.1
    oneItem [.pull] ⟨rfl, rfl, rfl⟩ _ hnew rfl 0).2
  rw [hcached] at hsame
  cases hp : parsePath platform.wordBits (.tuple t override) with
  | ok p =>
      have hfirst : (getManyPath (createConfig platform arraySource) 0 oneItem
          (.tuple t override)).value (createReader arraySource fun _ => some t) = _ :=
        value_getManyPath hnew (by rfl) (pathStep_new hp).1 rfl 0
      rw [hsame, batchResult_oneItem] at hfirst
      obtain ⟨object', hobject', -⟩ := lookupPathValue_arraySource p
      rw [hobject'] at hfirst
      refine hne p hp (hobject'.trans (congrArg _ ?_))
      exact (List.cons.inj (Except.ok.inj hfirst)).1.symm
  | error e =>
      have hrejected := (h arraySource oneItem [oneAddress] [.pull] ⟨rfl, rfl, rfl⟩ s hs alive
        0).2.1
      rw [hp] at hrejected
      obtain ⟨ls, -, herror⟩ := hrejected
      rw [hcached] at herror
      cases herror

end Override

/-- **The paths for which a batch is the sequence of its single lookups** are those whose iteration
yields their stored items. For a tuple of a class that overrides `__iter__` there is a reader with
a state of its path cache in which it is not. -/
theorem batch_eq_singles (platform : Platform) (path : PathArg) :
    BatchIsSingles platform path ↔ path.Plain := by
  refine ⟨fun h => ?_, batchIsSingles_of_plain⟩
  cases path with
  | tuple t override =>
      by_contra hplain
      exact not_batchIsSingles_of_override hplain h
  | _ => trivial

/-- Three items of which the second is no address: a list and an iterator fail with its error, and
the iterator is asked for nothing more. A batch of the first and the third returns both records. -/
theorem batch_eq_singles_threeItems :
    let cfg := createConfig smallPlatform constantSource
    let s := createReader constantSource fun _ => none
    let xs : List PyObj := [oneAddress, .int 7, oneAddress]
    let iterator : BatchArg cfg.toPlatform := .iterable none ⟨xs, none⟩
    (getMany cfg 0 (.list ⟨xs, by decide⟩)).value s = .error errAddressType ∧
      (getMany cfg 0 iterator).value s = .error errAddressType ∧
      (getMany cfg 0 iterator).labels s
        = [.load true, .pull, .lookup (.V4 0xC0000201), .pull] ∧
      (getMany cfg 0 (.tuple ⟨[oneAddress, oneAddress], by decide⟩)).value s
        = .ok [.bool true, .bool true] := by
  intro cfg s xs iterator
  have hs : s.Open smallPlatform constantSource := createReader_open _ _ _
  have hbatch : BatchIsSingles smallPlatform (.list []) :=
    (batch_eq_singles smallPlatform (.list [])).mpr trivial
  have hget : ∀ items : List PyObj, GetReturns smallPlatform constantSource items
      fun x => (get cfg 0 x).value s := fun items x _ => ⟨0, s, hs, rfl⟩
  have hfirst : ∀ y ∈ [oneAddress], ∃ object, (get cfg 0 y).value s = .ok object := fun y hy => by
    obtain rfl := List.mem_singleton.mp hy
    exact ⟨_, rfl⟩
  obtain ⟨tr, -, hlist⟩ := (hbatch constantSource (.list ⟨xs, by decide⟩) xs [] ⟨rfl, rfl⟩ s hs
    trivial 0).1
  obtain ⟨tr', htr', hiterator⟩ := (hbatch constantSource iterator xs [.pull] ⟨rfl, rfl, rfl⟩ s hs
    trivial 0).1
  obtain ⟨tr'', -, htuple⟩ := (hbatch constantSource
    (.tuple ⟨[oneAddress, oneAddress], by decide⟩) [oneAddress, oneAddress] [] ⟨rfl, rfl⟩ s hs
    trivial 0).1
  obtain ⟨herror, htrace⟩ := (hiterator _ (hget xs)).failure [oneAddress] (.int 7) [oneAddress] _
    rfl hfirst rfl
  refine ⟨((hlist _ (hget xs)).failure [oneAddress] (.int 7) [oneAddress] _ rfl hfirst rfl).1,
    herror, ?_, ((htuple _ (hget _)).success [.bool true, .bool true] rfl).1⟩
  rw [htr', htrace]
  rfl

/-- A tuple with the item `0`. -/
def plainTuple : PyTuple := ⟨0, [.int 0], true⟩

/-- A tuple with the item `0` whose class makes its iteration yield `1`. -/
def overridingPath : PathArg := .tuple ⟨1, [.int 0], false⟩ (some ⟨[.int 1], none⟩)

/-- These two tuples are alive. -/
def twoTuples (a : ℕ) : Option PyTuple :=
  if a = 0 then some plainTuple else some ⟨1, [.int 0], false⟩

/-- A reader that has looked up the plain tuple. -/
def plainTupleCached : ReaderState :=
  (getPath (createConfig smallPlatform arraySource) 0 oneAddress
    (.tuple plainTuple none)).final (createReader arraySource twoTuples)

lemma plainTupleCached_open : plainTupleCached.Open smallPlatform arraySource := by
  have start : (readerSystem (createConfig smallPlatform arraySource)).Run
    (createReader arraySource twoTuples) [] _ := .nil (ι := ℕ)
  have cached := start.exec (i := 0) (c := .getPath 0 oneAddress (.tuple plainTuple none)) rfl rfl
  exact ⟨⟨twoTuples, _, _, cached, rfl⟩, rfl⟩

/-- A tuple whose class makes its iteration yield something else than its stored items is parsed
from that by `get_path` on a new reader, and taken for its stored items by `get_many_path` where
the path cache holds these. -/
theorem batch_ne_singles_override :
    parsePath 64 overridingPath = .ok [.Index 1] ∧
      ∃ s s' : ReaderState, s.Open smallPlatform arraySource ∧ s'.Open smallPlatform arraySource ∧
        overridingPath.Alive s.pathCache ∧ overridingPath.Alive s'.pathCache ∧
        (getPath (createConfig smallPlatform arraySource) 0 oneAddress
          overridingPath).value s' = .ok .none ∧
        (getManyPath (createConfig smallPlatform arraySource) 0 oneItem
          overridingPath).value s = .ok [.bool true] :=
  ⟨rfl, plainTupleCached, createReader arraySource twoTuples, plainTupleCached_open,
    createReader_open _ _ _, rfl, rfl, rfl, rfl⟩

end Batches

end MaxminddbRust
