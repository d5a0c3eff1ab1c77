import MaxminddbRust.Path
import MaxminddbRust.Concurrent.Pool
import MaxminddbRust.Data.BoundedQueue

/-!
The path cache of a reader: `get_or_parse_path` and `lookup_cached_path` of `lib.rs`.

* `PathCache`: the cached entries, the tuples that are alive and, for the statements, the log of
  all insertions. `getOrParsePath` is three atomic steps: a locked lookup, an unlocked parse, a
  locked re-check with eviction and insertion.
* `pathSystem`: any number of callers, and an environment that allocates tuples, frees those that
  nothing refers to, and poisons the lock.
* `PathCache.Inv`, `PathCache.Shape`: what holds of the cache in every run, for arbitrary tuples
  and for tuples whose iteration yields their stored items.
* `getOrParsePath_eq_parsePath`: the cache never changes what a path means;
  `pathCache_shape`: what the cache holds.
-/

namespace MaxminddbRust

open Concurrent
open Concurrent.Prog

/-! ### The cache and its operations -/

/-- `PATH_CACHE_MAX_ENTRIES`. -/
def pathCacheMaxEntries : ℕ := 64

/-- `CachedPath`: a tuple, which the entry keeps alive, and its parsed path. -/
abbrev CachedPath := PyTuple × OwnedPath

/-- The field `path_cache` with the oldest entry first, whether its lock is poisoned, the tuple
alive at each address, and the log of all insertions. -/
structure PathCache where
  entries : List CachedPath
  poisoned : Bool
  heap : ℕ → Option PyTuple
  inserted : List CachedPath

namespace PathCache

/-- The cache of a new reader. -/
def new (heap : ℕ → Option PyTuple) : PathCache := ⟨[], false, heap, []⟩

/-- Eviction of the oldest entry of a full cache, and insertion. -/
def push (s : PathCache) (e : CachedPath) : PathCache :=
  { s with
    entries := BoundedQueue.push pathCacheMaxEntries s.entries e
    inserted := s.inserted ++ [e] }

end PathCache

/-- `lookup_cached_path_in_cache`: the entry of the same tuple, or else the first entry whose
path the tuple matches. -/
def lookupCachedPathInCache (w : ℕ) (path : PyTuple) (cache : List CachedPath) :
    Option OwnedPath :=
  ((cache.find? fun e => e.1.addr == path.addr).or
    (cache.find? fun e => pathTupleMatchesOwned w path e.2)).map Prod.snd

/-- `lookup_cached_path`: a poisoned lock is a miss. -/
def lookupCachedPath (w : ℕ) (path : PyTuple) (s : PathCache) : Option OwnedPath :=
  if s.poisoned then none else lookupCachedPathInCache w path s.entries

/-- The cache after the second critical section of `get_or_parse_path`. -/
def insertPath (w : ℕ) (path : PyTuple) (parsed : OwnedPath) (s : PathCache) : PathCache :=
  if s.poisoned then s
  else match lookupCachedPathInCache w path s.entries with
    | some _ => s
    | none => s.push (path, parsed)

/-- What the second critical section returns. -/
def insertedPath (w : ℕ) (path : PyTuple) (parsed : OwnedPath) (s : PathCache) : OwnedPath :=
  (lookupCachedPath w path s).getD parsed

/-- What an atomic step of `get_or_parse_path` is seen to do. -/
inductive CacheLabel where
  | lookupPath (hit : Option OwnedPath)
  | parsePath (result : PyResult OwnedPath)
  | insertPath (path : OwnedPath)

/-- `get_or_parse_path`. -/
def getOrParsePath (w : ℕ) (path : PathArg) : Prog CacheLabel PathCache (PyResult OwnedPath) :=
  match path with
  | .tuple t override =>
      .atom (fun s => .lookupPath (lookupCachedPath w t s)) id fun s =>
        match lookupCachedPath w t s with
        | some cachedPath => .ret (.ok cachedPath)
        | none => .atom (fun _ => .parsePath (parsePath w (.tuple t override))) id fun _ =>
            match parsePath w (.tuple t override) with
            | .error e => .ret (.error e)
            | .ok parsed => .atom (fun s => .insertPath (insertedPath w t parsed s))
                (insertPath w t parsed) fun s => .ret (.ok (insertedPath w t parsed s))
  | path => .atom (fun _ => .parsePath (parsePath w path)) id fun _ => .ret (parsePath w path)

/-! ### The callers and their environment -/

/-- The tuple that a caller passes is alive while the call is in flight. -/
def PathArg.Alive : PathArg → PathCache → Prop
  | tuple t _, s => s.heap t.addr = some t
  | _, _ => True

/-- Iterating a tuple yields its stored items. -/
def PathArg.Plain : PathArg → Prop
  | tuple t _ => t.plain = true
  | _ => True

/-- The calls in flight that the predicate describes refer to no tuple at an address. -/
def Unused (running : PathArg → Prop) (a : ℕ) : Prop :=
  ∀ t override, running (.tuple t override) → t.addr ≠ a

/-- What Python does beside the calls: it allocates a tuple at a free address, frees a tuple
that neither the cache nor a call in flight refers to, and poisons the lock. -/
inductive PathEnv (running : PathArg → Prop) : PathCache → PathCache → Prop
  | alloc {s : PathCache} (t : PyTuple) (free : s.heap t.addr = none) :
      PathEnv running s { s with heap := Function.update s.heap t.addr (some t) }
  | free {s : PathCache} (a : ℕ) (uncached : ∀ e ∈ s.entries, e.1.addr ≠ a)
      (unused : Unused running a) :
      PathEnv running s { s with heap := Function.update s.heap a none }
  | poison {s : PathCache} : PathEnv running s { s with poisoned := true }

/-- Callers of `get_or_parse_path` with paths that are `allowed`. -/
def pathSystem (w : ℕ) (allowed : PathArg → Prop) :
    System PathArg CacheLabel PathCache (PyResult OwnedPath) where
  prog := getOrParsePath w
  canStart c s := allowed c ∧ c.Alive s
  env := PathEnv

/-! ### The lookup -/

variable {w : ℕ}

/-- A hit is an entry of the same tuple or of a path that the tuple matches. -/
lemma lookupCachedPathInCache_eq_some {t : PyTuple} {cache : List CachedPath} {p : OwnedPath}
    (h : lookupCachedPathInCache w t cache = some p) :
    ∃ e ∈ cache, e.2 = p ∧ (e.1.addr = t.addr ∨ pathTupleMatchesOwned w t p = true) := by
  rw [lookupCachedPathInCache, Option.map_eq_some_iff] at h
  obtain ⟨e, he, rfl⟩ := h
  rcases Option.or_eq_some_iff.mp he with he | ⟨-, he⟩
  · exact ⟨e, List.mem_of_find?_eq_some he, rfl, Or.inl (by simpa using List.find?_some he)⟩
  · exact ⟨e, List.mem_of_find?_eq_some he, rfl, Or.inr (by simpa using List.find?_some he)⟩

/-- A miss: no entry has a path that the tuple matches. -/
lemma notMem_of_lookupCachedPathInCache {t : PyTuple} {cache : List CachedPath} {p : OwnedPath}
    (h : lookupCachedPathInCache w t cache = none) (hp : pathTupleMatchesOwned w t p = true) :
    p ∉ cache.map Prod.snd := by
  rw [lookupCachedPathInCache, Option.map_eq_none_iff, Option.or_eq_none_iff] at h
  intro hmem
  obtain ⟨e, he, rfl⟩ := List.mem_map.mp hmem
  exact absurd hp (by simpa using List.find?_eq_none.mp h.2 e he)

/-! ### The invariants -/

namespace PathCache

/-- **The invariant of the cache**: the tuples of the entries are alive, an entry whose tuple
iterates to its stored items holds the path they parse to, and the entries are the most recent
insertions. -/
structure Inv (w : ℕ) (s : PathCache) : Prop where
  alive : ∀ e ∈ s.entries, s.heap e.1.addr = some e.1
  parsed : ∀ e ∈ s.entries, e.1.plain = true → parseItems w none e.1.items [] = .ok e.2
  recent : s.entries = s.inserted.rtake pathCacheMaxEntries

/-- The invariant over plain tuples: all entries are of such tuples, and their paths are
distinct. -/
structure Shape (w : ℕ) (s : PathCache) : Prop extends Inv w s where
  plain : ∀ e ∈ s.entries, e.1.plain = true
  nodup : (s.entries.map Prod.snd).Nodup

lemma shape_new (w : ℕ) (heap : ℕ → Option PyTuple) : Shape w (new heap) :=
  ⟨⟨by simp [new], by simp [new], by simp [new]⟩, by simp [new], by simp [new]⟩

variable {s : PathCache}

/-- **A hit means what parsing means**, for a live tuple whose iteration yields its items. -/
lemma Inv.of_hit (h : Inv w s) {t : PyTuple} (alive : s.heap t.addr = some t)
    (plain : t.plain = true) {p : OwnedPath}
    (hit : lookupCachedPathInCache w t s.entries = some p) :
    parseItems w none t.items [] = .ok p := by
  obtain ⟨e, he, rfl, haddr | hmatch⟩ := lookupCachedPathInCache_eq_some hit
  · -- two live tuples at one address are one tuple
    have hsame : e.1 = t := by
      have hheap := h.alive e he
      rw [haddr, alive] at hheap
      exact (Option.some.inj hheap).symm
    have hparsed := h.parsed e he (hsame ▸ plain)
    rwa [hsame] at hparsed
  · exact pathTupleMatchesOwned_iff.mp hmatch

/-- An insertion keeps the invariant. -/
lemma Inv.push (h : Inv w s) {t : PyTuple} {p : OwnedPath} (alive : s.heap t.addr = some t)
    (parsed : t.plain = true → parseItems w none t.items [] = .ok p) : Inv w (s.push (t, p)) := by
  have hmem : ∀ e ∈ (s.push (t, p)).entries, e ∈ s.entries ∨ e = (t, p) :=
    fun e he => BoundedQueue.mem_of_mem_push he
  refine ⟨fun e he => ?_, fun e he => ?_, ?_⟩
  · rcases hmem e he with he | rfl
    · exact h.alive e he
    · exact alive
  · rcases hmem e he with he | rfl
    · exact h.parsed e he
    · exact parsed
  · show BoundedQueue.push _ s.entries _ = _
    rw [h.recent, BoundedQueue.push_rtake (by decide)]
    rfl

/-- An insertion after a miss keeps the invariant over plain tuples. -/
lemma Shape.push (h : Shape w s) {t : PyTuple} {p : OwnedPath} (alive : s.heap t.addr = some t)
    (plain : t.plain = true) (parsed : parseItems w none t.items [] = .ok p)
    (miss : lookupCachedPathInCache w t s.entries = none) : Shape w (s.push (t, p)) := by
  refine ⟨h.toInv.push alive fun _ => parsed, fun e he => ?_, ?_⟩
  · rcases BoundedQueue.mem_of_mem_push he with he | rfl
    · exact h.plain e he
    · exact plain
  · exact BoundedQueue.nodup_map_push h.nodup
      (notMem_of_lookupCachedPathInCache miss (pathTupleMatchesOwned_iff.mpr parsed))

/-- The environment keeps the tuples of the entries alive. -/
lemma Inv.env (h : Inv w s) {running : PathArg → Prop} {s' : PathCache}
    (hs : PathEnv running s s') : Inv w s' := by
  cases hs with
  | alloc t free =>
      refine ⟨fun e he => ?_, h.parsed, h.recent⟩
      have hheap := h.alive e he
      have hne : e.1.addr ≠ t.addr := fun haddr => by
        rw [haddr, free] at hheap
        cases hheap
      show Function.update s.heap t.addr (some t) e.1.addr = some e.1
      rw [Function.update_of_ne hne, hheap]
  | free a uncached unused =>
      refine ⟨fun e he => ?_, h.parsed, h.recent⟩
      show Function.update s.heap a none e.1.addr = some e.1
      rw [Function.update_of_ne (uncached e he), h.alive e he]
  | poison => exact ⟨h.alive, h.parsed, h.recent⟩

/-- The environment changes no entry. -/
lemma entries_of_env {running : PathArg → Prop} {s' : PathCache} (hs : PathEnv running s s') :
    s'.entries = s.entries ∧ s'.inserted = s.inserted := by
  cases hs <;> exact ⟨rfl, rfl⟩

lemma Shape.env (h : Shape w s) {running : PathArg → Prop} {s' : PathCache}
    (hs : PathEnv running s s') : Shape w s' := by
  obtain ⟨hentries, -⟩ := entries_of_env hs
  exact ⟨h.toInv.env hs, hentries ▸ h.plain, hentries ▸ h.nodup⟩

end PathCache

/-- The environment frees no tuple of a call in flight. -/
lemma PathArg.Alive.env {c : PathArg} {s s' : PathCache} (h : c.Alive s)
    {running : PathArg → Prop} (hc : running c) (hs : PathEnv running s s') : c.Alive s' := by
  cases c with
  | tuple t override =>
      cases hs with
      | alloc t' free =>
          have hne : t.addr ≠ t'.addr := fun haddr => by
            rw [Alive, haddr, free] at h
            cases h
          show Function.update s.heap t'.addr (some t') t.addr = some t
          rw [Function.update_of_ne hne]
          exact h
      | free a _ unused =>
          show Function.update s.heap a none t.addr = some t
          rw [Function.update_of_ne (unused t override hc)]
          exact h
      | poison => exact h
  | _ => trivial

/-! ### The contract of a call -/

/-- The result that a step of `get_or_parse_path` fixes, if it is the last. -/
def CacheLabel.outcome : CacheLabel → Option (PyResult OwnedPath)
  | lookupPath hit => hit.map .ok
  | parsePath result => some result
  | insertPath path => some (.ok path)

/-- An insertion: the call parsed its tuple, and the re-check missed. -/
def Inserted (w : ℕ) (c : PathArg) (s : PathCache) (l : CacheLabel) (s' : PathCache) : Prop :=
  ∃ t override p, c = .tuple t override ∧ parsePath w c = .ok p ∧
    lookupCachedPathInCache w t s.entries = none ∧ l = .insertPath p ∧ s' = s.push (t, p)

/-- The contract of a call over an invariant `I`: a step changes nothing or inserts, and the
call returns what its last step fixed, which is the parse of a plain path, and an error only if
the parse is that error. -/
def pathContract (w : ℕ) (I : PathCache → Prop) (allowed : PathArg → Prop) :
    Contract PathArg CacheLabel PathCache (PyResult OwnedPath) where
  inv := I
  live c s := allowed c ∧ c.Alive s
  guar c s l s' := s' = s ∨ Inserted w c s l s'
  post c tr a := tr.getLast?.bind CacheLabel.outcome = some a ∧
    (c.Plain → a = parsePath w c) ∧ ∀ e, a = .error e → parsePath w c = .error e

lemma lookupCachedPath_eq_some {t : PyTuple} {s : PathCache} {p : OwnedPath}
    (h : lookupCachedPath w t s = some p) : lookupCachedPathInCache w t s.entries = some p := by
  rw [lookupCachedPath] at h
  split at h
  · cases h
  · exact h

/-- What the second critical section does: nothing, or an insertion after a miss. -/
lemma insertPath_cases (w : ℕ) (t : PyTuple) (parsed : OwnedPath) (s : PathCache) :
    insertPath w t parsed s = s ∨
      lookupCachedPathInCache w t s.entries = none ∧ insertedPath w t parsed s = parsed ∧
        insertPath w t parsed s = s.push (t, parsed) := by
  rw [insertPath, insertedPath, lookupCachedPath]
  split
  · exact Or.inl rfl
  · cases h : lookupCachedPathInCache w t s.entries with
    | some _ => exact Or.inl rfl
    | none => exact Or.inr ⟨rfl, rfl, rfl⟩

namespace PathCache

variable {s : PathCache}

/-- What the first critical section answers is the parse. -/
lemma Inv.lookupCachedPath (h : Inv w s) {t : PyTuple} (alive : s.heap t.addr = some t)
    (plain : t.plain = true) {p : OwnedPath} (hit : lookupCachedPath w t s = some p) :
    parseItems w none t.items [] = .ok p :=
  h.of_hit alive plain (lookupCachedPath_eq_some hit)

/-- What the second critical section answers is the parse. -/
lemma Inv.insertedPath (h : Inv w s) {t : PyTuple} (alive : s.heap t.addr = some t)
    (plain : t.plain = true) {p : OwnedPath} (parsed : parseItems w none t.items [] = .ok p) :
    insertedPath w t p s = p := by
  rw [MaxminddbRust.insertedPath]
  cases hit : MaxminddbRust.lookupCachedPath w t s with
  | none => rfl
  | some p' =>
      have hp' := h.lookupCachedPath alive plain hit
      rw [parsed] at hp'
      exact (Except.ok.inj hp').symm

end PathCache

/-- A step that changes nothing, before the rest of a call. -/
lemma sat_of_unchanged {I : PathCache → Prop} {G : PathCache → CacheLabel → PathCache → Prop}
    {Q : List CacheLabel → PyResult OwnedPath → Prop} {label : PathCache → CacheLabel}
    {next : PathCache → Prog CacheLabel PathCache (PyResult OwnedPath)} (hG : ∀ s l, G s l s)
    (h : ∀ s, I s → (next s).Sat I G fun tr a => Q (label s :: tr) a) :
    (Prog.atom label id next).Sat I G Q :=
  fun s hs => ⟨hs, hG s _, h s hs⟩

/-- **A call honours its contract** over every invariant that contains that of the cache and
survives insertions after a miss. -/
lemma getOrParsePath_sat {I : PathCache → Prop} {allowed : PathArg → Prop}
    (hinv : ∀ s, I s → s.Inv w)
    (hpush : ∀ s t override p, I s → allowed (.tuple t override) → s.heap t.addr = some t →
      parsePath w (.tuple t override) = .ok p →
      lookupCachedPathInCache w t s.entries = none → I (s.push (t, p)))
    (c : PathArg) :
    (getOrParsePath w c).Sat (fun s => I s ∧ allowed c ∧ c.Alive s)
      ((pathContract w I allowed).guar c) ((pathContract w I allowed).post c) := by
  have hsame : ∀ s l, (pathContract w I allowed).guar c s l s := fun _ _ => Or.inl rfl
  cases c with
  | tuple t override =>
      have hplain : ∀ {a : PyResult OwnedPath},
          (t.plain = true → a = parseItems w none t.items []) →
          (PathArg.tuple t override).Plain → a = parsePath w (.tuple t override) :=
        fun h plain => (h plain).trans (parsePath_tuple_of_plain plain override).symm
      refine sat_of_unchanged hsame fun s hs => ?_
      cases hit : lookupCachedPath w t s with
      | some p =>
          exact ⟨rfl, hplain fun plain => ((hinv s hs.1).lookupCachedPath hs.2.2 plain hit).symm,
            fun e he => nomatch he⟩
      | none =>
          refine sat_of_unchanged hsame fun s hs => ?_
          cases hparse : parsePath w (.tuple t override) with
          | error e => exact ⟨rfl, fun _ => hparse.symm, fun e' he' => hparse.trans he'⟩
          | ok parsed =>
              intro s hs
              have hpost : (pathContract w I allowed).post (.tuple t override)
                  [.lookupPath none, .parsePath (.ok parsed),
                    .insertPath (insertedPath w t parsed s)]
                  (.ok (insertedPath w t parsed s)) := by
                refine ⟨rfl, hplain fun plain => ?_, fun e he => nomatch he⟩
                have hitems := (parsePath_tuple_of_plain plain override).symm.trans hparse
                rw [(hinv s hs.1).insertedPath hs.2.2 plain hitems, hitems]
              rcases insertPath_cases w t parsed s with h | ⟨hmiss, hpath, h⟩
              · rw [h]
                exact ⟨hs, Or.inl rfl, hpost⟩
              · rw [h]
                exact ⟨⟨hpush s t override parsed hs.1 hs.2.1 hs.2.2 hparse hmiss, hs.2⟩,
                  Or.inr ⟨t, override, parsed, rfl, hparse, hmiss, congrArg _ hpath, rfl⟩, hpost⟩
  | _ => exact sat_of_unchanged hsame fun s hs => ⟨rfl, fun _ => rfl, fun _ h => h⟩

/-- An insertion changes neither the lock nor which tuples are alive. -/
lemma alive_of_guar {I : PathCache → Prop} {allowed : PathArg → Prop} {c c' : PathArg}
    {s s' : PathCache} {l : CacheLabel} (h : (pathContract w I allowed).guar c s l s')
    (hc' : c'.Alive s) : c'.Alive s' := by
  rcases h with rfl | ⟨t, override, p, -, -, -, -, rfl⟩
  · exact hc'
  · cases c' <;> exact hc'

/-- The obligations of the contract. -/
lemma pathContract_holds {I : PathCache → Prop} {allowed : PathArg → Prop}
    (hinv : ∀ s, I s → s.Inv w)
    (hpush : ∀ s t override p, I s → allowed (.tuple t override) → s.heap t.addr = some t →
      parsePath w (.tuple t override) = .ok p →
      lookupCachedPathInCache w t s.entries = none → I (s.push (t, p)))
    (henv : ∀ running s s', PathEnv running s s' → I s → I s') :
    (pathContract w I allowed).Holds (pathSystem w allowed) where
  start _ _ h _ := h
  prog := getOrParsePath_sat hinv hpush
  noninterference _ _ _ _ _ _ h hc' := ⟨hc'.1, alive_of_guar h hc'.2⟩
  env_inv _ _ _ h hs := henv _ _ _ h hs
  env_live _ _ _ _ h hc _ hlive := ⟨hlive.1, hlive.2.env hc h⟩

/-- The contract over arbitrary tuples. -/
lemma pathContract_holds_inv (w : ℕ) :
    (pathContract w (PathCache.Inv w) fun _ => True).Holds (pathSystem w fun _ => True) :=
  pathContract_holds (fun _ h => h)
    (fun _ _ override _ h _ alive parsed _ => h.push alive fun plain =>
      (parsePath_tuple_of_plain plain override).symm.trans parsed)
    fun _ _ _ hs h => h.env hs

/-- The contract over plain tuples. -/
lemma pathContract_holds_shape (w : ℕ) :
    (pathContract w (PathCache.Shape w) PathArg.Plain).Holds (pathSystem w PathArg.Plain) :=
  pathContract_holds (fun _ h => h.toInv)
    (fun _ _ override _ h plain alive parsed miss => h.push alive plain
      ((parsePath_tuple_of_plain plain override).symm.trans parsed) miss)
    fun _ _ _ hs h => h.env hs

/-- A call is over after at most three steps of its own. -/
lemma getOrParsePath_within (w : ℕ) (c : PathArg) : (getOrParsePath w c).Within 3 := by
  cases c with
  | tuple t override =>
      intro s
      dsimp only
      cases lookupCachedPath w t s with
      | some p => trivial
      | none =>
          intro s
          dsimp only
          cases parsePath w (.tuple t override) with
          | error e => trivial
          | ok parsed => exact fun s => trivial
  | _ => exact fun s => trivial

/-! ### The cache over all runs -/

section Runs

variable {ι : Type} [DecidableEq ι]

/-- **The cache never changes what a path means**: in every run of any number of callers, a call
with a path whose iteration yields its stored items returns what the parser returns, a call whose
path the parser rejects leaves the cache alone, and every call is over after at most three steps
of its own. -/
theorem getOrParsePath_eq_parsePath (w : ℕ) (heap : ℕ → Option PyTuple)
    {es : List (Event ι PathArg CacheLabel (PyResult OwnedPath))}
    {P : Pool ι PathArg CacheLabel PathCache (PyResult OwnedPath)}
    (run : (pathSystem w fun _ => True).Run (PathCache.new heap) es P) :
    (∀ i c tr a, Event.ret i c tr a ∈ es → c.Plain → a = parsePath w c) ∧
      (∀ i c l P' e, (pathSystem w fun _ => True).Step P (.step i c l) P' →
        parsePath w c = .error e → P'.shared = P.shared) ∧
      ∀ c, (getOrParsePath w c).Within 3 := by
  have h₀ : PathCache.Inv w (PathCache.new heap) := (PathCache.shape_new w heap).toInv
  refine ⟨fun i c tr a hret plain => ?_, fun i c l P' e hstep herr => ?_, getOrParsePath_within w⟩
  · exact ((pathContract_holds_inv w).post h₀ run hret).2.1 plain
  · rcases (pathContract_holds_inv w).guar h₀ run hstep with h | ⟨t, override, p, -, hok, -, -⟩
    · exact h
    · rw [herr] at hok
      cases hok

/-- Two callers with equal tuples at two addresses: the second finds the path of the first. -/
theorem getOrParsePath_eq_parsePath_secondCaller :
    let t (a : ℕ) : PyTuple := ⟨a, [.str (.ofString "country"), .int (-1)], true⟩
    let s := (getOrParsePath 64 (.tuple (t 0) none)).final (PathCache.new fun a => some (t a))
    (getOrParsePath 64 (.tuple (t 1) none)).value s = parsePath 64 (.tuple (t 1) none) ∧
      (getOrParsePath 64 (.tuple (t 1) none)).labels s
        = [.lookupPath (some [.Key "country", .IndexFromEnd 0])] := by
  intro t s
  have run₁ := System.Run.exec (ι := Bool) (i := false) (c := PathArg.tuple (t 0) none)
    (.nil : (pathSystem 64 fun _ => True).Run (PathCache.new fun a => some (t a)) [] _)
    rfl ⟨trivial, rfl⟩
  have run₂ := System.Run.exec (i := true) (c := PathArg.tuple (t 1) none) run₁ rfl ⟨trivial, rfl⟩
  exact ⟨(getOrParsePath_eq_parsePath 64 _ run₂).1 true _ _ _
    (List.mem_append_right _ (List.mem_singleton_self _)) rfl, rfl⟩

/-- What a step changes over plain tuples: nothing, or it inserts the path of a tuple that its
call has parsed and that no entry holds. -/
lemma step_cases_of_shape {w : ℕ} {heap : ℕ → Option PyTuple}
    {es : List (Event ι PathArg CacheLabel (PyResult OwnedPath))}
    {P P' : Pool ι PathArg CacheLabel PathCache (PyResult OwnedPath)}
    (run : (pathSystem w PathArg.Plain).Run (PathCache.new heap) es P)
    {e : Event ι PathArg CacheLabel (PyResult OwnedPath)}
    (hstep : (pathSystem w PathArg.Plain).Step P e P') :
    (P'.shared.entries = P.shared.entries ∧ P'.shared.inserted = P.shared.inserted) ∨
      ∃ i t override p, e = .step i (.tuple t override) (.insertPath p) ∧
        parsePath w (.tuple t override) = .ok p ∧ p ∉ P.shared.entries.map Prod.snd ∧
        P'.shared.inserted = P.shared.inserted ++ [(t, p)] := by
  have h₀ := PathCache.shape_new w heap
  have hsound := (pathContract_holds_shape w).sound h₀ run
  cases hstep with
  | call => exact Or.inl ⟨rfl, rfl⟩
  | ret => exact Or.inl ⟨rfl, rfl⟩
  | env henv => exact Or.inl (PathCache.entries_of_env henv)
  | @step i c tr label update next htask =>
      obtain ⟨-, -, hguar, -⟩ := Contract.Holds.of_atom hsound htask
      rcases hguar with h | ⟨t, override, p, rfl, hparse, hmiss, hlabel, h⟩
      · exact Or.inl ⟨congrArg PathCache.entries h, congrArg PathCache.inserted h⟩
      · have plain : t.plain = true := (hsound.live i _ htask).1
        have hitems := (parsePath_tuple_of_plain plain override).symm.trans hparse
        exact Or.inr ⟨i, t, override, p, congrArg _ hlabel, hparse,
          notMem_of_lookupCachedPathInCache hmiss (pathTupleMatchesOwned_iff.mpr hitems),
          congrArg PathCache.inserted h⟩

/-- **The shape of the cache** in every run over lists and plain tuples: at most 64 entries with
distinct paths, each the parse of its tuple, which are the last insertions in order; a step
changes the cache only by inserting a path that a call has parsed and that no entry holds. -/
theorem pathCache_shape (w : ℕ) (heap : ℕ → Option PyTuple)
    {es : List (Event ι PathArg CacheLabel (PyResult OwnedPath))}
    {P : Pool ι PathArg CacheLabel PathCache (PyResult OwnedPath)}
    (run : (pathSystem w PathArg.Plain).Run (PathCache.new heap) es P) :
    P.shared.entries.length ≤ 64 ∧
      (P.shared.entries.map Prod.snd).Nodup ∧
      (∀ e ∈ P.shared.entries, parsePath w (.tuple e.1 none) = .ok e.2) ∧
      P.shared.entries = P.shared.inserted.drop (P.shared.inserted.length - 64) ∧
      ∀ e P', (pathSystem w PathArg.Plain).Step P e P' →
        (P'.shared.entries = P.shared.entries ∧ P'.shared.inserted = P.shared.inserted) ∨
          ∃ i t override p, e = .step i (.tuple t override) (.insertPath p) ∧
            parsePath w (.tuple t override) = .ok p ∧ p ∉ P.shared.entries.map Prod.snd ∧
            P'.shared.inserted = P.shared.inserted ++ [(t, p)] := by
  have hshape := (pathContract_holds_shape w).inv (PathCache.shape_new w heap) run
  refine ⟨?_, hshape.nodup, fun e he => ?_, hshape.recent, fun e P' => step_cases_of_shape run⟩
  · rw [hshape.recent]
    exact BoundedQueue.length_rtake_le _ _
  · rw [parsePath_tuple_of_plain (hshape.plain e he)]
    exact hshape.parsed e he (hshape.plain e he)

/-- One insertion, and a second caller that finds it. -/
theorem pathCache_shape_secondCaller :
    let t (a : ℕ) : PyTuple := ⟨a, [.str (.ofString "country"), .int (-1)], true⟩
    let s := (getOrParsePath 64 (.tuple (t 0) none)).final (PathCache.new fun a => some (t a))
    let s' := (getOrParsePath 64 (.tuple (t 1) none)).final s
    s'.entries.length = 1 ∧ s'.entries = s'.inserted.drop (s'.inserted.length - 64) := by
  intro t s s'
  have run₁ := System.Run.exec (ι := Bool) (i := false) (c := PathArg.tuple (t 0) none)
    (.nil : (pathSystem 64 PathArg.Plain).Run (PathCache.new fun a => some (t a)) [] _)
    rfl ⟨rfl, rfl⟩
  have run₂ := System.Run.exec (i := true) (c := PathArg.tuple (t 1) none) run₁ rfl ⟨rfl, rfl⟩
  exact ⟨rfl, (pathCache_shape 64 _ run₂).2.2.2.1⟩

end Runs

end MaxminddbRust
