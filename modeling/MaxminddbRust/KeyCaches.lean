import MaxminddbRust.ReaderSystem

/-!
What one reader does to the caches of key objects, which all readers of a thread share.

* `Decoding.Decodes`: a computation that decodes one value at most.
* `DecodeStep`, `Reached`: one decode on some thread, and the caches after any number of them.
* `SeenOutside`: what a step of a reader is to the others: it decodes one value or nothing, and
  leaves the tuples that are alive alone. `Call.prog_discreet`: so is every step of every call.
* `exists_run_of_reached`: a reader created when the caches have been used already is one in
  whose run others have decoded before.
-/

namespace MaxminddbRust

open Concurrent
open Concurrent.Prog

/-! ### Decodes -/

/-- The computation decodes one value at most. -/
def Decoding.Decodes {α : Type} (f : Decoding α) : Prop :=
  ∀ cache, (f cache).2 = cache ∨ ∃ v, (f cache).2 = (deserialize cache v).2

lemma decodeRecord_decodes (record : Option MMValue) : (decodeRecord record).Decodes := by
  intro cache
  cases record with
  | none => exact Or.inl rfl
  | some v =>
      refine Or.inr ⟨v, ?_⟩
      rw [decodeRecord]
      cases hd : deserialize cache v with
      | mk r cache' => cases r <;> rfl

namespace ReaderSource

variable (src : ReaderSource) (ip : IpAddr)

lemma lookup_decodes : (src.lookup ip).Decodes := by
  intro cache
  rw [lookup_eq, lookupIn]
  cases src.reader.lookup ip with
  | error e => exact Or.inl rfl
  | ok result => exact decodeRecord_decodes result.record cache

lemma lookupPrefix_decodes : (src.lookupPrefix ip).Decodes := by
  intro cache
  rw [lookupPrefix_eq, lookupPrefixIn]
  cases src.reader.lookup ip with
  | error e => exact Or.inl rfl
  | ok result =>
      simp only
      cases result.network with
      | error e => exact Or.inl rfl
      | ok network =>
          have h := decodeRecord_decodes result.record cache
          simp only [LookupResult.decode]
          cases hd : decodeRecord result.record cache with
          | mk r cache' =>
              rw [hd] at h
              cases r <;> exact h

lemma lookupPath_decodes (path : List PathElement) : (src.lookupPath ip path).Decodes := by
  intro cache
  rw [lookupPath_eq, lookupPathIn]
  cases src.reader.lookup ip with
  | error e => exact Or.inl rfl
  | ok result =>
      simp only [LookupResult.decodePath]
      cases result.select path with
      | error e => exact Or.inl rfl
      | ok found => exact decodeRecord_decodes found cache

end ReaderSource

lemma ReaderIterator.next_decodes (ipnetwork : IpNetworkCrate) (it : ReaderIterator) :
    (it.next ipnetwork).Decodes := by
  intro cache
  obtain ⟨iter⟩ := it
  cases iter with
  | nil => exact Or.inl rfl
  | cons result iter =>
      have h : (nextWithin ipnetwork result).Decodes := by
        intro cache
        cases result with
        | error e => exact Or.inl rfl
        | ok lookupResult =>
            simp only [nextWithin, processWithinLookup]
            cases lookupResult.network with
            | error e => exact Or.inl rfl
            | ok network =>
                simp only
                cases ipnetwork.new (ipnetwork.network network) network.prefixLen with
                | error err => exact Or.inl rfl
                | ok ipNet =>
                    have h := decodeRecord_decodes lookupResult.record cache
                    simp only [LookupResult.decode]
                    cases hd : decodeRecord lookupResult.record cache with
                    | mk r cache' =>
                        rw [hd] at h
                        rcases r with e | _ | data <;> exact h
      have h' := h cache
      simp only [next]
      cases hn : nextWithin ipnetwork result cache with
      | mk r cache' =>
          rw [hn] at h'
          rcases r with e | ⟨ipNet, data⟩
          · exact h'
          · simp only
            cases networkToPython ipNet <;> exact h'

/-! ### Caches of all threads -/

/-- Nothing, or one decode on some thread. -/
def DecodeStep (caches caches' : ℕ → KeyCache) : Prop :=
  caches' = caches ∨ ∃ thread v,
    caches' = Function.update caches thread (deserialize (caches thread) v).2

/-- The caches after any number of decodes. -/
inductive Reached : (ℕ → KeyCache) → Prop
  | empty : Reached fun _ => []
  | decode {caches : ℕ → KeyCache} (h : Reached caches) (thread : ℕ) (v : MMValue) :
      Reached (Function.update caches thread (deserialize (caches thread) v).2)

lemma Reached.step {caches caches' : ℕ → KeyCache} (h : Reached caches)
    (hstep : DecodeStep caches caches') : Reached caches' := by
  rcases hstep with rfl | ⟨thread, v, rfl⟩
  · exact h
  · exact h.decode thread v

/-- A computation on the cache of a thread. -/
lemma Decoding.Decodes.decodeStep {α : Type} {f : Decoding α} (h : f.Decodes)
    (caches : ℕ → KeyCache) (thread : ℕ) :
    DecodeStep caches (Function.update caches thread (f (caches thread)).2) := by
  rcases h (caches thread) with hsame | ⟨v, hv⟩
  · rw [hsame, Function.update_eq_self]
    exact Or.inl rfl
  · rw [hv]
    exact Or.inr ⟨thread, v, rfl⟩

/-- A new reader, on threads that have decoded before. -/
lemma exists_run_of_reached {ι : Type} [DecidableEq ι] (cfg : Config) (src : ReaderSource)
    (heap : ℕ → Option PyTuple) {caches : ℕ → KeyCache} (h : Reached caches) :
    ∃ n, (readerSystem cfg).Run (ι := ι) (createReader src heap) (List.replicate n .env)
      (Pool.start { createReader src heap with keyCaches := caches }) := by
  induction h with
  | empty => exact ⟨0, .nil⟩
  | @decode caches _ thread v ih =>
      obtain ⟨n, run⟩ := ih
      refine ⟨n + 1, ?_⟩
      rw [List.replicate_succ']
      exact run.snoc (.env (.decode thread v))

/-! ### What the others see -/

/-- What a step of a reader is to the other readers. -/
def SeenOutside (s s' : ReaderState) : Prop :=
  s'.pathCache.heap = s.pathCache.heap ∧ DecodeStep s.keyCaches s'.keyCaches

/-- Every step of the program is one decode or none to the other readers. -/
def Discreet {α : Type} (p : Prog Label ReaderState α) : Prop :=
  p.Sat (fun _ => True) (fun s _ s' => SeenOutside s s') fun _ _ => True

section Discreet

variable {α β : Type}

/-- A step that leaves the caches and the tuples alone. -/
lemma discreet_atom {label : ReaderState → Label} {update : ReaderState → ReaderState}
    {next : ReaderState → Prog Label ReaderState α}
    (h : ∀ s, (update s).pathCache.heap = s.pathCache.heap ∧
      (update s).keyCaches = s.keyCaches) (hnext : ∀ s, Discreet (next s)) :
    Discreet (.atom label update next) :=
  fun s _ => ⟨trivial, ⟨(h s).1, Or.inl (h s).2⟩, (hnext s).imp fun _ _ _ => trivial⟩

lemma discreet_ret (a : α) : Discreet (.ret a) := trivial

lemma Discreet.map {f : α → β} {p : Prog Label ReaderState α} (h : Discreet p) :
    Discreet (p.map f) := Sat.map h fun _ _ _ => trivial

lemma Discreet.andThen {p : Method α} {f : α → Method β} (h : Discreet p)
    (hf : ∀ a, Discreet (f a)) : Discreet (p.andThen f) :=
  Sat.andThen h (fun _ _ _ => trivial) fun _ a _ => (hf a).imp fun _ _ _ => trivial

lemma discreet_load (err : PyErr) : Discreet (load err) :=
  discreet_atom (fun _ => ⟨rfl, rfl⟩) fun _ => discreet_ret _

lemma discreet_decodeStep {label : Label} {thread : ℕ} {f : Decoding α} (h : f.Decodes) :
    Discreet (decodeStep label thread f) :=
  fun s _ => ⟨trivial, ⟨rfl, h.decodeStep s.keyCaches thread⟩, trivial⟩

/-- An insertion into the path cache allocates and frees no tuple itself. -/
lemma heap_insertPath (w : ℕ) (path : PyTuple) (parsed : OwnedPath) (s : PathCache) :
    (insertPath w path parsed s).heap = s.heap := by
  rw [insertPath]
  split
  · rfl
  · split <;> rfl

lemma discreet_pathStep (cfg : Config) (path : PathArg) : Discreet (pathStep cfg path) := by
  have hcache : (getOrParsePath cfg.wordBits path).Sat (fun _ => True)
      (fun s _ s' => s'.heap = s.heap) fun _ _ => True := by
    cases path with
    | tuple t override =>
        refine fun s _ => ⟨trivial, rfl, ?_⟩
        simp only
        cases lookupCachedPath cfg.wordBits t s with
        | some cachedPath => exact trivial
        | none =>
            refine fun s' _ => ⟨trivial, rfl, ?_⟩
            simp only
            cases parsePath cfg.wordBits (.tuple t override) with
            | error e => exact trivial
            | ok parsed => exact fun s'' _ => ⟨trivial, heap_insertPath _ _ _ _, trivial⟩
    | str | list | iterable | notIterable => exact fun s _ => ⟨trivial, rfl, trivial⟩
  exact Sat.zoom (fun _ _ => trivial) (fun s l t _ _ h => ⟨trivial, h, Or.inl rfl⟩) hcache
    fun _ _ _ => trivial

variable {cfg : Config}

/-- Checking an address before. -/
lemma discreet_parsed {x : PyObj} {f : IpAddr → Method α} (h : ∀ ip, Discreet (f ip)) :
    Discreet (match parseLookupIp cfg x with
      | .error e => .ret (.error e)
      | .ok ip => f ip) := by
  cases parseLookupIp cfg x with
  | error e => exact discreet_ret _
  | ok ip => exact h ip

lemma discreet_lookupStep (thread : ℕ) (src : ReaderSource) (ip : IpAddr) :
    Discreet (lookupStep thread src ip) :=
  (discreet_decodeStep (src.lookup_decodes ip)).map

lemma discreet_lookupPathStep (thread : ℕ) (src : ReaderSource) (path : List PathElement)
    (ip : IpAddr) : Discreet (lookupPathStep thread src path ip) :=
  (discreet_decodeStep (src.lookupPath_decodes ip path)).map

section Batches

variable {single : IpAddr → Method PyObj} (h : ∀ ip, Discreet (single ip))

include h

lemma discreet_fromItemsLoop (items : List PyObj) :
    ∀ objects, Discreet (fromItemsLoop cfg single objects items) := by
  induction items with
  | nil => exact fun objects => discreet_ret _
  | cons x items ih =>
      intro objects
      rw [fromItemsLoop]
      exact discreet_parsed fun ip => (h ip).andThen fun object => ih _

lemma discreet_iteratorLoop (raises : Option PyErr) (items : List PyObj) :
    ∀ objects, Discreet (iteratorLoop cfg single raises objects items) := by
  induction items with
  | nil => exact fun objects => discreet_atom (fun _ => ⟨rfl, rfl⟩) fun _ => discreet_ret _
  | cons x items ih =>
      intro objects
      rw [iteratorLoop]
      exact discreet_atom (fun _ => ⟨rfl, rfl⟩) fun _ =>
        discreet_parsed fun ip => (h ip).andThen fun object => ih _

lemma discreet_batch (ips : BatchArg cfg.toPlatform) : Discreet (batch cfg single ips) := by
  have hitems : ∀ xs : ItemArray cfg.toPlatform, Discreet (fromItems cfg single xs) := fun xs => by
    rw [fromItems]
    cases withCapacity cfg.toPlatform xs.items.length with
    | error e => exact discreet_ret _
    | ok => exact discreet_fromItemsLoop h xs.items []
  cases ips with
  | list xs | tuple xs => exact hitems xs
  | iterable len iter =>
      rw [batch]
      cases withCapacity cfg.toPlatform (len.getD 0) with
      | error e => exact discreet_ret _
      | ok => exact discreet_iteratorLoop h iter.raises iter.items []
  | bytesLike | notIterable => exact discreet_ret _

end Batches

/-- **Every step of every call decodes one value or none**, as far as other readers see. -/
lemma Call.prog_discreet (c : Call cfg.toPlatform) : Discreet (c.prog cfg) := by
  cases c with
  | closed | enter => exact (discreet_atom (fun _ => ⟨rfl, rfl⟩) fun _ => discreet_ret _).map
  | get thread x =>
      exact (discreet_parsed fun ip => (discreet_load _).andThen fun src =>
        discreet_lookupStep thread src ip).map
  | getPath thread x path =>
      exact (discreet_parsed fun ip => (discreet_pathStep cfg path).andThen fun ownedPath =>
        (discreet_load _).andThen fun src => discreet_lookupPathStep thread src _ ip).map
  | getWithPrefixLen thread x =>
      exact (discreet_parsed fun ip => (discreet_load _).andThen fun src =>
        (discreet_decodeStep (src.lookupPrefix_decodes ip)).map).map
  | getMany thread ips =>
      refine ((discreet_load _).andThen fun src => ?_).map
      by_cases hbytes : ips.isBytesLikeOrString
      · rw [if_pos hbytes]
        exact discreet_ret _
      · rw [if_neg hbytes]
        exact discreet_batch (discreet_lookupStep thread src) ips
  | getManyPath thread ips path =>
      refine ((discreet_load _).andThen fun src => ?_).map
      by_cases hbytes : ips.isBytesLikeOrString
      · rw [if_pos hbytes]
        exact discreet_ret _
      · rw [if_neg hbytes]
        exact (discreet_pathStep cfg path).andThen fun ownedPath =>
          discreet_batch (discreet_lookupPathStep thread src _) ips
  | metadata =>
      exact ((discreet_load _).andThen fun src =>
        discreet_atom (fun _ => ⟨rfl, rfl⟩) fun _ => discreet_ret _).map
  | close | exit =>
      have hclose : Discreet MaxminddbRust.close :=
        discreet_atom (fun _ => ⟨rfl, rfl⟩) fun _ => discreet_ret _
      exact hclose.map
  | iter =>
      refine ((discreet_load _).andThen fun src =>
        discreet_atom (fun s => ?_) fun _ => discreet_ret _).map
      cases ReaderIterator.new cfg.ipnetwork src <;> exact ⟨rfl, rfl⟩
  | next thread k =>
      have hnext : Discreet (MaxminddbRust.next cfg thread k) := fun s _ => ⟨trivial, ⟨rfl,
        ((s.iterator k).next_decodes cfg.ipnetwork).decodeStep s.keyCaches thread⟩, trivial⟩
      exact hnext.map

end Discreet

end MaxminddbRust
