import MaxminddbRust.Concurrent.Resources
import MaxminddbRust.Linearizability

/-!
How long the source of a reader lives.

* `CountedReader`: a reader with its source as an allocation of its own, the number of references
  to it, and which of its iterators, and whether the reader itself, Python has collected.
* `Counted.get`, `Counted.close` and so on: the methods with the references that they take and drop.
  A method that loads the slot holds a reference from then to its end, `__iter__` passes its own
  on to the iterator, `close` takes that of the slot.
* `countedSystem`: the callers of a reader, while iterators that nobody uses and the reader are
  collected.
* `countedLedger_holds`: it implements the reader without references. Every call in flight owns
  the references it has taken and not dropped.
* `countedReader_linearizable`: so it is linearizable. `source_lifetime`: no call reads the source
  once it has been dropped, and it has been dropped exactly when the slot, the iterators and the
  calls in flight have no reference left.
-/

namespace MaxminddbRust

open Concurrent
open Concurrent.Prog

/-! ### The state -/

/-- A reader and what its `Arc` points to: the source until it is dropped, the number of
references to it, those that guards of the slot owe included, whether the cell of each iterator
still owns its reference, and whether the reader has been collected. -/
structure CountedReader where
  state : ReaderState
  source : Option ReaderSource
  strong : ℕ
  owners : List Bool
  gone : Bool

/-- `create_reader`: the slot has the only reference. -/
def createCounted (source : ReaderSource) (heap : ℕ → Option PyTuple) : CountedReader :=
  ⟨createReader source heap, some source, 1, [], false⟩

namespace CountedReader

/-- One more reference. -/
def clone (s : CountedReader) : CountedReader := { s with strong := s.strong + 1 }

/-- One reference less; the last one drops the source, which unmaps or frees it. -/
def drop (s : CountedReader) : CountedReader := { s with
  strong := s.strong - 1
  source := if s.strong = 1 then none else s.source }

end CountedReader

/-- What an atomic step is seen to do. -/
inductive CountedLabel where
  | step (l : Label)
  | load (found : Bool)
  | swap (found : Bool)
  | within (created : Bool)
  | drop

/-- The steps that read the source. -/
def CountedLabel.reads : CountedLabel → Bool
  | step (.lookup _) | step .metadata | step (.next _ _) | within _ => true
  | _ => false

/-- A method with a result in `α`. -/
abbrev Counted (α : Type) := Prog CountedLabel CountedReader (PyResult α)

/-! ### The methods -/

namespace Counted

variable {α : Type}

/-- Steps that take and drop no references. -/
def inside (m : Method α) : Counted α :=
  m.zoom CountedReader.state (fun t s => { s with state := t }) .step

/-- `self.reader.load()` and `load_full()`: a reference to what is in the slot, if anything is. -/
def loading (next : Option ReaderSource → Counted α) : Counted α :=
  .atom (fun s => .load s.state.reader.isSome)
    (fun s => if s.state.reader.isSome then s.clone else s) fun s => next s.state.reader

/-- A reference to the source, with the error raised where the slot is empty; `get_reader`. -/
def acquire (err : PyErr) : Counted ReaderSource :=
  loading fun
    | some reader => .ret (.ok reader)
    | none => .ret (.error err)

/-- Dropping a reference at the end. -/
def releasing (m : Counted α) : Counted α :=
  m.bind fun r => .atom (fun _ => .drop) CountedReader.drop fun _ => .ret r

/-- What a method does with the guard of the slot, which it drops when it returns. -/
def withReader (err : PyErr) (body : ReaderSource → Method α) : Counted α :=
  (acquire err).andThen fun reader => releasing (inside (body reader))

variable (cfg : Config)

/-- The getter `closed`. -/
def closed : Counted Bool :=
  loading fun
    | some _ => releasing (.ret (.ok false))
    | none => .ret (.ok true)

/-- `get`. -/
def get (thread : ℕ) (ipAddress : PyObj) : Counted PyObj :=
  match parseLookupIp cfg ipAddress with
  | .error e => .ret (.error e)
  | .ok parsedIp => withReader errClosed fun reader => lookupStep thread reader parsedIp

/-- `get_path`. -/
def getPath (thread : ℕ) (ipAddress : PyObj) (path : PathArg) : Counted PyObj :=
  match parseLookupIp cfg ipAddress with
  | .error e => .ret (.error e)
  | .ok parsedIp => (inside (pathStep cfg path)).andThen fun ownedPath =>
      withReader errClosed fun reader =>
        lookupPathStep thread reader (pathElementsFromOwnedPath ownedPath) parsedIp

/-- `get_with_prefix_len`. -/
def getWithPrefixLen (thread : ℕ) (ipAddress : PyObj) : Counted (PyObj × ℕ) :=
  match parseLookupIp cfg ipAddress with
  | .error e => .ret (.error e)
  | .ok parsedIp => withReader errClosed fun reader =>
      (decodeStep (.lookup parsedIp) thread (reader.lookupPrefix parsedIp)).map
        lookupPrefixResultToPython

/-- `get_many`. -/
def getMany (thread : ℕ) (ips : BatchArg cfg.toPlatform) : Counted (List PyObj) :=
  withReader errClosed fun reader =>
    if ips.isBytesLikeOrString then .ret (.error errIps)
    else batch cfg (lookupStep thread reader) ips

/-- `get_many_path`. -/
def getManyPath (thread : ℕ) (ips : BatchArg cfg.toPlatform) (path : PathArg) :
    Counted (List PyObj) :=
  withReader errClosed fun reader =>
    if ips.isBytesLikeOrString then .ret (.error errIps)
    else (pathStep cfg path).andThen fun ownedPath =>
      batch cfg (lookupPathStep thread reader (pathElementsFromOwnedPath ownedPath)) ips

/-- `metadata`. -/
def metadata : Counted Metadata :=
  withReader errMetadataClosed fun reader =>
    .atom (fun _ => .metadata) id fun _ => .ret (.ok (.fromMaxmind reader.metadata))

/-- `close`: `store(None)` takes what was in the slot, and then drops it. -/
def close : Counted Unit :=
  .atom (fun s => .swap s.state.reader.isSome)
    (fun s => { s with state := { s.state with reader := none } }) fun s =>
      match s.state.reader with
      | some _ => releasing (.ret (.ok ()))
      | none => .ret (.ok ())

/-- `__enter__`. -/
def enter : Counted Unit :=
  loading fun
    | some _ => releasing (.ret (.ok ()))
    | none => .ret (.error errReopen)

/-- `__exit__`. -/
def exit : Counted Unit := close

/-- `__iter__`: the reference goes to the cell of the iterator, or is dropped if there is none. -/
def iter : Counted ℕ :=
  (acquire errClosed).andThen fun reader =>
    match ReaderIterator.new cfg.ipnetwork reader with
    | .error e => .atom (fun _ => .within false) id fun _ => releasing (.ret (.error e))
    | .ok it => .atom (fun _ => .within true)
        (fun s => { s with
          state := { s.state with iterators := s.state.iterators ++ [it] }
          owners := s.owners ++ [true] })
        fun s => .ret (.ok s.state.iterators.length)

/-- `__next__`. -/
def next (thread k : ℕ) : Counted (Option (PyIpNetwork × PyObj)) :=
  inside (MaxminddbRust.next cfg thread k)

end Counted

/-- The program of a call. -/
def Call.countedProg (cfg : Config) : Call cfg.toPlatform → Counted Value
  | closed => Counted.closed.map (Except.map .bool)
  | get thread ipAddress => (Counted.get cfg thread ipAddress).map (Except.map .object)
  | getPath thread ipAddress path =>
      (Counted.getPath cfg thread ipAddress path).map (Except.map .object)
  | getWithPrefixLen thread ipAddress =>
      (Counted.getWithPrefixLen cfg thread ipAddress).map
        (Except.map fun r => .objectWithPrefix r.1 r.2)
  | getMany thread ips => (Counted.getMany cfg thread ips).map (Except.map .objects)
  | getManyPath thread ips path =>
      (Counted.getManyPath cfg thread ips path).map (Except.map .objects)
  | metadata => Counted.metadata.map (Except.map .metadata)
  | close => Counted.close.map (Except.map fun _ => .none)
  | enter => Counted.enter.map (Except.map fun _ => .self)
  | exit => Counted.exit.map (Except.map fun _ => .none)
  | iter => (Counted.iter cfg).map (Except.map .iterator)
  | next thread k => (Counted.next cfg thread k).map (Except.map .item)

/-! ### The system -/

/-- The object whose method is called has not been collected. -/
def Call.Usable {platform : Platform} (c : Call platform) (s : CountedReader) : Prop :=
  match c with
  | .next _ k => s.owners[k]? = some true
  | _ => s.gone = false

/-- What happens beside the calls: what happens to a reader without references, and Python
collects an iterator, or the reader, that no call in flight is about. -/
inductive CountedEnv {platform : Platform} (running : Call platform → Prop) :
    CountedReader → CountedReader → Prop
  | state {s : CountedReader} {t : ReaderState} (h : ReaderEnv running s.state t) :
      CountedEnv running s { s with state := t }
  | collectIterator {s : CountedReader} (k : ℕ) (there : s.owners[k]? = some true)
      (unused : ∀ thread, ¬running (.next thread k)) :
      CountedEnv running s { s.drop with owners := s.owners.set k false }
  | collect {s : CountedReader} (there : s.gone = false)
      (unused : ∀ c, running c → ∃ thread k, c = .next thread k) :
      CountedEnv running s
        { (if s.state.reader.isSome then s.drop else s) with gone := true }

/-- The callers of a reader. -/
def countedSystem (cfg : Config) :
    System (Call cfg.toPlatform) CountedLabel CountedReader (PyResult Value) where
  prog := Call.countedProg cfg
  canStart c s := c.Live s.state ∧ c.Usable s
  env := CountedEnv

/-! ### The accounts -/

/-- The references of the slot. -/
def CountedReader.slotRefs (s : CountedReader) : ℕ :=
  if s.state.reader.isSome ∧ s.gone = false then 1 else 0

namespace CountedReader

variable {s : CountedReader}

/-- An empty slot has no reference. -/
lemma slotRefs_of_none (hslot : s.state.reader = none) : s.slotRefs = 0 :=
  if_neg fun h => by rw [hslot] at h; cases h.1

/-- Nor has the slot of a reader that has been collected. -/
lemma slotRefs_of_gone (hgone : s.gone = true) : s.slotRefs = 0 :=
  if_neg fun h => by rw [hgone] at h; cases h.2

lemma slotRefs_of_some {reader : ReaderSource} (hslot : s.state.reader = some reader)
    (hgone : s.gone = false) : s.slotRefs = 1 :=
  if_pos ⟨by rw [hslot]; rfl, hgone⟩

end CountedReader

/-- **The invariant**: the references are those of the slot, of the iterators and of the calls in
flight, which are `m`, and the source is there while there are any. -/
structure CountedReader.Inv (cfg : Config) (src : ReaderSource) (m : ℕ) (s : CountedReader) :
    Prop where
  state : s.state.Inv cfg src
  owners : s.owners.length = s.state.iterators.length
  strong : s.strong = s.slotRefs + s.owners.count true + m
  source : s.source = if s.strong = 0 then none else some src

namespace CountedLabel

/-- The references that a step takes for its call. -/
def gain : CountedLabel → ℕ
  | load true | swap true => 1
  | _ => 0

/-- The references that a step gives away. -/
def loss : CountedLabel → ℕ
  | drop | within true => 1
  | _ => 0

end CountedLabel

/-- The accounts of a reader: its calls own references. -/
def countedLedger (cfg : Config) (src : ReaderSource) :
    Ledger (Call cfg.toPlatform) CountedLabel CountedReader ReaderState ℕ where
  inv m s t := t = s.state ∧ s.Inv cfg src m
  live c s := c.Live s.state ∧ c.Usable s
  guar _ s l s' := (s'.state = s.state ∨ ∃ l', ReaderStep cfg src s.state l' s'.state) ∧
    s'.gone = s.gone ∧ (∀ k : ℕ, s.owners[k]? = some true → s'.owners[k]? = some true) ∧
      (l.reads → s.source = some src)
  gain := CountedLabel.gain
  loss := CountedLabel.loss

namespace CountedReader.Inv

variable {cfg : Config} {src : ReaderSource} {s : CountedReader} {m : ℕ}

/-- While there is a reference, there is the source. -/
lemma source_of_pos (h : s.Inv cfg src m) (hpos : 0 < s.strong) : s.source = some src := by
  rw [h.source, if_neg (Nat.ne_of_gt hpos)]

/-- A call that owns a reference finds the source. -/
lemma source_of_owner {f : ℕ} (h : s.Inv cfg src (1 + f)) : s.source = some src :=
  h.source_of_pos (by rw [h.strong]; omega)

/-- So does an iterator that has not been collected. -/
lemma source_of_iterator {k : ℕ} (h : s.Inv cfg src m) (hk : s.owners[k]? = some true) :
    s.source = some src := by
  have hcount : 0 < s.owners.count true := List.count_pos_iff.mpr (List.mem_of_getElem? hk)
  exact h.source_of_pos (by rw [h.strong]; omega)

/-- Dropping one of the references. -/
lemma source_drop (h : s.Inv cfg src m) (hpos : 0 < s.strong) :
    s.drop.source = if s.drop.strong = 0 then none else some src := by
  show (if s.strong = 1 then none else s.source) = if s.strong - 1 = 0 then none else some src
  by_cases hone : s.strong = 1
  · rw [if_pos hone, if_pos (by omega)]
  · rw [if_neg hone, if_neg (by omega), h.source_of_pos hpos]

/-- A step of the reader that leaves the slot and the iterators alone. -/
lemma congr {t : ReaderState} (h : s.Inv cfg src m) (ht : t.Inv cfg src)
    (hslot : t.reader = s.state.reader) (hiter : t.iterators.length = s.state.iterators.length) :
    Inv cfg src m { s with state := t } where
  state := ht
  owners := h.owners.trans hiter.symm
  strong := by
    rw [h.strong, slotRefs, slotRefs, hslot]
  source := h.source

end CountedReader.Inv

/-! ### The methods implement those without references -/

/-- The labels of steps that leave the slot and the iterators alone. -/
def Label.internal : Label → Bool
  | path _ | lookup _ | metadata | pull => true
  | _ => false

lemma ReaderStep.of_internal {cfg : Config} {src : ReaderSource} {s s' : ReaderState} {l : Label}
    (h : ReaderStep cfg src s l s') (hl : l.internal) :
    s'.reader = s.reader ∧ s'.iterators = s.iterators := by
  cases l with
  | path =>
      obtain ⟨_, -, rfl⟩ := h
      exact ⟨rfl, rfl⟩
  | lookup =>
      obtain ⟨_, rfl⟩ := h
      exact ⟨rfl, rfl⟩
  | metadata | pull =>
      cases h
      exact ⟨rfl, rfl⟩
  | load | within | store | next => cases hl

namespace Counted

variable {cfg : Config} {src : ReaderSource} {c : Call cfg.toPlatform} {m : ℕ} {α : Type}

/-- The calls of methods of the reader, not of its iterators. -/
def OfReader {platform : Platform} (c : Call platform) : Prop := ∀ s, c.Usable s → s.gone = false

/-- What others may not do to a call in flight leaves its object there. -/
lemma usable_congr {s s' : CountedReader} (hgone : s'.gone = s.gone)
    (howners : ∀ k : ℕ, s.owners[k]? = some true → s'.owners[k]? = some true) (h : c.Usable s) :
    c.Usable s' := by
  cases c with
  | next thread k => exact howners k h
  | _ => exact hgone.trans h

/-- Steps that take and drop no references, and read the source only if the call owns one. -/
lemma inside_implements {p : Method α} {Q : List Label → PyResult α → Prop}
    (hp : Honours cfg src c.Live Q p)
    (hQ : ∀ tr a, Q tr a → ∀ l ∈ tr, l.internal ∧ ((CountedLabel.step l).reads → m = 1)) :
    (countedLedger cfg src).Implements c (fun m' a b => m' = m ∧ a = b) m (inside p) p := by
  refine Ledger.implements_zoom (fun _ => rfl) (fun _ => rfl) ?_ ?_ (Sat.labels hp hQ)
  · rintro s t f ⟨rfl, hinv⟩ ⟨hlive, -⟩
    exact ⟨rfl, hinv.state, hlive⟩
  · rintro s l t f ⟨-, hinv⟩ ⟨hlive, husable⟩ ⟨ht, -⟩ ⟨hstep, hinternal, hreads⟩
    obtain ⟨hslot, hiter⟩ := hstep.of_internal hinternal
    refine ⟨⟨Or.inr ⟨l, hstep⟩, rfl, fun _ h => h, fun hl => ?_⟩, ⟨hlive.step hstep, husable⟩, rfl,
      hinv.congr ht hslot (congrArg _ hiter)⟩
    obtain rfl := hreads hl
    exact hinv.source_of_owner

/-- A call that has its reference drops it at its end. -/
lemma releasing_implements {p : Counted α} {q : Method α}
    (h : (countedLedger cfg src).Implements c (fun m a b => m = 1 ∧ a = b) 1 p q) :
    (countedLedger cfg src).Implements c Ledger.Done 1 (releasing p) q := by
  refine h.bind_left fun m a b hab => ?_
  obtain ⟨rfl, rfl⟩ := hab
  rintro s t f ⟨rfl, hinv⟩ hlive
  have hpos : 0 < s.strong := by rw [hinv.strong]; omega
  refine ⟨⟨Or.inl rfl, rfl, fun _ h => h, fun hl => by cases hl⟩, hlive, 0, rfl,
    Or.inl ⟨⟨rfl, hinv.state, hinv.owners, ?_, hinv.source_drop hpos⟩, .ret ⟨rfl, rfl⟩⟩⟩
  show s.strong - 1 = s.slotRefs + s.owners.count true + (0 + f)
  rw [hinv.strong]
  omega

/-- Loading the slot, for a call of a method of the reader. -/
lemma loading_implements {β : Type} {Q : ℕ → PyResult α → PyResult β → Prop} (hc : OfReader c)
    {next : Option ReaderSource → Counted α} {next' : ReaderState → Method β}
    (hnone : ∀ s : ReaderState, s.reader = none →
      (countedLedger cfg src).Implements c Q 0 (next none) (next' s))
    (hsome : ∀ s : ReaderState, s.reader = some src →
      (countedLedger cfg src).Implements c Q 1 (next (some src)) (next' s)) :
    (countedLedger cfg src).Implements c Q 0 (loading next)
      (.atom (fun s => .load s.reader.isSome) id next') := by
  rintro s t f ⟨rfl, hinv⟩ hlive
  rcases hinv.state.slot with hslot | hslot
  · simp only [hslot, Option.isSome_none, Bool.false_eq_true, if_false]
    exact ⟨⟨Or.inl rfl, rfl, fun _ h => h, fun hl => by cases hl⟩, hlive, 0, rfl,
      Or.inr ⟨_, _, _, rfl, ⟨rfl, hinv⟩, hnone _ hslot⟩⟩
  · have hrefs : s.slotRefs = 1 := CountedReader.slotRefs_of_some hslot (hc s hlive.2)
    have hsource : s.source = some src := hinv.source_of_pos (by rw [hinv.strong, hrefs]; omega)
    have hclone : s.clone.Inv cfg src (1 + f) := by
      refine ⟨hinv.state, hinv.owners, ?_, hsource.trans (if_neg (Nat.succ_ne_zero _)).symm⟩
      show s.strong + 1 = s.slotRefs + s.owners.count true + (1 + f)
      rw [hinv.strong]
      omega
    simp only [hslot, Option.isSome_some, if_true]
    exact ⟨⟨Or.inl rfl, rfl, fun _ h => h, fun hl => by cases hl⟩, hlive, 1, rfl,
      Or.inr ⟨_, _, _, rfl, ⟨rfl, hclone⟩, hsome _ hslot⟩⟩

/-- Taking a reference, or failing without one. -/
lemma acquire_implements (hc : OfReader c) (err : PyErr) :
    (countedLedger cfg src).Implements c
      (fun m a b => a = b ∧ (a = .ok src ∧ m = 1 ∨ a = .error err ∧ m = 0)) 0 (acquire err)
      (load err) := by
  rw [acquire, load]
  refine loading_implements hc (fun s hs => ?_) fun s hs => ?_ <;> rw [hs]
  · exact .ret ⟨rfl, Or.inr ⟨rfl, rfl⟩⟩
  · exact .ret ⟨rfl, Or.inl ⟨rfl, rfl⟩⟩

/-- A method that takes a reference and goes on. -/
lemma acquire_andThen {err : PyErr} (hc : OfReader c) {f : ReaderSource → Counted α}
    {g : ReaderSource → Method α}
    (h : (countedLedger cfg src).Implements c Ledger.Done 1 (f src) (g src)) :
    (countedLedger cfg src).Implements c Ledger.Done 0 ((acquire err).andThen f)
      ((load err).andThen g) := by
  refine (acquire_implements hc err).andThen ?_ ?_
  · rintro m e b ⟨rfl, ⟨hok, -⟩ | ⟨herr, rfl⟩⟩
    · cases hok
    · exact ⟨rfl, rfl, rfl⟩
  · rintro m a b ⟨rfl, ⟨hok, rfl⟩ | ⟨herr, -⟩⟩
    · cases hok
      exact ⟨_, rfl, h⟩
    · cases herr

/-- A method that loads the slot, does something with the source and drops its reference. -/
lemma withReader_implements (hc : OfReader c) {err : PyErr} {body : ReaderSource → Method α}
    {Q : List Label → PyResult α → Prop} (hbody : Honours cfg src c.Live Q (body src))
    (hQ : ∀ tr a, Q tr a → ∀ l ∈ tr, l.internal) :
    (countedLedger cfg src).Implements c Ledger.Done 0 (withReader err body)
      ((load err).andThen body) :=
  acquire_andThen hc <| releasing_implements <|
    inside_implements hbody fun tr a h l hl => ⟨hQ tr a h l hl, fun _ => rfl⟩

/-- Parsing an address before. -/
lemma parsed_implements {x : PyObj} {f : IpAddr → Counted α} {g : IpAddr → Method α}
    (h : ∀ ip, (countedLedger cfg src).Implements c Ledger.Done 0 (f ip) (g ip)) :
    (countedLedger cfg src).Implements c Ledger.Done 0
      (match parseLookupIp cfg x with
        | .error e => .ret (.error e)
        | .ok ip => f ip)
      (match parseLookupIp cfg x with
        | .error e => .ret (.error e)
        | .ok ip => g ip) := by
  cases parseLookupIp cfg x with
  | error e => exact .ret ⟨rfl, rfl⟩
  | ok ip => exact h ip

lemma internal_of_working {tr : List Label} (h : Working tr) : ∀ l ∈ tr, l.internal := by
  intro l hl
  rcases h l hl with rfl | ⟨ip, rfl⟩ <;> rfl

/-! #### The methods one by one -/

variable (hL : Stable cfg src c.Live)

include hL

lemma get_implements (hc : OfReader c) (thread : ℕ) (x : PyObj) :
    (countedLedger cfg src).Implements c Ledger.Done 0 (get cfg thread x)
      (MaxminddbRust.get cfg thread x) :=
  parsed_implements fun ip => withReader_implements hc (lookupStep_honours hL thread ip)
    fun _ _ h => internal_of_working h.working

lemma getWithPrefixLen_implements (hc : OfReader c) (thread : ℕ) (x : PyObj) :
    (countedLedger cfg src).Implements c Ledger.Done 0 (getWithPrefixLen cfg thread x)
      (MaxminddbRust.getWithPrefixLen cfg thread x) := by
  refine parsed_implements fun ip => withReader_implements hc
    (Q := LookedUp ip (lookupPrefixValue src ip)) ?_ fun _ _ h => internal_of_working h.working
  exact Sat.map (decodeStep_honours hL ip thread (src.lookupPrefix_returns ip))
    fun _ _ ⟨htr, ha⟩ => ⟨htr, congrArg _ ha⟩

lemma getPath_implements (hc : OfReader c) (thread : ℕ) (x : PyObj) {path : PathArg}
    (hpath : ∀ s, c.Live s → path.Alive s.pathCache) :
    (countedLedger cfg src).Implements c Ledger.Done 0 (getPath cfg thread x path)
      (MaxminddbRust.getPath cfg thread x path) := by
  refine parsed_implements fun ip => ?_
  have hinside : (countedLedger cfg src).Implements c (fun m a b => m = 0 ∧ a = b) 0
      (inside (pathStep cfg path)) (pathStep cfg path) := by
    refine inside_implements (pathStep_honours hL hpath) fun tr a h l hl => ?_
    obtain ⟨ls, rfl, -⟩ := h
    obtain ⟨l', -, rfl⟩ := List.mem_map.mp hl
    exact ⟨rfl, fun hreads => by cases hreads⟩
  refine hinside.andThen ?_ ?_
  · rintro m e b ⟨rfl, rfl⟩
    exact ⟨rfl, rfl, rfl⟩
  · rintro m ownedPath b ⟨rfl, rfl⟩
    exact ⟨_, rfl, withReader_implements hc (lookupPathStep_honours hL thread ownedPath ip)
      fun _ _ h => internal_of_working h.working⟩

lemma getMany_implements (hc : OfReader c) (thread : ℕ) (ips : BatchArg cfg.toPlatform) :
    (countedLedger cfg src).Implements c Ledger.Done 0 (getMany cfg thread ips)
      (MaxminddbRust.getMany cfg thread ips) := by
  refine withReader_implements hc (Q := fun tr _ => Working tr) ?_
    fun _ _ h => internal_of_working h
  by_cases hbytes : ips.isBytesLikeOrString
  · rw [if_pos hbytes]
    exact fun l hl => by cases hl
  · rw [if_neg hbytes]
    exact (batch_honours (lookupStep_honours hL thread) ips).imp fun _ _ h => h.working

lemma getManyPath_implements (hc : OfReader c) (thread : ℕ) (ips : BatchArg cfg.toPlatform)
    {path : PathArg} (hpath : ∀ s, c.Live s → path.Alive s.pathCache) :
    (countedLedger cfg src).Implements c Ledger.Done 0 (getManyPath cfg thread ips path)
      (MaxminddbRust.getManyPath cfg thread ips path) := by
  refine withReader_implements hc (Q := fun tr _ => ∀ l ∈ tr, l.internal) ?_ fun _ _ h => h
  by_cases hbytes : ips.isBytesLikeOrString
  · rw [if_pos hbytes]
    exact fun l hl => by cases hl
  · rw [if_neg hbytes]
    refine (pathStep_andThen hL hpath fun ownedPath =>
      batch_honours (lookupPathStep_honours hL thread ownedPath) ips).imp ?_
    rintro tr a ⟨tr₁, r, ⟨ls, rfl, -⟩, hrest⟩
    have hpaths : ∀ l ∈ ls.map Label.path, l.internal := fun l hl => by
      obtain ⟨l', -, rfl⟩ := List.mem_map.mp hl
      rfl
    cases r with
    | error e => rwa [hrest.1]
    | ok ownedPath =>
        obtain ⟨tr₂, rfl, hbatch⟩ := hrest
        intro l hl
        rcases List.mem_append.mp hl with hl | hl
        · exact hpaths l hl
        · exact internal_of_working hbatch.working l hl

omit hL

lemma closed_implements (hc : OfReader c) :
    (countedLedger cfg src).Implements c Ledger.Done 0 closed MaxminddbRust.closed := by
  refine loading_implements hc (fun s hs => ?_) fun s hs => ?_ <;> rw [hs]
  · exact .ret ⟨rfl, rfl⟩
  · exact releasing_implements (.ret ⟨rfl, rfl⟩)

lemma enter_implements (hc : OfReader c) :
    (countedLedger cfg src).Implements c Ledger.Done 0 enter MaxminddbRust.enter := by
  refine loading_implements hc (fun s hs => ?_) fun s hs => ?_ <;> rw [hs]
  · exact .ret ⟨rfl, rfl⟩
  · exact releasing_implements (.ret ⟨rfl, rfl⟩)

lemma metadata_implements (hc : OfReader c) :
    (countedLedger cfg src).Implements c Ledger.Done 0 metadata MaxminddbRust.metadata :=
  withReader_implements hc (Q := fun tr a => tr = [.metadata] ∧ a = .ok (.fromMaxmind src.metadata))
    (honours_of_unchanged (fun _ => rfl) fun _ _ => ⟨rfl, rfl⟩) fun tr a h l hl => by
      rw [h.1] at hl
      obtain rfl := List.mem_singleton.mp hl
      rfl

/-- The reference goes to the iterator. -/
lemma iter_implements (hc : OfReader c) :
    (countedLedger cfg src).Implements c Ledger.Done 0 (iter cfg) (MaxminddbRust.iter cfg) := by
  refine acquire_andThen hc ?_
  cases hnew : ReaderIterator.new cfg.ipnetwork src with
  | error e =>
      rintro s t f ⟨rfl, hinv⟩ hlive
      exact ⟨⟨Or.inl rfl, rfl, fun _ h => h, fun _ => hinv.source_of_owner⟩, hlive, 1, rfl,
        Or.inr ⟨_, _, _, rfl, ⟨rfl, hinv⟩, releasing_implements (.ret ⟨rfl, rfl⟩)⟩⟩
  | ok it =>
      rintro s t f ⟨rfl, hinv⟩ hlive
      have hstep : ReaderStep cfg src s.state (.within (some s.state.iterators.length))
          { s.state with iterators := s.state.iterators ++ [it] } := ⟨rfl, it, hnew, rfl⟩
      have howners : ∀ k : ℕ, s.owners[k]? = some true → (s.owners ++ [true])[k]? = some true :=
        fun k hk => by
          rwa [List.getElem?_append_left (List.getElem?_eq_some_iff.mp hk).1]
      refine ⟨⟨Or.inr ⟨_, hstep⟩, rfl, howners, fun _ => hinv.source_of_owner⟩,
        ⟨hlive.1.step hstep, usable_congr (s := s) rfl howners hlive.2⟩, 0, rfl,
        Or.inr ⟨_, _, _, rfl, ⟨rfl, ?_⟩, .ret ⟨rfl, rfl⟩⟩⟩
      refine ⟨⟨hinv.state.slot, hinv.state.cache, hinv.state.keys⟩, ?_, ?_, hinv.source⟩
      · simp [hinv.owners]
      · show s.strong = s.slotRefs + (s.owners ++ [true]).count true + (0 + f)
        rw [hinv.strong, List.count_append, List.count_singleton_self]
        omega

/-- Emptying the slot takes its reference. -/
lemma close_implements (hc : OfReader c) (hstore : ∀ s s', ReaderStep cfg src s .store s' →
    c.Live s → c.Live s') :
    (countedLedger cfg src).Implements c Ledger.Done 0 close MaxminddbRust.close := by
  rintro s t f ⟨rfl, hinv⟩ hlive
  have hstep : ReaderStep cfg src s.state .store { s.state with reader := none } := rfl
  have hrefs : ({ s with state := { s.state with reader := none } } : CountedReader).slotRefs
      = 0 := CountedReader.slotRefs_of_none rfl
  refine ⟨⟨Or.inr ⟨_, hstep⟩, rfl, fun _ h => h, fun hl => by cases hl⟩,
    ⟨hstore _ _ hstep hlive.1, usable_congr rfl (fun _ h => h) hlive.2⟩, ?_⟩
  have hstate : ({ s.state with reader := none } : ReaderState).Inv cfg src :=
    ⟨Or.inl rfl, hinv.state.cache, hinv.state.keys⟩
  rcases hinv.state.slot with hslot | hslot <;> simp only [hslot]
  · refine ⟨0, rfl, Or.inr ⟨_, _, _, rfl, ⟨rfl, hstate, hinv.owners, ?_, hinv.source⟩,
      .ret ⟨rfl, rfl⟩⟩⟩
    have hnone : s.slotRefs = 0 := CountedReader.slotRefs_of_none hslot
    have hstrong := hinv.strong
    rw [hnone] at hstrong
    rw [hrefs]
    exact hstrong
  · refine ⟨1, rfl, Or.inr ⟨_, _, _, rfl, ⟨rfl, hstate, hinv.owners, ?_, hinv.source⟩,
      releasing_implements (.ret ⟨rfl, rfl⟩)⟩⟩
    have hone : s.slotRefs = 1 := CountedReader.slotRefs_of_some hslot (hc s hlive.2)
    rw [hrefs]
    show s.strong = 0 + s.owners.count true + (1 + f)
    rw [hinv.strong, hone]
    omega

/-- A step of an iterator, which has a reference of its own. -/
lemma next_implements (thread k : ℕ) :
    (countedLedger cfg src).Implements (.next thread k) Ledger.Done 0 (next cfg thread k)
      (MaxminddbRust.next cfg thread k) := by
  have hL : Stable cfg src (Call.Live (.next thread k)) := fun _ _ _ hstep _ hc => hc.step hstep
  have hnext : Honours cfg src (Call.Live (.next thread k)) (NextPost k)
      (MaxminddbRust.next cfg thread k) := next_honours hL thread fun _ h => h
  have hsat := Sat.labels (K := fun l => ∃ r, l = .next k r) hnext fun tr a h l hl => by
    obtain rfl := h
    exact ⟨_, List.mem_singleton.mp hl⟩
  refine Ledger.implements_zoom (fun _ => rfl) (fun _ => rfl) ?_ ?_ hsat
  · rintro s t f ⟨rfl, hinv⟩ ⟨hlive, -⟩
    exact ⟨rfl, hinv.state, hlive⟩
  · rintro s l t f ⟨-, hinv⟩ ⟨hlive, husable⟩ ⟨ht, hlive'⟩ ⟨hstep, r, rfl⟩
    refine ⟨⟨Or.inr ⟨_, hstep⟩, rfl, fun _ h => h, fun _ => hinv.source_of_iterator husable⟩,
      ⟨hlive', husable⟩, rfl, ?_⟩
    obtain ⟨-, -, _, rfl⟩ := hstep
    exact hinv.congr ht rfl (List.length_set)

end Counted

namespace Call

variable {cfg : Config} {src : ReaderSource}

/-- **Every method implements its own without references**: it is called on an object that has not
been collected, and owns no reference when it returns. -/
lemma countedProg_implements (c : Call cfg.toPlatform) :
    (countedLedger cfg src).Implements c Ledger.Done 0 (c.countedProg cfg) (c.prog cfg) := by
  have hL : Stable cfg src c.Live := fun _ _ _ hstep _ hc => hc.step hstep
  have hstore : ∀ s s', ReaderStep cfg src s .store s' → c.Live s → c.Live s' :=
    fun _ _ hstep hc => hc.step hstep
  have hmap : ∀ {α : Type} (f : α → Value) {p : Counted α} {q : Method α},
      (countedLedger cfg src).Implements c Ledger.Done 0 p q →
      (countedLedger cfg src).Implements c Ledger.Done 0 (p.map (Except.map f))
        (q.returning f) := fun f _ _ h => h.map fun _ _ _ hab => ⟨hab.1, congrArg _ hab.2⟩
  cases c with
  | closed => exact hmap _ (Counted.closed_implements fun _ h => h)
  | get thread x => exact hmap _ (Counted.get_implements hL (fun _ h => h) thread x)
  | getPath thread x path =>
      exact hmap _ (Counted.getPath_implements hL (fun _ h => h) thread x fun _ h => h)
  | getWithPrefixLen thread x =>
      exact hmap _ (Counted.getWithPrefixLen_implements hL (fun _ h => h) thread x)
  | getMany thread ips => exact hmap _ (Counted.getMany_implements hL (fun _ h => h) thread ips)
  | getManyPath thread ips path =>
      exact hmap _ (Counted.getManyPath_implements hL (fun _ h => h) thread ips fun _ h => h)
  | metadata => exact hmap _ (Counted.metadata_implements fun _ h => h)
  | close => exact hmap _ (Counted.close_implements (fun _ h => h) hstore)
  | enter => exact hmap _ (Counted.enter_implements fun _ h => h)
  | exit => exact hmap _ (Counted.close_implements (fun _ h => h) hstore)
  | iter => exact hmap _ (Counted.iter_implements fun _ h => h)
  | next thread k => exact hmap _ (Counted.next_implements thread k)

end Call

/-! ### Runs -/

section Environment

variable {cfg : Config} {src : ReaderSource} {s s' : CountedReader} {m : ℕ}
  {running : Call cfg.toPlatform → Prop}

/-- What happens beside the calls keeps the accounts. -/
lemma CountedEnv.inv (henv : CountedEnv running s s') (h : s.Inv cfg src m) :
    s'.Inv cfg src m ∧ (s'.state = s.state ∨ ReaderEnv running s.state s'.state) := by
  cases henv with
  | state henv =>
      obtain ⟨hslot, hiter⟩ := henv.unchanged
      exact ⟨h.congr (h.state.env henv) hslot (congrArg _ hiter), Or.inr henv⟩
  | collectIterator k there unused =>
      obtain ⟨hk, hget⟩ := List.getElem?_eq_some_iff.mp there
      have hcount : 0 < s.owners.count true := List.count_pos_iff.mpr (List.mem_of_getElem? there)
      have hpos : 0 < s.strong := by rw [h.strong]; omega
      refine ⟨⟨h.state, ?_, ?_, h.source_drop hpos⟩, Or.inl rfl⟩
      · exact List.length_set.trans h.owners
      · show s.strong - 1 = s.slotRefs + (s.owners.set k false).count true + m
        rw [h.strong, List.count_set hk, hget]
        simp only [beq_self_eq_true, if_true, Bool.false_beq, Bool.not_true, Bool.false_eq_true,
          if_false]
        omega
  | collect there unused =>
      have hrefs : ({ (if s.state.reader.isSome then s.drop else s) with gone := true }
          : CountedReader).slotRefs = 0 := CountedReader.slotRefs_of_gone rfl
      cases hslot : s.state.reader with
      | none =>
          have hnone : s.slotRefs = 0 := CountedReader.slotRefs_of_none hslot
          have hstrong := h.strong
          rw [hnone] at hstrong
          rw [hslot] at hrefs
          refine ⟨⟨h.state, h.owners, ?_, h.source⟩, Or.inl rfl⟩
          rw [hrefs]
          exact hstrong
      | some reader =>
          have hone : s.slotRefs = 1 := CountedReader.slotRefs_of_some hslot there
          have hpos : 0 < s.strong := by rw [h.strong, hone]; omega
          rw [hslot] at hrefs
          refine ⟨⟨h.state, h.owners, ?_, h.source_drop hpos⟩, Or.inl rfl⟩
          rw [hrefs]
          show s.strong - 1 = 0 + s.owners.count true + m
          rw [h.strong, hone]
          omega

/-- Nothing that a call in flight relies on is taken away. -/
lemma CountedEnv.live (henv : CountedEnv running s s') {c : Call cfg.toPlatform} (hc : running c)
    (h : c.Live s.state ∧ c.Usable s) : c.Live s'.state ∧ c.Usable s' := by
  cases henv with
  | state henv => exact ⟨h.1.env hc henv, h.2⟩
  | collectIterator k there unused =>
      refine ⟨h.1, ?_⟩
      cases c with
      | next thread j =>
          have hne : k ≠ j := fun heq => unused thread (heq ▸ hc)
          exact (List.getElem?_set_ne hne).trans h.2
      | _ => exact h.2
  | collect there unused =>
      obtain ⟨thread, k, rfl⟩ := unused c hc
      cases s.state.reader <;> exact h

end Environment

/-- **The reader with references implements the reader without.** -/
theorem countedLedger_holds (cfg : Config) (src : ReaderSource) :
    (countedLedger cfg src).Holds (countedSystem cfg) (readerSystem cfg) where
  start c s t m h hinv := ⟨h, hinv.1 ▸ h.1⟩
  prog c := c.countedProg_implements
  noninterference c c' s l s' hguar h := by
    obtain ⟨hstate, hgone, howners, -⟩ := hguar
    refine ⟨?_, Counted.usable_congr hgone howners h.2⟩
    rcases hstate with hsame | ⟨l', hstep⟩
    · rw [hsame]
      exact h.1
    · exact h.1.step hstep
  env running s s' t m henv hinv hlive := by
    obtain ⟨rfl, hinv⟩ := hinv
    obtain ⟨hinv', hstate⟩ := henv.inv hinv
    refine ⟨fun c hc => henv.live hc (hlive c hc), ?_⟩
    rcases hstate with hsame | henv'
    · exact Or.inl ⟨hsame.symm, hinv'⟩
    · exact Or.inr ⟨_, ⟨rfl, hinv'⟩, henv'⟩

/-- The references that a call in flight has taken and not given away. -/
def references {platform : Platform}
    (t : Task (Call platform) CountedLabel CountedReader (PyResult Value)) : ℕ :=
  (t.emitted.map CountedLabel.gain).sum - (t.emitted.map CountedLabel.loss).sum

section Runs

variable {ι : Type} [DecidableEq ι] (platform : Platform) (src : ReaderSource)
  (heap : ℕ → Option PyTuple)
  {es : List (Event ι (Call (createConfig platform src).toPlatform) CountedLabel (PyResult Value))}
  {P : Pool ι (Call (createConfig platform src).toPlatform) CountedLabel CountedReader
    (PyResult Value)}

lemma createCounted_inv : (countedLedger (createConfig platform src) src).inv 0
    (createCounted src heap) (createReader src heap) :=
  ⟨rfl, createReader_inv _ src heap, rfl, rfl, rfl⟩

/-- **How long the source lives.** In every run, every step that reads the source finds it, and
the source has been dropped exactly when the slot is empty or the reader collected, every
iterator has been collected, and every call in flight has dropped the references it took: it is
neither dropped while somebody may still read it nor kept when nobody can. -/
theorem source_lifetime
    (run : (countedSystem (createConfig platform src)).Run (createCounted src heap) es P) :
    (∀ i c l P', (countedSystem (createConfig platform src)).Step P (.step i c l) P' → l.reads →
      P.shared.source = some src) ∧
    (P.shared.source = none ↔ (P.shared.state.reader = none ∨ P.shared.gone = true) ∧
      (∀ k : ℕ, P.shared.owners[k]? ≠ some true) ∧
      ∀ i t, P.tasks i = some t → references t = 0) := by
  have hL := countedLedger_holds (createConfig platform src) src
  have h₀ := createCounted_inv platform src heap
  refine ⟨fun i c l P' hs => (hL.guar h₀ run hs).2.2.2, ?_⟩
  obtain ⟨es', R, held, -, -, htracks⟩ := hL.run h₀ run
  obtain ⟨-, hinv⟩ := htracks.inv
  have hsource : P.shared.source = none ↔ P.shared.strong = 0 := by
    rw [hinv.source]
    split_ifs with hzero <;> simp [hzero]
  have hslot : P.shared.slotRefs = 0 ↔ P.shared.state.reader = none ∨ P.shared.gone = true := by
    rw [CountedReader.slotRefs]
    cases P.shared.state.reader <;> cases P.shared.gone <;> simp
  have howners : P.shared.owners.count true = 0 ↔ ∀ k : ℕ, P.shared.owners[k]? ≠ some true := by
    rw [List.count_eq_zero, List.mem_iff_getElem?, not_exists]
  have hheld : Ledger.total held = 0 ↔ ∀ i t, P.tasks i = some t → references t = 0 := by
    rw [Ledger.total_eq_zero_iff]
    refine ⟨fun h i t ht => ?_, fun h i => ?_⟩
    · obtain ⟨-, -, -, -, haccount, -⟩ := htracks.call ht
      rw [h i, zero_add] at haccount
      exact Nat.sub_eq_zero_of_le (Nat.le_of_eq haccount.symm)
    · cases ht : P.tasks i with
      | none => exact htracks.held_eq_zero ht
      | some t =>
          obtain ⟨-, -, -, -, haccount, -⟩ := htracks.call ht
          have hzero : (t.emitted.map CountedLabel.gain).sum
              - (t.emitted.map CountedLabel.loss).sum = 0 := h i t ht
          have haccount' : held i + (t.emitted.map CountedLabel.loss).sum
              = (t.emitted.map CountedLabel.gain).sum := haccount
          omega
  rw [hsource, hinv.strong, Nat.add_eq_zero_iff, Nat.add_eq_zero_iff, hslot, howners, hheld,
    and_assoc]

/-- A call of `metadata` that has loaded the slot when another caller closes the reader: it still
finds the source, which is dropped when it ends. -/
theorem source_lifetime_duringMetadata :
    let cfg := createConfig smallPlatform constantSource
    ∃ es es', ∃ P R : Pool Bool (Call cfg.toPlatform) CountedLabel CountedReader (PyResult Value),
      (countedSystem cfg).Run (createCounted constantSource fun _ => none) es P ∧
        P.shared.state.reader = none ∧ P.shared.source = some constantSource ∧
        (countedSystem cfg).Run (createCounted constantSource fun _ => none) (es ++ es') R ∧
        R.shared.source = none := by
  intro cfg
  let c : Call cfg.toPlatform := .metadata
  have start : (countedSystem cfg).Run (createCounted constantSource fun _ => none) [] _ :=
    .nil (ι := Bool)
  have loaded := (start.snoc (.call (i := false) (c := c) rfl ⟨trivial, rfl⟩)).snoc
    (.step (i := false) rfl)
  have closed := loaded.exec (i := true) (c := .close) rfl ⟨trivial, rfl⟩
  have looked := closed.snoc (.step (i := false) rfl)
  have returned := (looked.snoc (.step (i := false) rfl)).snoc (.ret (i := false) rfl)
  have hlife := source_lifetime smallPlatform constantSource _ returned
  rw [List.append_assoc, List.append_assoc] at returned
  refine ⟨_, _, _, _, closed, rfl, ?_, returned, hlife.2.mpr ⟨Or.inl rfl, ?_, ?_⟩⟩
  · exact (source_lifetime smallPlatform constantSource _ closed).1 false c _ _
      (.step (i := false) rfl) rfl
  · intro k h
    cases h
  · intro i t ht
    cases i <;> cases ht

end Runs

end MaxminddbRust
