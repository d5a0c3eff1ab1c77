import MaxminddbRust.Python
import Mathlib.Algebra.Order.Ring.Int

/-!
`path.rs`: the elements of a path, the parser of path arguments and the structural matcher of the
path cache, over words of `w` bits.

* `signedIndexToOwnedPathElement`, `parseElement`, `parsePath`: the parser, element by element
  and over the iteration protocol.
* `pathTupleMatchesOwned`: the matcher, which dispatches on the cached element and reads the
  stored items of the tuple.
* `elementMatches_iff`: the two separately written element readers agree, at every seam of the
  integer ranges; `pathTupleMatchesOwned_iff` carries it to whole tuples.
-/

namespace MaxminddbRust

/-! ### Machine words -/

/-- `isize::MIN`. -/
def isizeMin (w : ℕ) : ℤ := -2 ^ (w - 1)

/-- `isize::MAX`. -/
def isizeMax (w : ℕ) : ℤ := 2 ^ (w - 1) - 1

/-- `usize::MAX`. -/
def usizeMax (w : ℕ) : ℕ := 2 ^ w - 1

/-- An integer as an `isize`, none where it does not fit: `extract::<isize>` and the outcome of
the checked operations. -/
def toIsize (w : ℕ) (n : ℤ) : Option ℤ := if isizeMin w ≤ n ∧ n ≤ isizeMax w then some n else none

/-- An integer as a `usize`, none where it does not fit: `extract::<usize>`. -/
def toUsize (w : ℕ) (n : ℤ) : Option ℕ := if 0 ≤ n ∧ n ≤ usizeMax w then some n.toNat else none

lemma isizeMax_le_usizeMax (w : ℕ) : isizeMax w ≤ usizeMax w := by
  have h : 2 ^ (w - 1) ≤ 2 ^ w := Nat.pow_le_pow_right (by omega) (by omega)
  have h1 : 1 ≤ 2 ^ w := Nat.one_le_two_pow
  rw [isizeMax, usizeMax]
  push_cast [h1]
  have h' : (2 : ℤ) ^ (w - 1) ≤ 2 ^ w := by exact_mod_cast h
  omega

lemma toIsize_eq_some_iff {w : ℕ} {n m : ℤ} :
    toIsize w n = some m ↔ (isizeMin w ≤ n ∧ n ≤ isizeMax w) ∧ n = m := by
  rw [toIsize, Option.ite_none_right_eq_some, Option.some.injEq]

lemma toUsize_eq_some_iff {w : ℕ} {n : ℤ} {m : ℕ} :
    toUsize w n = some m ↔ (0 ≤ n ∧ n ≤ usizeMax w) ∧ n.toNat = m := by
  rw [toUsize, Option.ite_none_right_eq_some, Option.some.injEq]

/-! ### Path elements -/

/-- `OwnedPathElement`. -/
inductive OwnedPathElement where
  | Key (key : String)
  | Index (index : ℕ)
  | IndexFromEnd (index : ℕ)
  deriving DecidableEq, Repr

/-- A parsed path. -/
abbrev OwnedPath := List OwnedPathElement

/-- `signed_index_to_owned_path_element`. -/
def signedIndexToOwnedPathElement (w : ℕ) (n : ℤ) : OwnedPathElement :=
  if n ≥ 0 then .Index n.toNat
  else .IndexFromEnd
    ((((toIsize w (-n)).bind fun n => toIsize w (n - 1)).map Int.toNat).getD (usizeMax w))

namespace PyObj

/-- `is_instance_of::<PyBool>`. -/
def isBool : PyObj → Bool
  | bool _ => true
  | _ => false

/-- `extract::<String>`, which takes a `str` with a UTF-8 text. -/
def extractString : PyObj → Option String
  | str s => s.toStr
  | _ => Option.none

/-- `cast::<PyInt>`: the value of an `int`, of which `bool` is a subclass. -/
def castInt : PyObj → Option ℤ
  | int n => some n
  | bool b => some b.toInt
  | _ => Option.none

end PyObj

/-! ### The parser -/

def errPathSequence : PyErr := .typeError [.str "Path must be a sequence (list or tuple)"]

def errPathElement : PyErr := .typeError [.str "Path elements must be strings or integers"]

/-- The body of the loop of `parse_path`. -/
def parseElement (w : ℕ) (item : PyObj) : PyResult OwnedPathElement :=
  if item.isBool then .error errPathElement
  else match item.extractString with
    | some s => .ok (.Key s)
    | none => match item.castInt with
      | some n => match toIsize w n with
        | some i => .ok (signedIndexToOwnedPathElement w i)
        | none => match toUsize w n with
          | some i => .ok (.Index i)
          | none => .error errPathElement
      | none => .error errPathElement

/-- What iterating an object gives: the items it yields, and the exception it then raises where
it does not stop by itself. -/
structure Iteration where
  items : List PyObj
  raises : Option PyErr

/-- The loop of `parse_path` over what is left of the iteration. -/
def parseItems (w : ℕ) (raises : Option PyErr) : List PyObj → OwnedPath → PyResult OwnedPath
  | [], ownedPath => match raises with
      | some e => .error e
      | none => .ok ownedPath
  | item :: items, ownedPath => match parseElement w item with
      | .error e => .error e
      | .ok element => parseItems w raises items (ownedPath ++ [element])

/-- A tuple, an instance of `tuple` or of a subclass: its address, its stored items and whether
iterating it yields these, as it does unless its class overrides `__iter__`. -/
structure PyTuple where
  addr : ℕ
  items : List PyObj
  plain : Bool

/-- A path argument as the code looks at it. For a tuple of a class that overrides `__iter__`,
`override` is what iterating it gives on this occasion. -/
inductive PathArg where
  | str (s : PyStr)
  | list (items : List PyObj)
  | tuple (t : PyTuple) (override : Option Iteration)
  | iterable (iter : Iteration)
  | notIterable

/-- `try_iter`: none where the object is not iterable. -/
def PathArg.tryIter : PathArg → Option Iteration
  | str s => some ⟨s.codePoints.map fun c => .str ⟨[c]⟩, none⟩
  | list items => some ⟨items, none⟩
  | tuple t override => if t.plain then some ⟨t.items, none⟩ else override
  | iterable iter => some iter
  | notIterable => none

/-- `parse_path`. -/
def parsePath (w : ℕ) (path : PathArg) : PyResult OwnedPath :=
  match path with
  | .str _ => .error errPathSequence
  | path => match path.tryIter with
      | none => .error errPathSequence
      | some iter => parseItems w iter.raises iter.items []

/-- The loop only ever extends the elements it already has. -/
lemma parseItems_append (w : ℕ) (raises : Option PyErr) :
    ∀ (items : List PyObj) (acc : OwnedPath),
      parseItems w raises items acc
        = (parseItems w raises items []).map fun path => acc ++ path
  | [], acc => by cases raises <;> simp [parseItems, Except.map]
  | item :: items, acc => by
      rw [parseItems, parseItems]
      cases parseElement w item with
      | error e => rfl
      | ok element =>
          simp only [List.nil_append]
          rw [parseItems_append w raises items (acc ++ [element]),
            parseItems_append w raises items [element]]
          cases parseItems w raises items [] <;> simp [Except.map]

/-- Iteration to the end parses the items one by one. -/
lemma parseItems_nil_cons_eq_ok_iff {w : ℕ} {item : PyObj} {items : List PyObj}
    {path : OwnedPath} :
    parseItems w none (item :: items) [] = .ok path ↔
      ∃ element rest, parseElement w item = .ok element ∧
        parseItems w none items [] = .ok rest ∧ path = element :: rest := by
  rw [parseItems]
  cases parseElement w item with
  | error e => simp
  | ok element =>
      simp only [List.nil_append]
      rw [parseItems_append]
      cases parseItems w none items [] with
      | error e => simp [Except.map]
      | ok rest => simp [Except.map, eq_comm]

/-- A plain tuple is parsed from its stored items. -/
lemma parsePath_tuple_of_plain {w : ℕ} {t : PyTuple} (h : t.plain = true)
    (override : Option Iteration) :
    parsePath w (.tuple t override) = parseItems w none t.items [] := by
  simp [parsePath, PathArg.tryIter, h]

/-! ### The matcher -/

/-- The test of `path_tuple_matches_owned` on one item and the cached element beside it. -/
def elementMatches (w : ℕ) (item : PyObj) : OwnedPathElement → Bool
  | .Key cachedKey => match item with
      | .str s => match s.toStr with
          | some value => value == cachedKey
          | none => false
      | _ => false
  | .Index cachedIndex =>
      !item.isBool && match item.castInt.bind (toUsize w) with
        | some index => index == cachedIndex
        | none => false
  | .IndexFromEnd cachedIndex =>
      !item.isBool &&
        match (item.castInt.bind (toIsize w)).map (signedIndexToOwnedPathElement w) with
        | some (.IndexFromEnd index) => index == cachedIndex
        | _ => false

/-- `path_tuple_matches_owned`. -/
def pathTupleMatchesOwned (w : ℕ) (path : PyTuple) (cached : OwnedPath) : Bool :=
  path.items.length == cached.length &&
    (path.items.zip cached).all fun p => elementMatches w p.1 p.2

/-- An `int` is parsed to the element its value has in the first range that holds it. -/
lemma parseElement_int (w : ℕ) (n : ℤ) :
    parseElement w (.int n) = match toIsize w n with
      | some i => .ok (signedIndexToOwnedPathElement w i)
      | none => match toUsize w n with
        | some i => .ok (.Index i)
        | none => .error errPathElement := rfl

/-- The matcher and the parser agree on an `int`, whichever range it is in. -/
lemma elementMatches_int_iff {w : ℕ} {n : ℤ} {element : OwnedPathElement} :
    elementMatches w (.int n) element = true ↔ parseElement w (.int n) = .ok element := by
  have hle := isizeMax_le_usizeMax w
  rw [parseElement_int]
  cases hi : toIsize w n with
  | some i =>
      obtain ⟨hrange, rfl⟩ := toIsize_eq_some_iff.mp hi
      by_cases hn : n ≥ 0
      · have hu : toUsize w n = some n.toNat :=
          toUsize_eq_some_iff.mpr ⟨⟨hn, by omega⟩, rfl⟩
        cases element <;>
          simp [elementMatches, PyObj.isBool, PyObj.castInt, hi, hu,
            signedIndexToOwnedPathElement, hn]
      · have hu : toUsize w n = none := by
          rw [toUsize, if_neg (fun h => hn h.1)]
        cases element <;>
          simp [elementMatches, PyObj.isBool, PyObj.castInt, hi, hu,
            signedIndexToOwnedPathElement, hn]
  | none =>
      cases hu : toUsize w n with
      | some i =>
          cases element <;> simp [elementMatches, PyObj.isBool, PyObj.castInt, hi, hu]
      | none =>
          cases element <;> simp [elementMatches, PyObj.isBool, PyObj.castInt, hi, hu]

/-- **The two element readers agree**: an item matches a cached element iff the parser makes
that element of it. -/
lemma elementMatches_iff {w : ℕ} {item : PyObj} {element : OwnedPathElement} :
    elementMatches w item element = true ↔ parseElement w item = .ok element := by
  cases item with
  | int n => exact elementMatches_int_iff
  | str s =>
      cases h : s.toStr <;> cases element <;>
        simp [elementMatches, parseElement, PyObj.isBool, PyObj.extractString, PyObj.castInt, h]
  | _ =>
      cases element <;>
        simp [elementMatches, parseElement, PyObj.isBool, PyObj.extractString, PyObj.castInt]

/-- Matching is parsing, over all the stored items. -/
lemma all_elementMatches_iff {w : ℕ} : ∀ {items : List PyObj} {cached : OwnedPath},
    (items.length == cached.length &&
        (items.zip cached).all fun p => elementMatches w p.1 p.2) = true ↔
      parseItems w none items [] = .ok cached
  | [], [] => by simp [parseItems]
  | [], _ :: _ => by simp [parseItems]
  | item :: items, [] => by
      rw [parseItems_nil_cons_eq_ok_iff]
      simp
  | item :: items, element :: cached => by
      have ih := @all_elementMatches_iff w items cached
      simp only [Bool.and_eq_true, beq_iff_eq] at ih
      rw [parseItems_nil_cons_eq_ok_iff]
      simp only [List.length_cons, List.zip_cons_cons, List.all_cons, Bool.and_eq_true,
        beq_iff_eq, add_left_inj, elementMatches_iff]
      refine ⟨fun ⟨hlen, he, hall⟩ => ⟨element, cached, he, ih.mp ⟨hlen, hall⟩, rfl⟩, ?_⟩
      · rintro ⟨element', cached', he, hr, h⟩
        cases h
        obtain ⟨hlen, hall⟩ := ih.mpr hr
        exact ⟨hlen, he, hall⟩

/-- **The matcher is the parser**: a tuple matches a cached path iff its stored items parse to
that path. -/
theorem pathTupleMatchesOwned_iff {w : ℕ} {t : PyTuple} {cached : OwnedPath} :
    pathTupleMatchesOwned w t cached = true ↔ parseItems w none t.items [] = .ok cached :=
  all_elementMatches_iff

/-! ### Borrowed path elements -/

/-- `maxminddb::PathElement`. -/
inductive PathElement where
  | Key (key : String)
  | Index (index : ℕ)
  | IndexFromEnd (index : ℕ)
  deriving DecidableEq, Repr

/-- `path_elements_from_owned_path`. -/
def pathElementsFromOwnedPath (path : OwnedPath) : List PathElement :=
  path.map fun
    | .Key key => .Key key
    | .Index index => .Index index
    | .IndexFromEnd index => .IndexFromEnd index

end MaxminddbRust
