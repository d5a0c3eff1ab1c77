import MaxminddbRust.Data.Navigation
import MaxminddbRust.Meaning
import MaxminddbRust.ReaderSystem

/-!
Selective lookups against navigation in full ones.

* `Step`, `pyNavigation`: a path as Python navigates it, `v[key]` in a dict and `v[i]` in a list,
  from the end for a negative index.
* `crateNavigation`, `ReaderSource.DecodesPaths`: what the crate's documentation says of
  `decode_path`: it follows the path elements from the root of the record.
* `MMValue.WellFormed`: a record with distinct keys and valid strings, whose arrays fit in memory.
* `selectIndex_step`: the encoding of indices, over the whole range of words.
  `navigation_simulation`: navigating a record and navigating what it decodes to lead to the same
  values.
* `getPath_eq_navigate`: `get_path` is navigation in what `get` returns;
  `getPath_ne_navigate_surrogate`: not so for a key that has no UTF-8 text.
-/

namespace MaxminddbRust

open Concurrent.Prog
open Navigation

/-! ### Navigation in Python -/

/-- A step of a path: a string or an integer. -/
inductive Step where
  | key (s : PyStr)
  | index (n : ℤ)

/-- The step as the object in the path. -/
def Step.toPyObj : Step → PyObj
  | key s => .str s
  | index n => .int n

/-- `xs[n]`: from the end if `n` is negative; none where Python raises `IndexError`. -/
def pyIndex {α : Type} (xs : List α) (n : ℤ) : Option α :=
  if 0 ≤ n then xs[n.toNat]?
  else if 0 ≤ n + xs.length then xs[(n + xs.length).toNat]?
  else none

/-- Navigation in Python: a string in a dict, an integer in a list; none where Python raises
`KeyError` or `IndexError`. -/
def pyNavigation : Navigable PyObj Step where
  Meets
    | .dict _, .key _ => True
    | .list _, .index _ => True
    | _, _ => False
  child
    | .dict items, .key s => items.lookup s
    | .list items, .index n => pyIndex items n
    | _, _ => none

/-! ### Navigation in the crate -/

/-- The element of an array that a path element selects. -/
def selectIndex {α : Type} (xs : List α) : PathElement → Option α
  | .Index i => xs[i]?
  | .IndexFromEnd i => if i < xs.length then xs[xs.length - 1 - i]? else none
  | .Key _ => none

/-- Navigation by path elements: a key by its bytes in a map, an index in an array. -/
def crateNavigation : Navigable MMValue PathElement where
  Meets
    | .map _, .Key _ => True
    | .array _, .Index _ => True
    | .array _, .IndexFromEnd _ => True
    | _, _ => False
  child
    | .map kvs, .Key k => kvs.lookup (utf8Bytes k)
    | .array xs, e => selectIndex xs e
    | _, _ => none

/-- `decode_path` follows its path elements from the root of the record, and finds nothing where
there is no record. -/
structure ReaderSource.DecodesPaths (src : ReaderSource) : Prop where
  noRecord : ∀ ip result path, src.reader.lookup ip = .ok result → result.record = none →
    result.select path = .ok none
  record : ∀ ip result m path, src.reader.lookup ip = .ok result → result.record = some m →
    crateNavigation.Along m path → result.select path = .ok (crateNavigation.follow m path)

/-! ### Records -/

/-- The record is no corrupt place, and a string is UTF-8. -/
def MMScalar.WellFormed (s : MMScalar) : Prop :=
  (∀ e, s ≠ .corrupt e) ∧ ∀ b, s = .string b → PyStr.ValidUtf8 b

/-- A record with valid strings and distinct keys in each map, whose arrays fit in memory. -/
inductive MMValue.WellFormed (w : ℕ) : MMValue → Prop
  | scalar {s : MMScalar} (h : s.WellFormed) : WellFormed w (.scalar s)
  | array {xs : List MMValue} (fits : xs.length ≤ isizeMax w) (h : ∀ x ∈ xs, WellFormed w x) :
      WellFormed w (.array xs)
  | map {kvs : List (List UInt8 × MMValue)} (nodup : (kvs.map Prod.fst).Nodup)
      (keys : ∀ e ∈ kvs, PyStr.ValidUtf8 e.1) (h : ∀ e ∈ kvs, WellFormed w e.2) :
      WellFormed w (.map kvs)

namespace MMValue

variable {w : ℕ} {m : MMValue}

lemma WellFormed.not_corrupt (h : m.WellFormed w) : ¬m.Corrupt := by
  induction h with
  | scalar h =>
      intro hc
      cases hc with
      | scalar he =>
          obtain ⟨e, rfl⟩ := he
          exact h.1 e rfl
  | array _ _ ih =>
      intro hc
      cases hc with
      | element hx hc => exact ih _ hx hc
  | map _ _ _ ih =>
      intro hc
      cases hc with
      | key _ hk => exact hk
      | value he hc => exact ih _ he hc

lemma WellFormed.valid (h : m.WellFormed w) : ¬m.HasInvalidUtf8 := by
  induction h with
  | scalar h =>
      intro hu
      cases hu with
      | scalar hb =>
          obtain ⟨b, rfl, hb⟩ := hb
          exact hb (h.2 b rfl)
  | array _ _ ih =>
      intro hu
      cases hu with
      | element hx hu => exact ih _ hx hu
  | map _ keys _ ih =>
      intro hu
      cases hu with
      | key he hk => exact hk (keys _ he)
      | value he hu => exact ih _ he hu

/-- A well-formed record decodes to its meaning. -/
lemma WellFormed.denote_eq (h : m.WellFormed w) : denote m = .ok m.meaning :=
  denote_of_valid h.not_corrupt h.valid

/-- No record means `None`. -/
lemma WellFormed.meaning_ne_none (h : m.WellFormed w) : m.meaning ≠ .none := by
  cases h with
  | @scalar s h =>
      rw [meaning]
      cases s with
      | corrupt e => exact absurd rfl (h.1 e)
      | _ => exact PyObj.noConfusion
  | array => rw [meaning]; exact PyObj.noConfusion
  | map => rw [meaning]; exact PyObj.noConfusion

lemma meaningSeq_eq_map (xs : List MMValue) : meaningSeq xs = xs.map meaning := by
  induction xs with
  | nil => rfl
  | cons x xs ih => rw [meaningSeq, ih, List.map_cons]

lemma meaningMap_eq_map (kvs : List (List UInt8 × MMValue)) :
    meaningMap kvs = kvs.map fun e => (text e.1, e.2.meaning) := by
  induction kvs with
  | nil => rfl
  | cons e kvs ih =>
      obtain ⟨key, v⟩ := e
      rw [meaningMap, ih, List.map_cons]

end MMValue

/-- Valid bytes are the UTF-8 encoding of their text. -/
lemma text_eq_ofString_iff {b : List UInt8} (h : PyStr.ValidUtf8 b) {s : String} :
    text b = PyStr.ofString s ↔ utf8Bytes s = b := by
  have hb := fromBytes_of_valid h
  constructor
  · intro hs
    obtain ⟨s', hs', heq⟩ := PyStr.fromBytes_eq_ok_iff.mp hb
    rw [hs] at heq
    rw [PyStr.ofString_injective heq, hs']
  · rintro rfl
    rw [PyStr.fromBytes_utf8Bytes] at hb
    exact (Except.ok.inj hb).symm

/-! ### Steps as path elements -/

/-- The element that `parse_path` makes of a step. -/
def stepElement (w : ℕ) : Step → OwnedPathElement
  | .key s => .Key (s.toStr.getD "")
  | .index n => if n ≤ isizeMax w then signedIndexToOwnedPathElement w n else .Index n.toNat

/-- The path element of a step. -/
def stepPathElement (w : ℕ) (step : Step) : PathElement :=
  match stepElement w step with
  | .Key key => .Key key
  | .Index index => .Index index
  | .IndexFromEnd index => .IndexFromEnd index

/-- A string with a UTF-8 text, or an integer that is a machine word, signed or unsigned. -/
def Step.Accepted (w : ℕ) : Step → Prop
  | key s => ∃ t, s = .ofString t
  | index n => isizeMin w ≤ n ∧ n ≤ usizeMax w

/-- A list or a tuple of these steps, whose iteration yields them. -/
def PathArg.Hands (steps : List Step) : PathArg → Prop
  | list items => items = steps.map Step.toPyObj
  | tuple t _ => t.plain = true ∧ t.items = steps.map Step.toPyObj
  | _ => False

lemma PathArg.Hands.plain {steps : List Step} {path : PathArg} (h : path.Hands steps) :
    path.Plain := by
  cases path with
  | tuple t override => exact h.1
  | _ => trivial

section Steps

variable {w : ℕ}

lemma parseElement_step {step : Step} (h : step.Accepted w) :
    parseElement w step.toPyObj = .ok (stepElement w step) := by
  cases step with
  | key s =>
      obtain ⟨t, rfl⟩ := h
      simp [parseElement, Step.toPyObj, PyObj.isBool, PyObj.extractString, stepElement]
  | index n =>
      obtain ⟨hmin, hmax⟩ := h
      rw [Step.toPyObj, parseElement_int, stepElement]
      by_cases hn : n ≤ isizeMax w
      · rw [toIsize, if_pos ⟨hmin, hn⟩, if_pos hn]
      · have hpos : 0 ≤ n := by
          have h0 : (1 : ℤ) ≤ 2 ^ (w - 1) := one_le_pow₀ (by omega)
          rw [isizeMax] at hn
          omega
        rw [toIsize, if_neg fun h => hn h.2, toUsize, if_pos ⟨hpos, hmax⟩, if_neg hn]

lemma parseItems_steps : ∀ {steps : List Step}, (∀ step ∈ steps, step.Accepted w) →
    parseItems w none (steps.map Step.toPyObj) [] = .ok (steps.map (stepElement w))
  | [], _ => rfl
  | step :: steps, h => by
      have ih := parseItems_steps fun s hs => h s (List.mem_cons_of_mem _ hs)
      rw [List.map_cons, List.map_cons]
      exact parseItems_nil_cons_eq_ok_iff.mpr
        ⟨_, _, parseElement_step (h step List.mem_cons_self), ih, rfl⟩

/-- The parser makes of the steps their elements. -/
lemma parsePath_of_hands {steps : List Step} (h : ∀ step ∈ steps, step.Accepted w)
    {path : PathArg} (hpath : path.Hands steps) :
    parsePath w path = .ok (steps.map (stepElement w)) := by
  cases path with
  | list items =>
      obtain rfl : items = steps.map Step.toPyObj := hpath
      exact parseItems_steps h
  | tuple t override =>
      rw [parsePath_tuple_of_plain hpath.1, hpath.2]
      exact parseItems_steps h
  | str => exact hpath.elim
  | iterable => exact hpath.elim
  | notIterable => exact hpath.elim

lemma pathElementsFromOwnedPath_map (steps : List Step) :
    pathElementsFromOwnedPath (steps.map (stepElement w)) = steps.map (stepPathElement w) := by
  rw [pathElementsFromOwnedPath, List.map_map]
  rfl

/-- The element of an integer, range by range. The least signed word has no absolute value; its
element is the index from the end that no list reaches. -/
lemma stepElement_index {n : ℤ} (hn : (Step.index n).Accepted w) :
    stepElement w (.index n)
      = if 0 ≤ n then .Index n.toNat
        else if n = isizeMin w then .IndexFromEnd (usizeMax w)
        else .IndexFromEnd (-n - 1).toNat := by
  obtain ⟨hmin, hmax⟩ := hn
  rw [stepElement]
  by_cases hpos : 0 ≤ n
  · rw [if_pos hpos]
    by_cases hle : n ≤ isizeMax w
    · rw [if_pos hle, signedIndexToOwnedPathElement, if_pos hpos]
    · rw [if_neg hle]
  · have hone : (1 : ℤ) ≤ 2 ^ (w - 1) := one_le_pow₀ (by omega)
    have hle : n ≤ isizeMax w := by
      rw [isizeMax]
      omega
    rw [isizeMin] at hmin
    rw [if_neg hpos, if_pos hle, signedIndexToOwnedPathElement, if_neg hpos, isizeMin]
    by_cases hleast : n = -2 ^ (w - 1)
    · have hneg : toIsize w (-n) = none := by
        rw [toIsize, isizeMax, if_neg (by omega)]
      rw [hneg, if_pos hleast]
      rfl
    · have hneg : toIsize w (-n) = some (-n) := by
        rw [toIsize, isizeMin, isizeMax, if_pos ⟨by omega, by omega⟩]
      have hpred : toIsize w (-n - 1) = some (-n - 1) := by
        rw [toIsize, isizeMin, isizeMax, if_pos ⟨by omega, by omega⟩]
      rw [hneg, Option.bind_some, hpred, if_neg hleast]
      rfl

/-- **The encoding of indices**: over the whole range of words, a list that fits in memory has at
the encoded index what Python has at the index itself. -/
lemma selectIndex_step {α : Type} {xs : List α} (hfits : xs.length ≤ isizeMax w) {n : ℤ}
    (hn : (Step.index n).Accepted w) :
    selectIndex xs (stepPathElement w (.index n)) = pyIndex xs n := by
  rw [stepPathElement, stepElement_index hn, pyIndex]
  by_cases hpos : 0 ≤ n
  · rw [if_pos hpos, if_pos hpos]
    rfl
  · rw [if_neg hpos, if_neg hpos]
    by_cases hleast : n = isizeMin w
    · have hreach : ¬usizeMax w < xs.length := by
        have := isizeMax_le_usizeMax w
        omega
      have hfar : ¬0 ≤ n + xs.length := by
        rw [isizeMin] at hleast
        rw [isizeMax] at hfits
        omega
      rw [if_pos hleast, if_neg hfar]
      exact if_neg hreach
    · rw [if_neg hleast]
      show (if (-n - 1).toNat < xs.length then xs[xs.length - 1 - (-n - 1).toNat]? else none) = _
      by_cases hin : 0 ≤ n + xs.length
      · have hidx : xs.length - 1 - (-n - 1).toNat = (n + xs.length).toNat := by omega
        rw [if_pos (by omega), if_pos hin, hidx]
      · rw [if_neg (by omega), if_neg hin]

end Steps

/-! ### Navigating a record and what it decodes to -/

section Simulation

lemma pyIndex_map {α β : Type} (f : α → β) (xs : List α) (n : ℤ) :
    pyIndex (xs.map f) n = (pyIndex xs n).map f := by
  rw [pyIndex, pyIndex, List.length_map]
  split
  · rw [List.getElem?_map]
  · split
    · rw [List.getElem?_map]
    · rfl

lemma mem_of_selectIndex {α : Type} {xs : List α} {e : PathElement} {x : α}
    (h : selectIndex xs e = some x) : x ∈ xs := by
  cases e with
  | Key k => cases h
  | Index i => exact List.mem_of_getElem? h
  | IndexFromEnd i =>
      rw [selectIndex, Option.ite_none_right_eq_some] at h
      exact List.mem_of_getElem? h.2

/-- A key is found in the decoded map where its bytes are found in the map. -/
lemma lookup_meaningMap (t : String) : ∀ {kvs : List (List UInt8 × MMValue)},
    (∀ e ∈ kvs, PyStr.ValidUtf8 e.1) →
    (MMValue.meaningMap kvs).lookup (PyStr.ofString t)
      = (kvs.lookup (utf8Bytes t)).map MMValue.meaning
  | [], _ => rfl
  | (key, v) :: kvs, h => by
      have ih := lookup_meaningMap t fun e he => h e (List.mem_cons_of_mem _ he)
      have hkey := text_eq_ofString_iff (h (key, v) List.mem_cons_self) (s := t)
      rw [MMValue.meaningMap]
      by_cases heq : utf8Bytes t = key
      · rw [heq, hkey.mpr heq, List.lookup_cons_self, List.lookup_cons_self]
        rfl
      · have hne : PyStr.ofString t ≠ text key := fun h => heq (hkey.mp h.symm)
        rw [OrderedDict.lookup_cons_of_ne hne, OrderedDict.lookup_cons_of_ne heq, ih]

/-- A map with distinct valid keys decodes to the dict of its entries. -/
lemma meaning_map {kvs : List (List UInt8 × MMValue)} (nodup : (kvs.map Prod.fst).Nodup)
    (keys : ∀ e ∈ kvs, PyStr.ValidUtf8 e.1) :
    MMValue.meaning (.map kvs) = .dict (MMValue.meaningMap kvs) := by
  have hmap : (MMValue.meaningMap kvs).map Prod.fst = (kvs.map Prod.fst).map text := by
    rw [MMValue.meaningMap_eq_map, List.map_map, List.map_map]
    rfl
  have hnodup : ((MMValue.meaningMap kvs).map Prod.fst).Nodup := by
    rw [hmap]
    refine List.Nodup.map_on (fun b hb b' hb' heq => ?_) nodup
    obtain ⟨e, he, rfl⟩ := List.mem_map.mp hb
    obtain ⟨e', he', rfl⟩ := List.mem_map.mp hb'
    obtain ⟨s, hs, htext⟩ := PyStr.fromBytes_eq_ok_iff.mp (fromBytes_of_valid (keys e he))
    rw [← hs, (text_eq_ofString_iff (keys e' he')).mp (heq.symm.trans htext)]
  rw [MMValue.meaning, lastValues, ← OrderedDict.ofEntries_eq,
    OrderedDict.ofEntries_of_nodup hnodup]

/-- No step meets a value other than an array or a map. -/
lemma not_meets_scalar (s : MMScalar) (step : Step) : ¬pyNavigation.Meets s.meaning step := by
  cases s <;> cases step <;> exact fun h => h

/-- An index is encoded as an index. -/
lemma meets_array_index (w : ℕ) (xs : List MMValue) (n : ℤ) :
    crateNavigation.Meets (.array xs) (stepPathElement w (.index n)) := by
  rw [stepPathElement]
  cases h : stepElement w (.index n) with
  | Key k =>
      rw [stepElement, signedIndexToOwnedPathElement] at h
      split_ifs at h
  | Index i => trivial
  | IndexFromEnd i => trivial

lemma stepPathElement_key (w : ℕ) (t : String) :
    stepPathElement w (.key (.ofString t)) = .Key t := by
  simp [stepPathElement, stepElement]

/-- **Navigating a record and navigating what it decodes to lead to the same values.** -/
lemma navigation_simulation (w : ℕ) :
    Simulation crateNavigation pyNavigation (MMValue.WellFormed w) (Step.Accepted w)
      MMValue.meaning (stepPathElement w) where
  meets {m step} hm hstep hmeets := by
    cases hm with
    | @scalar s h =>
        rw [MMValue.meaning] at hmeets
        exact absurd hmeets (not_meets_scalar s step)
    | array fits h =>
        rw [MMValue.meaning] at hmeets
        cases step with
        | key s => exact hmeets.elim
        | index n => exact meets_array_index w _ n
    | map nodup keys h =>
        rw [meaning_map nodup keys] at hmeets
        cases step with
        | index n => exact hmeets.elim
        | key s =>
            obtain ⟨t, rfl⟩ := hstep
            rw [stepPathElement_key]
            trivial
  child {m step} hm hstep hmeets := by
    cases hm with
    | @scalar s h =>
        rw [MMValue.meaning] at hmeets
        exact absurd hmeets (not_meets_scalar s step)
    | @array xs fits h =>
        rw [MMValue.meaning, MMValue.meaningSeq_eq_map] at hmeets ⊢
        cases step with
        | key s => exact hmeets.elim
        | index n =>
            calc pyIndex (xs.map MMValue.meaning) n
                = (pyIndex xs n).map MMValue.meaning := pyIndex_map _ xs n
              _ = (selectIndex xs (stepPathElement w (.index n))).map MMValue.meaning := by
                  rw [selectIndex_step fits hstep]
    | @map kvs nodup keys h =>
        rw [meaning_map nodup keys] at hmeets ⊢
        cases step with
        | index n => exact hmeets.elim
        | key s =>
            obtain ⟨t, rfl⟩ := hstep
            rw [stepPathElement_key]
            exact lookup_meaningMap t keys
  keeps {m e m'} hm hchild := by
    cases hm with
    | scalar h => cases hchild
    | array fits h => exact h _ (mem_of_selectIndex hchild)
    | map nodup keys h =>
        cases e with
        | Key k =>
            obtain ⟨l₁, l₂, hkvs, -⟩ := List.lookup_eq_some_iff.mp hchild
            exact h (utf8Bytes k, m') (by rw [hkvs]; simp)
        | Index i => cases hchild
        | IndexFromEnd i => cases hchild

end Simulation

/-! ### Selective lookups -/

section Lookups

variable {platform : Platform} {src : ReaderSource}

/-- What a record or none of it decodes to, as `get` and `get_path` return it. -/
lemma lookupResultToPython_denoteRecord {w : ℕ} {found : Option MMValue}
    (h : ∀ m, found = some m → m.WellFormed w) :
    lookupResultToPython (denoteRecord found) = .ok ((found.map MMValue.meaning).getD .none) := by
  cases found with
  | none => rfl
  | some m =>
      rw [denoteRecord, (h m rfl).denote_eq]
      rfl

/-- **A selective lookup is navigation in the full one**: for a path of strings and words, and a
record at which each string step taken meets a dict and each integer step a list, `get_path`
returns what Python finds along the path in what `get` returns, from whatever states of the
caches. It is `None` exactly if there is no record, or some key is missing or index out of
range. -/
theorem getPath_eq_navigate (hsrc : src.DecodesPaths) {x : PyObj} {ip : IpAddr}
    (hx : parseLookupIp (createConfig platform src) x = .ok ip) {result : LookupResult}
    (hlookup : src.reader.lookup ip = .ok result)
    (hrecord : ∀ m, result.record = some m → m.WellFormed platform.wordBits) {path : PathArg}
    {steps : List Step} (hpath : path.Hands steps)
    (hsteps : ∀ step ∈ steps, step.Accepted platform.wordBits) {s s' : ReaderState}
    (hs : s.Open platform src) (hs' : s'.Open platform src) (alive : path.Alive s'.pathCache)
    (thread thread' : ℕ) :
    ∃ v, (get (createConfig platform src) thread x).value s = .ok v ∧
      (result.record = none → v = .none ∧
        (getPath (createConfig platform src) thread' x path).value s' = .ok .none) ∧
      (result.record ≠ none → v ≠ .none ∧ (pyNavigation.Along v steps →
        (getPath (createConfig platform src) thread' x path).value s'
            = .ok ((pyNavigation.follow v steps).getD .none) ∧
          ((getPath (createConfig platform src) thread' x path).value s' = .ok .none ↔
            pyNavigation.follow v steps = none))) := by
  have hget : (get (createConfig platform src) thread x).value s
      = lookupResultToPython (denoteRecord result.record) := by
    rw [get_open hs, hx]
    show lookupResultToPython (src.lookupOutcome ip) = _
    rw [ReaderSource.lookupOutcome, hlookup]
    rfl
  have hgetPath : (getPath (createConfig platform src) thread' x path).value s'
      = lookupResultToPython
          (result.select (steps.map (stepPathElement platform.wordBits)) >>= denoteRecord) := by
    rw [getPath_open hs' thread' x hpath.plain alive, hx, parsePath_of_hands hsteps hpath]
    show lookupResultToPython (src.lookupPathOutcome ip (pathElementsFromOwnedPath _)) = _
    rw [pathElementsFromOwnedPath_map, ReaderSource.lookupPathOutcome, hlookup]
    rfl
  rw [hget, hgetPath, lookupResultToPython_denoteRecord hrecord]
  refine ⟨_, rfl, fun hnone => ?_, fun hsome => ?_⟩
  · rw [hnone, hsrc.noRecord ip result _ hlookup hnone]
    exact ⟨rfl, rfl⟩
  · obtain ⟨m, hm⟩ := Option.ne_none_iff_exists'.mp hsome
    have hwf := hrecord m hm
    rw [hm, Option.map_some, Option.getD_some]
    refine ⟨hwf.meaning_ne_none, fun halong => ?_⟩
    obtain ⟨halong', hfollow, hkeeps⟩ :=
      (navigation_simulation platform.wordBits).follow_eq hwf hsteps halong
    rw [hsrc.record ip result m _ hlookup hm halong', hfollow]
    show lookupResultToPython (denoteRecord _) = _ ∧ (lookupResultToPython (denoteRecord _) = _ ↔ _)
    rw [lookupResultToPython_denoteRecord hkeeps]
    refine ⟨rfl, ?_⟩
    cases hfound : crateNavigation.follow m (steps.map (stepPathElement platform.wordBits)) with
    | none => simp
    | some m' =>
        have hne := (hkeeps m' hfound).meaning_ne_none
        simp [hne]

/-- An IPv4 source in which every address has the same record. -/
def recordSource (m : MMValue) : ReaderSource := .Memory
  { metadata := ⟨2, 0, 0, "Record", [], 4, [], 1, 24⟩
    lookup := fun _ => .ok ⟨.ok (.V4 0 0), some m, fun path => .ok (crateNavigation.follow m path)⟩
    within := fun _ => .ok [] }

lemma recordSource_decodesPaths (m : MMValue) : (recordSource m).DecodesPaths where
  noRecord ip result path hlookup hnone := by
    cases hlookup
    cases hnone
  record ip result m' path hlookup hm _ := by
    cases hlookup
    cases hm
    rfl

/-- The record with the list of `1` and `2` under the key `a`. -/
def listRecord : MMValue := .map [([97], .array [.scalar (.uint16 1), .scalar (.uint16 2)])]

lemma listRecord_wellFormed : listRecord.WellFormed 64 := by
  have hscalar : ∀ n, MMScalar.WellFormed (.uint16 n) :=
    fun n => ⟨fun e => MMScalar.noConfusion, fun b => MMScalar.noConfusion⟩
  refine .map (by decide) ?_ ?_
  · intro e he
    obtain rfl := List.mem_singleton.mp he
    exact (show ByteArray.IsValidUTF8 [97].toByteArray by decide)
  · intro e he
    obtain rfl := List.mem_singleton.mp he
    refine .array (by decide) fun x hx => ?_
    rcases List.mem_pair.mp hx with rfl | rfl <;> exact .scalar (hscalar _)

/-- The last element of the list under the key `a`. -/
theorem getPath_eq_navigate_last :
    (getPath (createConfig smallPlatform (recordSource listRecord)) 0
        (.str (.ofString "192.0.2.1")) (.list [.str (.ofString "a"), .int (-1)])).value
      (createReader (recordSource listRecord) fun _ => none) = .ok (.int 2) := by
  have hs := createReader_open smallPlatform (recordSource listRecord) fun _ => none
  have hpath : (PathArg.list [.str (.ofString "a"), .int (-1)]).Hands
      [.key (.ofString "a"), .index (-1)] := rfl
  have hsteps : ∀ step ∈ [Step.key (.ofString "a"), .index (-1)], step.Accepted 64 := by
    intro step hstep
    rcases List.mem_pair.mp hstep with rfl | rfl
    · exact ⟨"a", rfl⟩
    · exact ⟨by decide, by decide⟩
  obtain ⟨v, hget, -, hsome⟩ := getPath_eq_navigate (recordSource_decodesPaths listRecord)
    (x := .str (.ofString "192.0.2.1")) rfl rfl
    (fun m hm => Option.some.inj hm ▸ listRecord_wellFormed) hpath hsteps hs hs trivial 0 0
  obtain rfl : v = .dict [(.ofString "a", .list [.int 1, .int 2])] :=
    (Except.ok.inj hget).symm
  refine ((hsome (Option.some_ne_none _)).2 ⟨trivial, fun b hb => ?_⟩).1
  obtain rfl : PyObj.list [.int 1, .int 2] = b := Option.some.inj hb
  exact ⟨trivial, fun _ _ => trivial⟩

/-- A key without a UTF-8 text is an error to `get_path`, where navigation finds no such key. -/
theorem getPath_ne_navigate_surrogate :
    let src := recordSource (.map [])
    let s := createReader src fun _ => none
    let steps : List Step := [.key ⟨[0xD800]⟩]
    src.DecodesPaths ∧ (MMValue.map []).WellFormed 64 ∧
      (PathArg.list [.str ⟨[0xD800]⟩]).Hands steps ∧
      (get (createConfig smallPlatform src) 0 (.str (.ofString "192.0.2.1"))).value s
        = .ok (.dict []) ∧
      pyNavigation.Along (.dict []) steps ∧ pyNavigation.follow (.dict []) steps = none ∧
      (getPath (createConfig smallPlatform src) 0 (.str (.ofString "192.0.2.1"))
        (.list [.str ⟨[0xD800]⟩])).value s = .error errPathElement := by
  refine ⟨recordSource_decodesPaths _, .map List.nodup_nil (by simp) (by simp), rfl, rfl,
    ⟨trivial, fun _ h => nomatch h⟩, rfl, rfl⟩

end Lookups

end MaxminddbRust
