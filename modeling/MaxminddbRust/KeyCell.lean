import MaxminddbRust.Meaning

/-!
`PY_MAP_KEY_CACHE` as the cell it is: a `RefCell` that `set_cached_map_item` borrows mutably for
the length of a call, and that panics if it is borrowed already.

* `KeyCell`: the map, whether it is borrowed and, for the statements, the log of all calls of
  `set_cached_map_item` with what each found and left.
* `KeyCell.setCachedMapItem`, `KeyCell.deserialize`: the decoder on the cell. `deserialize_eq`: on
  a cell that is free it does what the decoder on the map does, and frees the cell again.
* `KeyCell.itemKeys`: the keys that a record passes to `set_cached_map_item`.
* `KeyCell.Inv`: what holds of the cell between the calls, and of each call in the log.
  `decodeAll_shape`: so it is after every sequence of decodes.
-/

namespace MaxminddbRust

/-! ### The cell -/

/-- `BorrowMutError`, with which `borrow_mut` panics. -/
structure BorrowMutError where
  deriving DecidableEq, Repr

/-- A call of `set_cached_map_item`: its key, the cache and the dict that it finds, its result,
and the cache and the dict that it leaves. -/
structure KeyCall where
  key : List UInt8
  cacheBefore : KeyCache
  dictBefore : PyDict
  result : Except UnicodeDecodeError Unit
  cacheAfter : KeyCache
  dictAfter : PyDict

/-- `PY_MAP_KEY_CACHE` of one thread: the map in the cell, whether the cell is borrowed, and the
log of the calls. -/
structure KeyCell where
  cache : KeyCache
  borrowed : Bool
  calls : List KeyCall

namespace KeyCell

/-- The cell of a new thread. -/
def new : KeyCell := ⟨[], false, []⟩

/-- `borrow_mut`. -/
def borrowMut (cell : KeyCell) : Except BorrowMutError KeyCell :=
  if cell.borrowed then .error ⟨⟩ else .ok { cell with borrowed := true }

/-- A way out of `set_cached_map_item`, with its result and the dict and the map it leaves. The
guard is dropped there. -/
def exit (cell : KeyCell) (dict : PyDict) (key : List UInt8)
    (result : Except UnicodeDecodeError Unit) (dict' : PyDict) (cache' : KeyCache) :
    Except UnicodeDecodeError Unit × PyDict × KeyCell :=
  (result, dict', ⟨cache', false, cell.calls ++ [⟨key, cell.cache, dict, result, cache', dict'⟩]⟩)

/-- `set_cached_map_item` after `borrow_mut`: its result, the dict and the cell after it. -/
def setItemBorrowed (cell : KeyCell) (dict : PyDict) (key : List UInt8) (value : PyObj) :
    Except UnicodeDecodeError Unit × PyDict × KeyCell :=
  match cell.cache.lookup key with
  | some existing => cell.exit dict key (.ok ()) (dict.setItem existing value) cell.cache
  | none =>
      if cell.cache.length ≥ pyMapKeyCacheMax then
        match PyStr.fromBytes key with
        | .error e => cell.exit dict key (.error e) dict cell.cache
        | .ok pyKey => cell.exit dict key (.ok ()) (dict.setItem pyKey value) cell.cache
      else
        match PyStr.fromBytes key with
        | .error e => cell.exit dict key (.error e) dict cell.cache
        | .ok pyKey => cell.exit dict key (.ok ()) (dict.setItem pyKey value)
            (cell.cache ++ [(key, pyKey)])

/-- `set_cached_map_item`, with nothing else between its borrow and its end. -/
def setCachedMapItem (cell : KeyCell) (dict : PyDict) (key : List UInt8) (value : PyObj) :
    Except BorrowMutError (Except UnicodeDecodeError Unit × PyDict × KeyCell) :=
  match cell.borrowMut with
  | .error e => .error e
  | .ok cell => .ok (cell.setItemBorrowed dict key value)

mutual

/-- `PyValueSeed::deserialize` on the cell. -/
def deserialize (cell : KeyCell) :
    MMValue → Except BorrowMutError (Except MaxMindDbError PyObj × KeyCell)
  | .scalar s => .ok (visitScalar s, cell)
  | .array xs => visitSeq cell [] xs
  | .map kvs => visitMap cell [] kvs

/-- The loop of `visit_seq` on the cell. -/
def visitSeq (cell : KeyCell) (elements : List PyObj) :
    List MMValue → Except BorrowMutError (Except MaxMindDbError PyObj × KeyCell)
  | [] => .ok (.ok (.list elements), cell)
  | x :: xs => match deserialize cell x with
      | .error e => .error e
      | .ok (.error e, cell) => .ok (.error e, cell)
      | .ok (.ok elem, cell) => visitSeq cell (elements ++ [elem]) xs

/-- The loop of `visit_map` on the cell. The maps in a value borrow the cell before the entry of
the value does. -/
def visitMap (cell : KeyCell) (dict : PyDict) :
    List (List UInt8 × MMValue) →
      Except BorrowMutError (Except MaxMindDbError PyObj × KeyCell)
  | [] => .ok (.ok (.dict dict), cell)
  | (key, v) :: kvs => match deserialize cell v with
      | .error e => .error e
      | .ok (.error e, cell) => .ok (.error e, cell)
      | .ok (.ok value, cell) => match setCachedMapItem cell dict key value with
          | .error e => .error e
          | .ok (.error e, _, cell) => .ok (.error (pyerrToDeError e), cell)
          | .ok (.ok (), dict, cell) => visitMap cell dict kvs

end

/-- Decodes on one thread, one after the other, whether they succeed or fail. -/
def decodeAll (cell : KeyCell) :
    List MMValue → Except BorrowMutError (List (Except MaxMindDbError PyObj) × KeyCell)
  | [] => .ok ([], cell)
  | v :: vs => match deserialize cell v with
      | .error e => .error e
      | .ok (r, cell) => (decodeAll cell vs).map fun (rs, cell) => (r :: rs, cell)

/-! ### The keys of a record -/

mutual

/-- The keys that decoding a value passes to `set_cached_map_item`, in order, up to its first
error: those in the value of an entry before the key of the entry. -/
def itemKeys : MMValue → List (List UInt8)
  | .scalar _ => []
  | .array xs => seqKeys xs
  | .map kvs => mapKeys kvs

/-- Those of the elements of an array. -/
def seqKeys : List MMValue → List (List UInt8)
  | [] => []
  | x :: xs => itemKeys x ++ if (denote x).toBool then seqKeys xs else []

/-- Those of the entries of a map. -/
def mapKeys : List (List UInt8 × MMValue) → List (List UInt8)
  | [] => []
  | (key, v) :: kvs => itemKeys v ++ if (denote v).toBool then
      key :: if PyStr.ValidUtf8 key then mapKeys kvs else []
    else []

end

/-! ### One call -/

/-- What the cache holds after calls with these keys: the first 256 distinct ones that are UTF-8,
in the order of their first call, each with the `str` that it encodes. -/
structure Holds (keys : List (List UInt8)) (cache : KeyCache) : Prop where
  keys_eq : cache.map Prod.fst
    = (keys.filter fun k => decide (PyStr.ValidUtf8 k)).eraseDups.take pyMapKeyCacheMax
  text : ∀ e ∈ cache, ∃ s, utf8Bytes s = e.1 ∧ e.2 = PyStr.ofString s

/-- What a call does after these calls: it finds the cache that they left and leaves the one with
its key in it, in which every entry is where it was; a key that is not UTF-8 changes neither the
cache nor the dict. -/
structure Follows (before : List KeyCall) (call : KeyCall) : Prop where
  finds : Holds (before.map KeyCall.key) call.cacheBefore
  leaves : Holds ((before ++ [call]).map KeyCall.key) call.cacheAfter
  keeps : call.cacheBefore <+: call.cacheAfter
  invalid : ¬PyStr.ValidUtf8 call.key →
    call.cacheAfter = call.cacheBefore ∧ call.dictAfter = call.dictBefore

/-- **The invariant of the cell** between the calls: it is not borrowed, its map is a memo table
of the keys of the calls so far, and every call followed those before it. -/
structure Inv (cell : KeyCell) : Prop where
  free : cell.borrowed = false
  table : Memo.HoldsFirst PyStr.fromBytes pyMapKeyCacheMax (cell.calls.map KeyCall.key) cell.cache
  follows : ∀ before call after, cell.calls = before ++ call :: after → Follows before call

lemma inv_new : new.Inv where
  free := rfl
  table := Memo.holdsFirst_nil _ _
  follows before call after h := by
    have hnil : before ++ call :: after = [] := h.symm
    simp at hnil

/-- A memo table of the keys holds the first of those that are UTF-8. -/
lemma holds_of_holdsFirst {keys : List (List UInt8)} {cache : KeyCache}
    (h : Memo.HoldsFirst PyStr.fromBytes pyMapKeyCacheMax keys cache) : Holds keys cache where
  keys_eq := by
    have hvalid : (fun k => (PyStr.fromBytes k).toBool) = fun k => decide (PyStr.ValidUtf8 k) := by
      funext k
      by_cases hk : PyStr.ValidUtf8 k
      · simp [fromBytes_of_valid hk, Except.toBool, hk]
      · simp [fromBytes_of_invalid hk, Except.toBool, hk]
    rw [h.keys_eq, Memo.computed, hvalid]
  text e he := PyStr.fromBytes_eq_ok_iff.mp (h.sound e he)

/-- A call that has borrowed the cell fetches the key object from the map, and frees the cell. -/
lemma setItemBorrowed_eq (cell : KeyCell) (dict : PyDict) (key : List UInt8) (value : PyObj) :
    cell.setItemBorrowed dict key value
      = cell.exit dict key
          ((Memo.fetch PyStr.fromBytes pyMapKeyCacheMax cell.cache key).1.map fun _ => ())
          (match (Memo.fetch PyStr.fromBytes pyMapKeyCacheMax cell.cache key).1 with
            | .error _ => dict
            | .ok pyKey => dict.setItem pyKey value)
          (Memo.fetch PyStr.fromBytes pyMapKeyCacheMax cell.cache key).2 := by
  rw [setItemBorrowed, Memo.fetch]
  cases hl : cell.cache.lookup key with
  | some existing => simp [exit, Except.map]
  | none =>
      by_cases hfull : cell.cache.length < pyMapKeyCacheMax
      · cases PyStr.fromBytes key <;>
          simp [exit, Except.map, hfull, Nat.not_le.mpr hfull]
      · cases PyStr.fromBytes key <;>
          simp [exit, Except.map, hfull, Nat.not_lt.mp hfull]

/-- What holds at every place of a log holds after one more entry for which it holds. -/
lemma forall_split_concat {α : Type} {P : List α → α → Prop} {l : List α} {a : α}
    (h : ∀ before b after, l = before ++ b :: after → P before b) (ha : P l a) :
    ∀ before b after, l ++ [a] = before ++ b :: after → P before b := by
  intro before b after heq
  rcases List.eq_nil_or_concat after with rfl | ⟨after', c, rfl⟩
  · obtain ⟨rfl, hab⟩ := List.append_inj' heq rfl
    obtain rfl : a = b := by simpa using hab
    exact ha
  · have heq' : l ++ [a] = (before ++ b :: after') ++ [c] := by simpa using heq
    exact h before b after' (List.append_inj' heq' rfl).1

/-- A call on a cell that is free borrows it. -/
lemma setCachedMapItem_eq {cell : KeyCell} (h : cell.borrowed = false) (dict : PyDict)
    (key : List UInt8) (value : PyObj) :
    cell.setCachedMapItem dict key value
      = .ok ({ cell with borrowed := true }.setItemBorrowed dict key value) := by
  rw [setCachedMapItem, borrowMut, h, if_neg Bool.false_ne_true]

/-- **A call from its borrow to its end**: if the cell had the invariant when it was borrowed, it
has it in the end, the call is at the end of the log, and its result and the dict are those under
the decoded key. -/
lemma Inv.setItemBorrowed {cell : KeyCell} (h : cell.Inv) (dict : PyDict) (key : List UInt8)
    (value : PyObj) :
    ∃ dict' cell', { cell with borrowed := true }.setItemBorrowed dict key value
        = ((PyStr.fromBytes key).map fun _ => (), dict', cell') ∧
      cell'.Inv ∧ cell'.calls.map KeyCall.key = cell.calls.map KeyCall.key ++ [key] ∧
      (∀ pyKey, PyStr.fromBytes key = .ok pyKey → dict' = dict.setItem pyKey value) ∧
      cell'.cache = (MaxminddbRust.setCachedMapItem cell.cache dict key value).2 := by
  have htable := h.table.fetch key
  have hfst := Memo.fetch_fst h.table.sound pyMapKeyCacheMax key
  rw [setItemBorrowed_eq, MaxminddbRust.setCachedMapItem_eq]
  simp only [hfst]
  refine ⟨_, _, rfl, ⟨rfl, ?_, ?_⟩, ?_, fun pyKey hkey => by rw [hkey], rfl⟩
  · rw [List.map_append]
    exact htable
  · refine forall_split_concat h.follows
      ⟨holds_of_holdsFirst h.table, ?_, Memo.prefix_fetch _ _ _ _, fun hkey => ?_⟩
    · rw [List.map_append]
      exact holds_of_holdsFirst htable
    · have hfetch := Memo.fetch_of_error h.table.sound (fromBytes_of_invalid hkey) pyMapKeyCacheMax
      simp [hfetch, fromBytes_of_invalid hkey]
  · rw [List.map_append]
    rfl

/-! ### The decoder -/

/-- What is done to the cell ends as what is done to the map, keeps the invariant and passes
`keys` to `set_cached_map_item`. -/
def AgreesWith (cell : KeyCell)
    (onCell : Except BorrowMutError (Except MaxMindDbError PyObj × KeyCell))
    (onMap : Except MaxMindDbError PyObj × KeyCache) (keys : List (List UInt8)) : Prop :=
  ∃ cell', onCell = .ok (onMap.1, cell') ∧ cell'.Inv ∧ cell'.cache = onMap.2 ∧
    cell'.calls.map KeyCall.key = cell.calls.map KeyCall.key ++ keys

/-- The decoder on the cell does with a value what the decoder on the map does. -/
def Agrees (v : MMValue) : Prop :=
  ∀ {cell : KeyCell}, cell.Inv →
    cell.AgreesWith (cell.deserialize v) (MaxminddbRust.deserialize cell.cache v) (itemKeys v)

/-- Nothing is done. -/
lemma agreesWith_done {cell : KeyCell} (h : cell.Inv) (r : Except MaxMindDbError PyObj) :
    cell.AgreesWith (.ok (r, cell)) (r, cell.cache) [] :=
  ⟨cell, rfl, h, rfl, (List.append_nil _).symm⟩

/-- First this, then that. -/
lemma AgreesWith.trans {cell cell' : KeyCell} {keys keys' : List (List UInt8)}
    {onCell : Except BorrowMutError (Except MaxMindDbError PyObj × KeyCell)}
    {onMap : Except MaxMindDbError PyObj × KeyCache}
    (hkeys : cell'.calls.map KeyCall.key = cell.calls.map KeyCall.key ++ keys)
    (h : cell'.AgreesWith onCell onMap keys') : cell.AgreesWith onCell onMap (keys ++ keys') := by
  obtain ⟨cell'', hcell, hinv, hcache, hkeys'⟩ := h
  refine ⟨cell'', hcell, hinv, hcache, ?_⟩
  calc cell''.calls.map KeyCall.key = cell'.calls.map KeyCall.key ++ keys' := hkeys'
    _ = cell.calls.map KeyCall.key ++ (keys ++ keys') := by rw [hkeys, List.append_assoc]

/-- The loop of `visit_seq` over elements on which the decoders agree. -/
lemma visitSeq_agrees : ∀ {xs : List MMValue}, (∀ x ∈ xs, Agrees x) →
    ∀ {cell : KeyCell}, cell.Inv → ∀ elements : List PyObj,
      cell.AgreesWith (cell.visitSeq elements xs)
        (MaxminddbRust.visitSeq cell.cache elements xs) (seqKeys xs)
  | [], _, cell, h, elements => by
      rw [visitSeq, MaxminddbRust.visitSeq, seqKeys]
      exact agreesWith_done h _
  | x :: xs, hall, cell, h, elements => by
      obtain ⟨cell', hx, hinv, hcache, hkeys⟩ := hall x List.mem_cons_self h
      have hdenote := deserialize_fst h.table.sound x
      rw [visitSeq, MaxminddbRust.visitSeq, seqKeys, hx, ← hdenote]
      cases hd : MaxminddbRust.deserialize cell.cache x with
      | mk r cache' =>
          rw [hd] at hcache
          obtain rfl : cell'.cache = cache' := hcache
          cases r with
          | error e => exact .trans hkeys (agreesWith_done hinv _)
          | ok elem =>
              exact .trans hkeys (visitSeq_agrees
                (fun y hy => hall y (List.mem_cons_of_mem _ hy)) hinv (elements ++ [elem]))

/-- The loop of `visit_map` over entries on whose values the decoders agree. -/
lemma visitMap_agrees : ∀ {kvs : List (List UInt8 × MMValue)}, (∀ e ∈ kvs, Agrees e.2) →
    ∀ {cell : KeyCell}, cell.Inv → ∀ dict : PyDict,
      cell.AgreesWith (cell.visitMap dict kvs)
        (MaxminddbRust.visitMap cell.cache dict kvs) (mapKeys kvs)
  | [], _, cell, h, dict => by
      rw [visitMap, MaxminddbRust.visitMap, mapKeys]
      exact agreesWith_done h _
  | (key, v) :: kvs, hall, cell, h, dict => by
      obtain ⟨cell', hv, hinv, hcache, hkeys⟩ := hall (key, v) List.mem_cons_self h
      have hdenote := deserialize_fst h.table.sound v
      rw [visitMap, MaxminddbRust.visitMap, mapKeys, hv, ← hdenote]
      cases hd : MaxminddbRust.deserialize cell.cache v with
      | mk r cache' =>
          rw [hd] at hcache
          obtain rfl : cell'.cache = cache' := hcache
          cases r with
          | error e => exact .trans hkeys (agreesWith_done hinv _)
          | ok value =>
              -- the value has been decoded, so the cell is free again
              obtain ⟨dict', cell'', hset, hinv', hkeys', hdict, hcache'⟩ :=
                hinv.setItemBorrowed dict key value
              obtain ⟨hmap, -⟩ := setCachedMapItem_of_sound hinv.table.sound dict key value
              refine .trans hkeys ?_
              show cell'.AgreesWith _ _ ([key] ++ if PyStr.ValidUtf8 key then mapKeys kvs else [])
              refine .trans hkeys' ?_
              simp only [setCachedMapItem_eq hinv.free, hset]
              cases hs : MaxminddbRust.setCachedMapItem cell'.cache dict key value with
              | mk result cache'' =>
                  rw [hs] at hmap hcache'
                  simp only at hmap
                  obtain rfl : cell''.cache = cache'' := hcache'
                  subst hmap
                  by_cases hkey : PyStr.ValidUtf8 key
                  · rw [fromBytes_of_valid hkey] at hdict
                    rw [if_pos hkey, fromBytes_of_valid hkey, hdict _ rfl]
                    exact visitMap_agrees (fun e he => hall e (List.mem_cons_of_mem _ he)) hinv' _
                  · rw [if_neg hkey, fromBytes_of_invalid hkey]
                    exact agreesWith_done hinv' _

/-- **The decoder on the cell**, over every record: it never panics, does what the decoder on the
map does, keeps the invariant, and passes the keys of the record to `set_cached_map_item`. -/
lemma deserialize_agrees (v : MMValue) : Agrees v := by
  induction v using MMValue.ind with
  | scalar s =>
      intro cell h
      rw [deserialize, MaxminddbRust.deserialize, itemKeys]
      exact agreesWith_done h _
  | array xs ih =>
      intro cell h
      rw [deserialize, MaxminddbRust.deserialize, itemKeys]
      exact visitSeq_agrees ih h []
  | map kvs ih =>
      intro cell h
      rw [deserialize, MaxminddbRust.deserialize, itemKeys]
      exact visitMap_agrees ih h []

/-- A sequence of decodes never panics, gives what the records denote, keeps the invariant and
passes the keys of the records one after the other. -/
lemma Inv.decodeAll : ∀ (vs : List MMValue) {cell : KeyCell}, cell.Inv →
    ∃ cell', cell.decodeAll vs = .ok (vs.map denote, cell') ∧ cell'.Inv ∧
      cell'.calls.map KeyCall.key = cell.calls.map KeyCall.key ++ vs.flatMap itemKeys
  | [], cell, h => ⟨cell, rfl, h, (List.append_nil _).symm⟩
  | v :: vs, cell, h => by
      obtain ⟨cell', hv, hinv, -, hkeys⟩ := deserialize_agrees v h
      obtain ⟨cell'', hvs, hinv', hkeys'⟩ := Inv.decodeAll vs hinv
      refine ⟨cell'', ?_, hinv', ?_⟩
      · rw [KeyCell.decodeAll, hv, deserialize_fst h.table.sound]
        simp only [hvs]
        rfl
      · calc cell''.calls.map KeyCall.key
            = cell'.calls.map KeyCall.key ++ vs.flatMap itemKeys := hkeys'
          _ = cell.calls.map KeyCall.key ++ (itemKeys v ++ vs.flatMap itemKeys) := by
            rw [hkeys, List.append_assoc]
          _ = cell.calls.map KeyCall.key ++ (v :: vs).flatMap itemKeys := by
            rw [List.flatMap_cons]

/-- **The shape of the cache of key objects**: after every sequence of decodes on one thread, and
before and after every call of `set_cached_map_item` in it, the cache holds the first 256 distinct
keys that were passed and are UTF-8, each with the `str` that it encodes; no entry is replaced or
removed; a key that is not UTF-8 changes neither the cache nor the dict; no call finds the cell
borrowed, and the cell is free in the end. The keys passed are those of the records, those in the
value of an entry before its own. -/
theorem decodeAll_shape (records : List MMValue) :
    ∃ results cell, new.decodeAll records = .ok (results, cell) ∧ cell.borrowed = false ∧
      Holds (cell.calls.map KeyCall.key) cell.cache ∧ cell.cache.length ≤ 256 ∧
      (∀ before call after, cell.calls = before ++ call :: after → Follows before call) ∧
      cell.calls.map KeyCall.key = records.flatMap itemKeys ∧ results = records.map denote := by
  obtain ⟨cell, hrun, hinv, hkeys⟩ := Inv.decodeAll records inv_new
  exact ⟨_, cell, hrun, hinv.free, holds_of_holdsFirst hinv.table, hinv.table.length_le,
    hinv.follows, hkeys, rfl⟩

/-- A record with a map in it, a key twice and, last, one that is not UTF-8. -/
def nestedMap : MMValue :=
  .map [([97], .map [([98], .scalar (.bool true))]), ([97], .scalar (.bool false)),
    ([255], .scalar (.bool true))]

/-- Two decodes of it, which fail at the last key. -/
theorem decodeAll_shape_nestedMap :
    ∃ results cell, new.decodeAll [nestedMap, nestedMap] = .ok (results, cell) ∧
      cell.calls.map KeyCall.key = [[98], [97], [97], [255], [98], [97], [97], [255]] ∧
      cell.cache.map Prod.fst = [[98], [97]] ∧ ∃ e, results = [.error e, .error e] := by
  obtain ⟨results, cell, hrun, -, hholds, -, -, hkeys, hresults⟩ :=
    decodeAll_shape [nestedMap, nestedMap]
  have hlog : cell.calls.map KeyCall.key = [[98], [97], [97], [255], [98], [97], [97], [255]] :=
    hkeys.trans (by decide)
  refine ⟨results, cell, hrun, hlog, ?_, _, hresults⟩
  rw [hholds.keys_eq, hlog]
  decide

end KeyCell

end MaxminddbRust
