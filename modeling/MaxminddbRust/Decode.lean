import MaxminddbRust.Python
import MaxminddbRust.Data.Memo

/-!
`decode.rs`: a record of the data section becomes a Python object.

* `MMValue`: a record as the tree that the crate's deserializer presents to a visitor, each
  value through the visitor method of its type, strings and map keys as borrowed bytes.
* `setCachedMapItem`: assignment to a dict through the thread's cache of key objects.
* `deserialize`, with `visitSeq` and `visitMap`: the decoder, which threads the cache through
  the whole tree and keeps its updates when it fails.
* `denote`: the same tree without a cache. `deserialize_eq`: from a sound cache the decoder
  returns what `denote` returns and leaves a sound cache; `Reachable.sound`: the caches that
  decodes produce are sound.
-/

namespace MaxminddbRust

/-! ### Records -/

/-- A value of the data section other than an array or a map. `corrupt` stands for a place where
the deserializer itself fails. -/
inductive MMScalar where
  | bool (b : Bool)
  | int32 (n : Int32)
  | uint16 (n : UInt16)
  | uint32 (n : UInt32)
  | uint64 (n : UInt64)
  | uint128 (n : BitVec 128)
  | float (x : Float32)
  | double (x : Float)
  | bytes (b : List UInt8)
  | string (b : List UInt8)
  | corrupt (e : MaxMindDbError)

/-- A record: a tree of arrays and maps over the other values. Map keys are the bytes of the
record, in record order, and may repeat. -/
inductive MMValue where
  | scalar (s : MMScalar)
  | array (xs : List MMValue)
  | map (kvs : List (List UInt8 × MMValue))

namespace MMValue

/-- The induction principle of the nested inductive: a property holds of every record once it
holds of the scalars and is inherited from the elements of an array and the values of a map. -/
@[elab_as_elim]
theorem ind {P : MMValue → Prop} (scalar : ∀ s, P (.scalar s))
    (array : ∀ xs : List MMValue, (∀ x ∈ xs, P x) → P (.array xs))
    (map : ∀ kvs : List (List UInt8 × MMValue), (∀ e ∈ kvs, P e.2) → P (.map kvs))
    (v : MMValue) : P v :=
  @MMValue.rec P (fun xs => ∀ x ∈ xs, P x) (fun kvs => ∀ e ∈ kvs, P e.2) (fun e => P e.2)
    scalar (fun xs ih => array xs ih) (fun kvs ih => map kvs ih)
    (fun x hx => absurd hx (by simp))
    (fun _ _ ihh iht x hx => by
      rcases List.mem_cons.mp hx with rfl | hx'
      · exact ihh
      · exact iht x hx')
    (fun e he => absurd he (by simp))
    (fun _ _ ihh iht e he => by
      rcases List.mem_cons.mp he with rfl | he'
      · exact ihh
      · exact iht e he')
    (fun _ _ ih => ih)
    v

end MMValue

/-! ### The cache of key objects -/

/-- `PY_MAP_KEY_CACHE` of one thread, in the order of insertion. -/
abbrev KeyCache := List (List UInt8 × PyStr)

/-- `PY_MAP_KEY_CACHE_MAX`. -/
def pyMapKeyCacheMax : ℕ := 256

/-- `PyDict`, in its iteration order. -/
abbrev PyDict := List (PyStr × PyObj)

/-- `PyDict::set_item`. -/
def PyDict.setItem (dict : PyDict) (key : PyStr) (value : PyObj) : PyDict :=
  OrderedDict.insert dict key value

/-- `set_cached_map_item`: the dict with the item set, or the error, and the cache after it. -/
def setCachedMapItem (cache : KeyCache) (dict : PyDict) (key : List UInt8) (value : PyObj) :
    Except UnicodeDecodeError PyDict × KeyCache :=
  match cache.lookup key with
  | some existing => (.ok (dict.setItem existing value), cache)
  | none =>
      if cache.length ≥ pyMapKeyCacheMax then
        match PyStr.fromBytes key with
        | .error e => (.error e, cache)
        | .ok pyKey => (.ok (dict.setItem pyKey value), cache)
      else
        match PyStr.fromBytes key with
        | .error e => (.error e, cache)
        | .ok pyKey => (.ok (dict.setItem pyKey value), cache ++ [(key, pyKey)])

/-- The cache is a memo table of `PyString::from_bytes`, and the assignment uses the fetched
key object. -/
lemma setCachedMapItem_eq (cache : KeyCache) (dict : PyDict) (key : List UInt8)
    (value : PyObj) :
    setCachedMapItem cache dict key value
      = (((Memo.fetch PyStr.fromBytes pyMapKeyCacheMax cache key).1.map
            fun pyKey => dict.setItem pyKey value),
          (Memo.fetch PyStr.fromBytes pyMapKeyCacheMax cache key).2) := by
  rw [setCachedMapItem, Memo.fetch]
  cases cache.lookup key with
  | some existing => rfl
  | none =>
      by_cases h : cache.length < pyMapKeyCacheMax
      · cases PyStr.fromBytes key <;> simp [Except.map, h, Nat.not_le.mpr h]
      · cases PyStr.fromBytes key <;> simp [Except.map, h, Nat.not_lt.mp h]

/-! ### The visitor -/

/-- `pyerr_to_de_error`: `E::custom` of the exception's text. -/
def pyerrToDeError (err : UnicodeDecodeError) : MaxMindDbError := .Decoding (.pyErr err)

/-- `bound_to_value`. -/
def boundToValue (result : Except UnicodeDecodeError PyObj) : Except MaxMindDbError PyObj :=
  result.mapError pyerrToDeError

/-- `PyStringBytesVisitor::visit_borrowed_bytes`, which `visit_newtype_struct` hands a string to. -/
def visitBorrowedBytes (value : List UInt8) : Except MaxMindDbError PyObj :=
  boundToValue ((PyStr.fromBytes value).map .str)

/-- The methods of `PyValueVisitor` for values other than arrays and maps. -/
def visitScalar : MMScalar → Except MaxMindDbError PyObj
  | .bool b => .ok (.bool b)
  | .int32 n => .ok (.int n.toInt)
  | .uint16 n => .ok (.int n.toNat)
  | .uint32 n => .ok (.int n.toNat)
  | .uint64 n => .ok (.int n.toNat)
  | .uint128 n => .ok (.int n.toNat)
  | .float x => .ok (.float x.toFloat)
  | .double x => .ok (.float x)
  | .bytes b => .ok (.bytes b)
  | .string b => visitBorrowedBytes b
  | .corrupt e => .error e

mutual

/-- `PyValueSeed::deserialize`: the object, or the error, and the cache after it. -/
def deserialize (cache : KeyCache) : MMValue → Except MaxMindDbError PyObj × KeyCache
  | .scalar s => (visitScalar s, cache)
  | .array xs => visitSeq cache [] xs
  | .map kvs => visitMap cache [] kvs

/-- The loop of `visit_seq` with the elements so far. -/
def visitSeq (cache : KeyCache) (elements : List PyObj) :
    List MMValue → Except MaxMindDbError PyObj × KeyCache
  | [] => (.ok (.list elements), cache)
  | x :: xs => match deserialize cache x with
      | (.error e, cache) => (.error e, cache)
      | (.ok elem, cache) => visitSeq cache (elements ++ [elem]) xs

/-- The loop of `visit_map` with the dict so far. The value is decoded before its key is looked
up in the cache. -/
def visitMap (cache : KeyCache) (dict : PyDict) :
    List (List UInt8 × MMValue) → Except MaxMindDbError PyObj × KeyCache
  | [] => (.ok (.dict dict), cache)
  | (key, v) :: kvs => match deserialize cache v with
      | (.error e, cache) => (.error e, cache)
      | (.ok value, cache) => match setCachedMapItem cache dict key value with
          | (.error e, cache) => (.error (pyerrToDeError e), cache)
          | (.ok dict, cache) => visitMap cache dict kvs

end

/-! ### Decoding without a cache -/

mutual

/-- What a record decodes to, or the first error in record order. -/
def denote : MMValue → Except MaxMindDbError PyObj
  | .scalar s => visitScalar s
  | .array xs => (denoteSeq xs).map .list
  | .map kvs => (denoteMap kvs).map fun es => .dict (OrderedDict.ofEntries es)

/-- What the elements of an array decode to. -/
def denoteSeq : List MMValue → Except MaxMindDbError (List PyObj)
  | [] => .ok []
  | x :: xs => match denote x with
      | .error e => .error e
      | .ok y => (denoteSeq xs).map fun ys => y :: ys

/-- What the entries of a map decode to, value first. -/
def denoteMap : List (List UInt8 × MMValue) → Except MaxMindDbError (List (PyStr × PyObj))
  | [] => .ok []
  | (key, v) :: kvs => match denote v with
      | .error e => .error e
      | .ok value => match PyStr.fromBytes key with
          | .error e => .error (pyerrToDeError e)
          | .ok pyKey => (denoteMap kvs).map fun es => (pyKey, value) :: es

end

namespace KeyCache

/-- Every key object in the cache is the one its bytes decode to. -/
def Sound (cache : KeyCache) : Prop := Memo.Sound PyStr.fromBytes cache

/-- The caches that decodes on one thread produce, succeeding or failing. -/
inductive Reachable : KeyCache → Prop
  | empty : Reachable []
  | decode {cache : KeyCache} (h : Reachable cache) (v : MMValue) :
      Reachable (deserialize cache v).2

end KeyCache

/-- The decoder agrees with `denote` on a record, from every sound cache, and keeps the cache
sound. -/
def DecodesTo (v : MMValue) : Prop :=
  ∀ cache : KeyCache, cache.Sound →
    (deserialize cache v).1 = denote v ∧ (deserialize cache v).2.Sound

/-- One assignment through a sound cache is the assignment under the decoded key. -/
lemma setCachedMapItem_of_sound {cache : KeyCache} (h : cache.Sound) (dict : PyDict)
    (key : List UInt8) (value : PyObj) :
    (setCachedMapItem cache dict key value).1
        = (PyStr.fromBytes key).map (fun pyKey => dict.setItem pyKey value) ∧
      (setCachedMapItem cache dict key value).2.Sound := by
  rw [setCachedMapItem_eq]
  exact ⟨by rw [Memo.fetch_fst h], Memo.Sound.fetch h _ _⟩

/-- The loop of `visit_seq` over elements on which the decoder agrees with `denote`. -/
lemma visitSeq_eq : ∀ {xs : List MMValue}, (∀ x ∈ xs, DecodesTo x) →
    ∀ {cache : KeyCache}, cache.Sound → ∀ elements : List PyObj,
      (visitSeq cache elements xs).1
          = (denoteSeq xs).map (fun ys => PyObj.list (elements ++ ys)) ∧
        (visitSeq cache elements xs).2.Sound
  | [], _, cache, h, elements => by simp [visitSeq, denoteSeq, Except.map, h]
  | x :: xs, hall, cache, h, elements => by
      obtain ⟨h1, h2⟩ := hall x List.mem_cons_self cache h
      have ih := fun {cache : KeyCache} (h : cache.Sound) =>
        visitSeq_eq (fun y hy => hall y (List.mem_cons_of_mem _ hy)) h
      rw [visitSeq, denoteSeq, ← h1]
      cases hd : deserialize cache x with
      | mk r cache' =>
          rw [hd] at h2
          cases r with
          | error e => exact ⟨rfl, h2⟩
          | ok elem =>
              obtain ⟨ih1, ih2⟩ := ih h2 (elements ++ [elem])
              refine ⟨?_, ih2⟩
              rw [ih1]
              cases denoteSeq xs <;> simp [Except.map]

/-- The loop of `visit_map` over entries on whose values the decoder agrees with `denote`. -/
lemma visitMap_eq : ∀ {kvs : List (List UInt8 × MMValue)}, (∀ e ∈ kvs, DecodesTo e.2) →
    ∀ {cache : KeyCache}, cache.Sound → ∀ dict : PyDict,
      (visitMap cache dict kvs).1
          = (denoteMap kvs).map
              (fun es => PyObj.dict (es.foldl (fun d e => OrderedDict.insert d e.1 e.2) dict)) ∧
        (visitMap cache dict kvs).2.Sound
  | [], _, cache, h, dict => by simp [visitMap, denoteMap, Except.map, h]
  | (key, v) :: kvs, hall, cache, h, dict => by
      obtain ⟨h1, h2⟩ := hall (key, v) List.mem_cons_self cache h
      have ih := fun {cache : KeyCache} (h : cache.Sound) =>
        visitMap_eq (fun e he => hall e (List.mem_cons_of_mem _ he)) h
      rw [visitMap, denoteMap, ← h1]
      cases hd : deserialize cache v with
      | mk r cache' =>
          rw [hd] at h2
          cases r with
          | error e => exact ⟨rfl, h2⟩
          | ok value =>
              obtain ⟨hs1, hs2⟩ := setCachedMapItem_of_sound h2 dict key value
              simp only
              cases hs : setCachedMapItem cache' dict key value with
              | mk s cache'' =>
                  rw [hs] at hs1 hs2
                  simp only at hs1
                  subst hs1
                  cases PyStr.fromBytes key with
                  | error e => exact ⟨rfl, hs2⟩
                  | ok pyKey =>
                      obtain ⟨ih1, ih2⟩ := ih hs2 (dict.setItem pyKey value)
                      refine ⟨?_, ih2⟩
                      simp only [Except.map] at ih1 ⊢
                      rw [ih1]
                      cases denoteMap kvs <;> rfl

/-- **The cache does not show**: from a sound cache the decoder returns what `denote` returns,
and leaves a sound cache, whether it succeeds or fails. -/
theorem deserialize_eq (v : MMValue) : DecodesTo v := by
  induction v using MMValue.ind with
  | scalar s => exact fun cache h => ⟨by rw [deserialize, denote], by rw [deserialize]; exact h⟩
  | array xs ih =>
      intro cache h
      rw [deserialize, denote]
      exact visitSeq_eq ih h []
  | map kvs ih =>
      intro cache h
      rw [deserialize, denote]
      exact visitMap_eq ih h []

lemma deserialize_fst {cache : KeyCache} (h : cache.Sound) (v : MMValue) :
    (deserialize cache v).1 = denote v := (deserialize_eq v cache h).1

/-- A decode keeps the cache sound. -/
lemma KeyCache.Sound.deserialize {cache : KeyCache} (h : cache.Sound) (v : MMValue) :
    (deserialize cache v).2.Sound := (deserialize_eq v cache h).2

/-- The caches that decodes produce are sound. -/
lemma KeyCache.Reachable.sound {cache : KeyCache} (h : cache.Reachable) : cache.Sound := by
  induction h with
  | empty => exact Memo.sound_nil
  | decode _ v ih => exact ih.deserialize v

end MaxminddbRust
