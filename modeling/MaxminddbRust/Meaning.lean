import MaxminddbRust.Decode

/-!
The meaning of a record, and the decoder against it.

* `MMValue.meaning`: every integer with its value, byte strings as bytes, strings as the text
  their bytes encode, arrays element by element, and maps as the dict in which each distinct key
  stands at its first occurrence with its last value (`lastValues`).
* `MMValue.HasInvalidUtf8`: some string or map key, at any depth, is not UTF-8.
* `denote_of_valid`, `denote_of_invalid`: decoding without a cache returns the meaning, or fails
  on invalid UTF-8 anywhere.
* `deserialize_correct`: the decoder, from every cache that decodes produce.
-/

namespace MaxminddbRust

/-- The `str` that bytes encode, empty where they encode none. -/
def text (bytes : List UInt8) : PyStr :=
  PyStr.ofString ((String.fromUTF8? bytes.toByteArray).getD "")

lemma fromBytes_of_valid {bytes : List UInt8} (h : PyStr.ValidUtf8 bytes) :
    PyStr.fromBytes bytes = .ok (text bytes) := by
  have h' : bytes.toByteArray.IsValidUTF8 := h
  rw [PyStr.fromBytes, text, String.fromUTF8?, dif_pos h']
  rfl

lemma fromBytes_of_invalid {bytes : List UInt8} (h : ¬PyStr.ValidUtf8 bytes) :
    PyStr.fromBytes bytes = .error ⟨bytes⟩ :=
  PyStr.fromBytes_eq_error_iff.mpr ⟨h, rfl⟩

/-- The dict of a list of entries: the distinct keys in the order of their first occurrence, each
with its last value. -/
def lastValues (es : List (PyStr × PyObj)) : PyDict :=
  (es.map Prod.fst).eraseDups.filterMap fun k => (es.reverse.lookup k).map fun v => (k, v)

/-- The meaning of a value other than an array or a map. -/
def MMScalar.meaning : MMScalar → PyObj
  | .bool b => .bool b
  | .int32 n => .int n.toInt
  | .uint16 n => .int n.toNat
  | .uint32 n => .int n.toNat
  | .uint64 n => .int n.toNat
  | .uint128 n => .int n.toNat
  | .float x => .float x.toFloat
  | .double x => .float x
  | .bytes b => .bytes b
  | .string b => .str (text b)
  | .corrupt _ => .none

namespace MMValue

mutual

/-- The meaning of a record. -/
def meaning : MMValue → PyObj
  | .scalar s => s.meaning
  | .array xs => .list (meaningSeq xs)
  | .map kvs => .dict (lastValues (meaningMap kvs))

/-- The meanings of the elements of an array. -/
def meaningSeq : List MMValue → List PyObj
  | [] => []
  | x :: xs => meaning x :: meaningSeq xs

/-- The entries of a map, in record order. -/
def meaningMap : List (List UInt8 × MMValue) → List (PyStr × PyObj)
  | [] => []
  | (key, v) :: kvs => (text key, meaning v) :: meaningMap kvs

end

/-- Some scalar of the record satisfies `p`, or some map key satisfies `q`, at any depth. -/
inductive Somewhere (p : MMScalar → Prop) (q : List UInt8 → Prop) : MMValue → Prop
  | scalar {s : MMScalar} (h : p s) : Somewhere p q (.scalar s)
  | element {xs : List MMValue} {x : MMValue} (hx : x ∈ xs) (h : Somewhere p q x) :
      Somewhere p q (.array xs)
  | key {kvs : List (List UInt8 × MMValue)} {e : List UInt8 × MMValue} (he : e ∈ kvs)
      (h : q e.1) : Somewhere p q (.map kvs)
  | value {kvs : List (List UInt8 × MMValue)} {e : List UInt8 × MMValue} (he : e ∈ kvs)
      (h : Somewhere p q e.2) : Somewhere p q (.map kvs)

section Somewhere

variable {p : MMScalar → Prop} {q : List UInt8 → Prop}

@[simp] lemma somewhere_scalar {s : MMScalar} : Somewhere p q (.scalar s) ↔ p s :=
  ⟨fun h => by cases h; assumption, .scalar⟩

@[simp] lemma somewhere_array {xs : List MMValue} :
    Somewhere p q (.array xs) ↔ ∃ x ∈ xs, Somewhere p q x :=
  ⟨fun h => by cases h with | element hx h => exact ⟨_, hx, h⟩, fun ⟨_, hx, h⟩ => .element hx h⟩

@[simp] lemma somewhere_map {kvs : List (List UInt8 × MMValue)} :
    Somewhere p q (.map kvs) ↔ ∃ e ∈ kvs, q e.1 ∨ Somewhere p q e.2 := by
  refine ⟨fun h => ?_, fun ⟨_, he, h⟩ => h.elim (.key he) (.value he)⟩
  cases h with
  | key he h => exact ⟨_, he, Or.inl h⟩
  | value he h => exact ⟨_, he, Or.inr h⟩

end Somewhere

/-- At least one string or map key anywhere in the record is not UTF-8. -/
def HasInvalidUtf8 : MMValue → Prop :=
  Somewhere (fun s => ∃ b, s = .string b ∧ ¬PyStr.ValidUtf8 b) fun key => ¬PyStr.ValidUtf8 key

/-- The deserializer itself fails somewhere in the record. -/
def Corrupt : MMValue → Prop := Somewhere (fun s => ∃ e, s = .corrupt e) fun _ => False

end MMValue

/-! ### Decoding without a cache -/

/-- A sequence of decodable elements decodes to their meanings. -/
lemma denoteSeq_of_ok : ∀ {xs : List MMValue}, (∀ x ∈ xs, denote x = .ok x.meaning) →
    denoteSeq xs = .ok (MMValue.meaningSeq xs)
  | [], _ => rfl
  | x :: xs, h => by
      rw [denoteSeq, h x List.mem_cons_self,
        denoteSeq_of_ok fun y hy => h y (List.mem_cons_of_mem _ hy)]
      rfl

/-- A sequence of entries with valid keys and decodable values decodes to their meanings. -/
lemma denoteMap_of_ok : ∀ {kvs : List (List UInt8 × MMValue)},
    (∀ e ∈ kvs, PyStr.ValidUtf8 e.1) → (∀ e ∈ kvs, denote e.2 = .ok e.2.meaning) →
    denoteMap kvs = .ok (MMValue.meaningMap kvs)
  | [], _, _ => rfl
  | (key, v) :: kvs, hk, hv => by
      rw [denoteMap, hv (key, v) List.mem_cons_self]
      simp only
      rw [fromBytes_of_valid (hk (key, v) List.mem_cons_self)]
      simp only
      rw [denoteMap_of_ok (fun e he => hk e (List.mem_cons_of_mem _ he))
          fun e he => hv e (List.mem_cons_of_mem _ he)]
      rfl

/-- **A record without invalid UTF-8 decodes to its meaning.** -/
theorem denote_of_valid {v : MMValue} (hc : ¬v.Corrupt) (hu : ¬v.HasInvalidUtf8) :
    denote v = .ok v.meaning := by
  induction v using MMValue.ind with
  | scalar s =>
      rw [denote, MMValue.meaning]
      cases s with
      | string b =>
          have hb : PyStr.ValidUtf8 b := by
            by_contra hb
            exact hu (.scalar ⟨b, rfl, hb⟩)
          rw [visitScalar, visitBorrowedBytes, fromBytes_of_valid hb]
          rfl
      | corrupt e => exact absurd (.scalar ⟨e, rfl⟩) hc
      | _ => rfl
  | array xs ih =>
      rw [denote, MMValue.meaning, denoteSeq_of_ok fun x hx =>
        ih x hx (fun h => hc (.element hx h)) (fun h => hu (.element hx h))]
      rfl
  | map kvs ih =>
      have hk : ∀ e ∈ kvs, PyStr.ValidUtf8 e.1 := by
        intro e he
        by_contra hb
        exact hu (.key he hb)
      rw [denote, MMValue.meaning, denoteMap_of_ok hk fun e he =>
        ih e he (fun h => hc (.value he h)) (fun h => hu (.value he h))]
      simp only [Except.map, OrderedDict.ofEntries_eq, lastValues]

/-- An element that fails makes the sequence fail. -/
lemma denoteSeq_of_error : ∀ {xs : List MMValue} {x : MMValue}, x ∈ xs →
    (∃ e, denote x = .error e) → ∃ e, denoteSeq xs = .error e
  | y :: xs, x, hx, h => by
      rw [denoteSeq]
      cases hd : denote y with
      | error e => exact ⟨e, rfl⟩
      | ok z =>
          rcases List.mem_cons.mp hx with rfl | hx
          · obtain ⟨e, he⟩ := h
            rw [he] at hd
            cases hd
          · obtain ⟨e, he⟩ := denoteSeq_of_error hx h
            exact ⟨e, by rw [he]; rfl⟩

/-- An entry whose key is not UTF-8, or whose value fails, makes the map fail. -/
lemma denoteMap_of_error : ∀ {kvs : List (List UInt8 × MMValue)} {e : List UInt8 × MMValue},
    e ∈ kvs → (¬PyStr.ValidUtf8 e.1 ∨ ∃ err, denote e.2 = .error err) →
    ∃ err, denoteMap kvs = .error err
  | (key, v) :: kvs, e, he, h => by
      rw [denoteMap]
      cases hd : denote v with
      | error err => exact ⟨err, rfl⟩
      | ok value =>
          simp only
          cases hk : PyStr.fromBytes key with
          | error err => exact ⟨_, rfl⟩
          | ok pyKey =>
              rcases List.mem_cons.mp he with rfl | he
              · rcases h with h | ⟨err, h⟩
                · rw [fromBytes_of_invalid h] at hk
                  cases hk
                · rw [h] at hd
                  cases hd
              · obtain ⟨err, herr⟩ := denoteMap_of_error he h
                exact ⟨err, by simp only [herr]; rfl⟩

/-- **A record with invalid UTF-8 anywhere does not decode.** -/
theorem denote_of_invalid {v : MMValue} (h : v.HasInvalidUtf8) : ∃ e, denote v = .error e := by
  induction h with
  | scalar hs =>
      obtain ⟨b, rfl, hb⟩ := hs
      exact ⟨_, by rw [denote, visitScalar, visitBorrowedBytes, fromBytes_of_invalid hb]; rfl⟩
  | element hx _ ih =>
      obtain ⟨e, he⟩ := denoteSeq_of_error hx ih
      exact ⟨e, by rw [denote, he]; rfl⟩
  | key he hk =>
      obtain ⟨e, h⟩ := denoteMap_of_error he (Or.inl hk)
      exact ⟨e, by rw [denote, h]; rfl⟩
  | value he _ ih =>
      obtain ⟨e, h⟩ := denoteMap_of_error he (Or.inr ih)
      exact ⟨e, by rw [denote, h]; rfl⟩

/-! ### The decoder -/

/-- **Decoding is correct and independent of the thread's cache**: of a record that the
deserializer can present, from every cache that decodes produce, the decoder fails iff some
string or map key is not UTF-8, returns the meaning otherwise, and returns the same from any
other such cache. -/
theorem deserialize_correct {v : MMValue} (hv : ¬v.Corrupt) {cache : KeyCache}
    (h : cache.Reachable) :
    ((∃ e, (deserialize cache v).1 = .error e) ↔ v.HasInvalidUtf8) ∧
      (¬v.HasInvalidUtf8 → (deserialize cache v).1 = .ok v.meaning) ∧
      ∀ cache' : KeyCache, cache'.Reachable →
        (deserialize cache' v).1 = (deserialize cache v).1 := by
  rw [deserialize_fst h.sound]
  refine ⟨⟨fun ⟨e, he⟩ => ?_, denote_of_invalid⟩, denote_of_valid hv, fun cache' h' => ?_⟩
  · by_contra hu
    rw [denote_of_valid hv hu] at he
    cases he
  · exact deserialize_fst h'.sound v

/-- A map that repeats a key around an array of strings. -/
def repeatedKey : MMValue :=
  .map [([97], .scalar (.uint16 1)), ([98], .array [.scalar (.string [99])]),
    ([97], .scalar (.int32 (-2)))]

/-- A repeated key decoded again, after a decode that failed and left its keys in the cache. -/
theorem deserialize_correct_repeatedKey :
    (deserialize (deserialize [] (.array [repeatedKey, .scalar (.string [128])])).2
        repeatedKey).1
      = .ok (.dict [(⟨[97]⟩, .int (-2)), (⟨[98]⟩, .list [.str ⟨[99]⟩])]) := by
  have hc : ¬repeatedKey.Corrupt := by simp [repeatedKey, MMValue.Corrupt]
  have hu : ¬repeatedKey.HasInvalidUtf8 := by
    simp [repeatedKey, MMValue.HasInvalidUtf8, PyStr.ValidUtf8]
    decide
  exact (deserialize_correct hc (.decode .empty _)).2.1 hu

end MaxminddbRust
