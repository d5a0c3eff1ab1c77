import MaxminddbRust.Decode
import MaxminddbRust.Meaning
import MaxminddbRust.Path

/-!
The source of a reader: what the binding uses of the crate, and `ReaderSource` of `lib.rs`.

* `MaxMindReader`, `LookupResult`: the crate's reader as the functions that the binding calls.
  They are parameters: which tree is walked and how is stated where a result needs it.
* `Decoding`: a computation that may decode, and so goes through the thread's cache of key
  objects. `Decoding.Returns`: it returns the same from every sound cache and keeps it sound.
* `ReaderSource.lookup`, `lookupPrefix`, `lookupPath`: the lookups, with `convertPrefixLen`;
  `lookup_returns` and its companions: what they return, whatever the cache.
-/

namespace MaxminddbRust

/-! ### The crate -/

/-- `maxminddb::Metadata`. -/
structure MaxMindMetadata where
  binaryFormatMajorVersion : UInt16
  binaryFormatMinorVersion : UInt16
  buildEpoch : UInt64
  databaseType : String
  description : List (String × String)
  ipVersion : UInt16
  languages : List String
  nodeCount : UInt32
  recordSize : UInt16
  deriving DecidableEq, Repr

/-- `maxminddb::LookupResult`: the network of the entry, its record if it has one, and the part
of the record that `decode_path` finds at a path. -/
structure LookupResult where
  network : Except MaxMindDbError IpNetwork
  record : Option MMValue
  select : List PathElement → Except MaxMindDbError (Option MMValue)

/-- `maxminddb::Reader`: its metadata, its point lookup, and the entries that `within` with the
default options enumerates under a network, in order. -/
structure MaxMindReader where
  metadata : MaxMindMetadata
  lookup : IpAddr → Except MaxMindDbError LookupResult
  within : IpNetwork → Except MaxMindDbError (List (Except MaxMindDbError LookupResult))

/-! ### Decoding through the thread's cache -/

/-- A computation over the cache of key objects of the thread it runs on. -/
abbrev Decoding (α : Type) := KeyCache → α × KeyCache

namespace Decoding

/-- The computation returns `a` from every sound cache and keeps the cache sound. -/
def Returns {α : Type} (f : Decoding α) (a : α) : Prop :=
  ∀ cache : KeyCache, cache.Sound → (f cache).1 = a ∧ (f cache).2.Sound

/-- The computation that decodes nothing. -/
lemma returns_const {α : Type} (a : α) : Returns (fun cache => (a, cache)) a :=
  fun _ h => ⟨rfl, h⟩

end Decoding

/-- Decoding an optional record to an optional object. -/
def decodeRecord : Option MMValue → Decoding (Except MaxMindDbError (Option PyObj))
  | none, cache => (.ok none, cache)
  | some v, cache => match deserialize cache v with
      | (.error e, cache) => (.error e, cache)
      | (.ok value, cache) => (.ok (some value), cache)

/-- `LookupResult::decode`. -/
def LookupResult.decode (result : LookupResult) :
    Decoding (Except MaxMindDbError (Option PyObj)) := decodeRecord result.record

/-- `LookupResult::decode_path`. -/
def LookupResult.decodePath (result : LookupResult) (path : List PathElement) :
    Decoding (Except MaxMindDbError (Option PyObj)) := fun cache =>
  match result.select path with
  | .error e => (.error e, cache)
  | .ok found => decodeRecord found cache

/-- What an optional record decodes to. -/
def denoteRecord : Option MMValue → Except MaxMindDbError (Option PyObj)
  | none => .ok none
  | some v => (denote v).map some

lemma decodeRecord_returns (record : Option MMValue) :
    (decodeRecord record).Returns (denoteRecord record) := by
  cases record with
  | none => exact Decoding.returns_const _
  | some v =>
      intro cache h
      obtain ⟨h1, h2⟩ := deserialize_eq v cache h
      rw [decodeRecord, denoteRecord, ← h1]
      cases hd : deserialize cache v with
      | mk r cache' =>
          rw [hd] at h2
          cases r <;> exact ⟨rfl, h2⟩

/-! ### The lookups -/

/-- `ReaderSource`. -/
inductive ReaderSource where
  | Mmap (reader : MaxMindReader)
  | Memory (reader : MaxMindReader)

namespace ReaderSource

/-- The reader of either kind of source. -/
def reader : ReaderSource → MaxMindReader
  | Mmap reader => reader
  | Memory reader => reader

/-- `ReaderSource::metadata`. -/
def metadata : ReaderSource → MaxMindMetadata
  | Mmap reader => reader.metadata
  | Memory reader => reader.metadata

end ReaderSource

/-- Either branch of `ReaderSource::lookup`. -/
def lookupIn (reader : MaxMindReader) (ip : IpAddr) :
    Decoding (Except MaxMindDbError (Option PyObj)) := fun cache =>
  match reader.lookup ip with
  | .error e => (.error e, cache)
  | .ok result => result.decode cache

/-- `convert_prefix_len`. The subtraction on naturals saturates, as the source's does. -/
def convertPrefixLen (queriedIp : IpAddr) (network : IpNetwork) : ℕ :=
  match queriedIp, network with
  | .V4 _, .V6 _ _ => network.prefixLen - 96
  | _, _ => network.prefixLen

/-- Either branch of `ReaderSource::lookup_prefix`. -/
def lookupPrefixIn (reader : MaxMindReader) (ip : IpAddr) :
    Decoding (Except MaxMindDbError (Option PyObj × ℕ)) := fun cache =>
  match reader.lookup ip with
  | .error e => (.error e, cache)
  | .ok result => match result.network with
      | .error e => (.error e, cache)
      | .ok network =>
          let prefixLen := convertPrefixLen ip network
          match result.decode cache with
          | (.error e, cache) => (.error e, cache)
          | (.ok data, cache) => (.ok (data, prefixLen), cache)

/-- Either branch of `ReaderSource::lookup_path`. -/
def lookupPathIn (reader : MaxMindReader) (ip : IpAddr) (pathElements : List PathElement) :
    Decoding (Except MaxMindDbError (Option PyObj)) := fun cache =>
  match reader.lookup ip with
  | .error e => (.error e, cache)
  | .ok result => result.decodePath pathElements cache

namespace ReaderSource

/-- `ReaderSource::lookup`. -/
def lookup : ReaderSource → IpAddr → Decoding (Except MaxMindDbError (Option PyObj))
  | Mmap reader => lookupIn reader
  | Memory reader => lookupIn reader

/-- `ReaderSource::lookup_prefix`. -/
def lookupPrefix : ReaderSource → IpAddr → Decoding (Except MaxMindDbError (Option PyObj × ℕ))
  | Mmap reader => lookupPrefixIn reader
  | Memory reader => lookupPrefixIn reader

/-- `ReaderSource::lookup_path`. -/
def lookupPath : ReaderSource → IpAddr → List PathElement →
    Decoding (Except MaxMindDbError (Option PyObj))
  | Mmap reader => lookupPathIn reader
  | Memory reader => lookupPathIn reader

/-! ### What the lookups return -/

/-- The outcome of `lookup`, which does not depend on the cache. -/
def lookupOutcome (src : ReaderSource) (ip : IpAddr) : Except MaxMindDbError (Option PyObj) := do
  let result ← src.reader.lookup ip
  denoteRecord result.record

/-- The outcome of `lookup_prefix`. -/
def lookupPrefixOutcome (src : ReaderSource) (ip : IpAddr) :
    Except MaxMindDbError (Option PyObj × ℕ) := do
  let result ← src.reader.lookup ip
  let network ← result.network
  let data ← denoteRecord result.record
  return (data, convertPrefixLen ip network)

/-- The outcome of `lookup_path`. -/
def lookupPathOutcome (src : ReaderSource) (ip : IpAddr) (path : List PathElement) :
    Except MaxMindDbError (Option PyObj) := do
  let result ← src.reader.lookup ip
  let found ← result.select path
  denoteRecord found

/-- Both kinds of source are looked up alike. -/
lemma lookup_eq (src : ReaderSource) : src.lookup = lookupIn src.reader := by cases src <;> rfl

lemma lookupPrefix_eq (src : ReaderSource) : src.lookupPrefix = lookupPrefixIn src.reader := by
  cases src <;> rfl

lemma lookupPath_eq (src : ReaderSource) : src.lookupPath = lookupPathIn src.reader := by
  cases src <;> rfl

/-- `lookup` returns its outcome, whatever sound cache the thread has. -/
lemma lookup_returns (src : ReaderSource) (ip : IpAddr) :
    (src.lookup ip).Returns (src.lookupOutcome ip) := by
  intro cache h
  rw [lookup_eq, lookupIn, lookupOutcome]
  cases src.reader.lookup ip with
  | error e => exact ⟨rfl, h⟩
  | ok result => exact decodeRecord_returns result.record cache h

/-- `lookup_prefix` returns its outcome. -/
lemma lookupPrefix_returns (src : ReaderSource) (ip : IpAddr) :
    (src.lookupPrefix ip).Returns (src.lookupPrefixOutcome ip) := by
  intro cache h
  rw [lookupPrefix_eq, lookupPrefixIn, lookupPrefixOutcome]
  cases src.reader.lookup ip with
  | error e => exact ⟨rfl, h⟩
  | ok result =>
      simp only [bind, Except.bind]
      cases result.network with
      | error e => exact ⟨rfl, h⟩
      | ok network =>
          obtain ⟨h1, h2⟩ := decodeRecord_returns result.record cache h
          rw [LookupResult.decode, ← h1]
          simp only
          cases hd : decodeRecord result.record cache with
          | mk r cache' =>
              rw [hd] at h2
              cases r <;> exact ⟨rfl, h2⟩

/-- `lookup_path` returns its outcome. -/
lemma lookupPath_returns (src : ReaderSource) (ip : IpAddr) (path : List PathElement) :
    (src.lookupPath ip path).Returns (src.lookupPathOutcome ip path) := by
  intro cache h
  rw [lookupPath_eq, lookupPathIn, lookupPathOutcome]
  cases src.reader.lookup ip with
  | error e => exact ⟨rfl, h⟩
  | ok result =>
      simp only [bind, Except.bind, LookupResult.decodePath]
      cases result.select path with
      | error e => exact ⟨rfl, h⟩
      | ok found => exact decodeRecord_returns found cache h

end ReaderSource

end MaxminddbRust
