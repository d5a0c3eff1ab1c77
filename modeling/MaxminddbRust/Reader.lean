import MaxminddbRust.Ip
import MaxminddbRust.PathCache
import MaxminddbRust.ReaderIterator

/-!
The class `Reader` of `lib.rs`: its state and its methods as programs of atomic steps.

* `ReaderState`: the slot with the source, the path cache, the threads' caches of key objects and
  the iterators that have been handed out.
* `get`, `getPath`, `getWithPrefixLen`, `getMany`, `getManyPath`, `metadata`, `close`, `enter`,
  `exit`, `iter`, `next`: one program each. A method loads the slot in one step; what it reads
  of the source afterwards, it reads of the source it has loaded.
* `Call`, `Call.prog`: the methods as calls with their arguments.
-/

namespace MaxminddbRust

open Concurrent

/-! ### The state -/

/-- What a method finds beside the reader: the width of a machine word, whether the allocator has
room for so many bytes at once, and the libraries. -/
structure Platform where
  wordBits : ℕ
  allocates : ℕ → Bool
  std : StdParser
  ipnetwork : IpNetworkCrate

/-- The platform, and the field `ip_version`, which is set once and for all when the reader is
created. -/
structure Config extends Platform where
  ipVersion : UInt16

/-- The state that the callers of a reader share: the slot `reader`, the field `path_cache`, the
thread-local `PY_MAP_KEY_CACHE` of each thread, and the iterators handed out so far. -/
structure ReaderState where
  reader : Option ReaderSource
  pathCache : PathCache
  keyCaches : ℕ → KeyCache
  iterators : List ReaderIterator

/-- The field `ip_version` that `create_reader` sets. -/
def createConfig (platform : Platform) (source : ReaderSource) : Config :=
  ⟨platform, source.metadata.ipVersion⟩

/-- The other fields that `create_reader` sets, with the tuples alive at that time. -/
def createReader (source : ReaderSource) (heap : ℕ → Option PyTuple) : ReaderState :=
  ⟨some source, .new heap, fun _ => [], []⟩

/-- What an atomic step of a method is seen to do. -/
inductive Label where
  | load (isOpen : Bool)
  | path (l : CacheLabel)
  | lookup (ip : IpAddr)
  | metadata
  | within (iterator : Option ℕ)
  | pull
  | store
  | next (iterator : ℕ) (result : PyResult (Option (PyIpNetwork × PyObj)))

/-- A method with a result in `α`. -/
abbrev Method (α : Type) := Prog Label ReaderState (PyResult α)

/-! ### Errors and small helpers -/

/-- `ERR_CLOSED_DB`. -/
def errClosedDb : String := "Attempt to read from a closed MaxMind DB."

/-- `ERR_BAD_DATA`. -/
def errBadData : String :=
  "The MaxMind DB file's data section contains bad data (unknown data type or corrupt data)"

def errClosed : PyErr := .valueError [.str errClosedDb]

def errMetadataClosed : PyErr := .osError [.str errClosedDb]

def errReopen : PyErr := .valueError [.str "Attempt to reopen a closed MaxMind DB"]

def errIps : PyErr := .typeError [.str "ips must be an iterable of strings or ipaddress objects"]

/-- `lookup_error`. -/
def lookupError : MaxMindDbError → PyErr
  | .InvalidDatabase _ | .Decoding _ | .ResourceLimit _ => .invalidDatabaseError [.str errBadData]
  | other => .valueError [.str "Database error: ", .err other]

/-- `lookup_result_to_python`. -/
def lookupResultToPython : Except MaxMindDbError (Option PyObj) → PyResult PyObj
  | .ok (some data) => .ok data
  | .ok none => .ok .none
  | .error err => .error (lookupError err)

/-- `lookup_prefix_result_to_python`. -/
def lookupPrefixResultToPython :
    Except MaxMindDbError (Option PyObj × ℕ) → PyResult (PyObj × ℕ)
  | .ok (some data, prefixLen) => .ok (data, prefixLen)
  | .ok (none, prefixLen) => .ok (.none, prefixLen)
  | .error err => .error (lookupError err)

/-- The bytes of pointers to `n` objects. -/
def Platform.pointerBytes (platform : Platform) (n : ℕ) : ℕ := n * (platform.wordBits / 8)

/-- The pointers have a size that the allocator may be asked for, and it has room for them; none
need no room. -/
def Platform.Reserves (platform : Platform) (n : ℕ) : Prop :=
  platform.pointerBytes n < 2 ^ (platform.wordBits - 1) ∧
    (platform.pointerBytes n = 0 ∨ platform.allocates (platform.pointerBytes n) = true)

instance (platform : Platform) (n : ℕ) : Decidable (platform.Reserves n) :=
  inferInstanceAs (Decidable (_ ∧ _))

/-- `Vec::with_capacity` of pointers to `n` objects. It panics beyond `isize::MAX` bytes, and
aborts the process where the allocator has no room. -/
def withCapacity (platform : Platform) (n : ℕ) : PyResult Unit :=
  if platform.pointerBytes n < 2 ^ (platform.wordBits - 1) then
    if platform.pointerBytes n = 0 ∨ platform.allocates (platform.pointerBytes n) = true then .ok ()
    else .error .aborted
  else .error (.panicException "capacity overflow")

/-- `validate_lookup_ip`. -/
def validateLookupIp (cfg : Config) : IpAddr → PyResult IpAddr
  | .V4 ip => .ok (.V4 ip)
  | .V6 ip => if cfg.ipVersion = 4 then .error (.valueError (ipv6InIpv4Error (.V6 ip)))
      else .ok (.V6 ip)

/-- `parse_lookup_ip`. -/
def parseLookupIp (cfg : Config) (ipAddress : PyObj) : PyResult IpAddr :=
  match parseIpAddress cfg.std ipAddress with
  | .error e => .error e
  | .ok parsedIp => validateLookupIp cfg parsedIp

/-! ### Atomic steps -/

/-- `self.reader.load()`, with the error raised where the slot is empty. -/
def load (err : PyErr) : Method ReaderSource :=
  .atom (fun s => .load s.reader.isSome) id fun s => .ret <| match s.reader with
    | some reader => .ok reader
    | none => .error err

/-- A step that decodes on a thread. -/
def decodeStep {α : Type} (label : Label) (thread : ℕ) (f : Decoding α) :
    Prog Label ReaderState α :=
  .atom (fun _ => label)
    (fun s => { s with
      keyCaches := Function.update s.keyCaches thread (f (s.keyCaches thread)).2 })
    fun s => .ret (f (s.keyCaches thread)).1

/-- `get_or_parse_path` on the reader's path cache. -/
def pathStep (cfg : Config) (path : PathArg) : Method OwnedPath :=
  (getOrParsePath cfg.wordBits path).zoom ReaderState.pathCache
    (fun cache s => { s with pathCache := cache }) .path

/-- The lookup of a parsed address and its conversion to Python. -/
def lookupStep (thread : ℕ) (reader : ReaderSource) (ip : IpAddr) : Method PyObj :=
  (decodeStep (.lookup ip) thread (reader.lookup ip)).map lookupResultToPython

/-- The lookup of a path under a parsed address and its conversion to Python. -/
def lookupPathStep (thread : ℕ) (reader : ReaderSource) (pathElements : List PathElement)
    (ip : IpAddr) : Method PyObj :=
  (decodeStep (.lookup ip) thread (reader.lookupPath ip pathElements)).map lookupResultToPython

/-! ### Single lookups -/

variable (cfg : Config)

/-- The getter `closed`. -/
def closed : Method Bool :=
  .atom (fun s => .load s.reader.isSome) id fun s => .ret (.ok s.reader.isNone)

/-- `get`. -/
def get (thread : ℕ) (ipAddress : PyObj) : Method PyObj :=
  match parseLookupIp cfg ipAddress with
  | .error e => .ret (.error e)
  | .ok parsedIp => (load errClosed).andThen fun reader => lookupStep thread reader parsedIp

/-- `get_path`. -/
def getPath (thread : ℕ) (ipAddress : PyObj) (path : PathArg) : Method PyObj :=
  match parseLookupIp cfg ipAddress with
  | .error e => .ret (.error e)
  | .ok parsedIp => (pathStep cfg path).andThen fun ownedPath =>
      (load errClosed).andThen fun reader =>
        lookupPathStep thread reader (pathElementsFromOwnedPath ownedPath) parsedIp

/-- `get_with_prefix_len`. -/
def getWithPrefixLen (thread : ℕ) (ipAddress : PyObj) : Method (PyObj × ℕ) :=
  match parseLookupIp cfg ipAddress with
  | .error e => .ret (.error e)
  | .ok parsedIp => (load errClosed).andThen fun reader =>
      (decodeStep (.lookup parsedIp) thread (reader.lookupPrefix parsedIp)).map
        lookupPrefixResultToPython

/-! ### Batches -/

/-- The items of a list or a tuple. Its pointers are in memory, and there is room for as many
again: where memory runs out for less than what a caller's own argument takes is not modelled. -/
structure ItemArray (platform : Platform) where
  items : List PyObj
  fits : platform.Reserves items.length

/-- The argument `ips` as the code looks at it: a `str`, `bytes` or `bytearray`, a list, a tuple,
any other iterable with what `len` gives for it, or an object that is not iterable. -/
inductive BatchArg (platform : Platform) where
  | bytesLike
  | list (xs : ItemArray platform)
  | tuple (xs : ItemArray platform)
  | iterable (len : Option ℕ) (iter : Iteration)
  | notIterable

/-- `is_bytes_like_or_string`. -/
def BatchArg.isBytesLikeOrString {platform : Platform} : BatchArg platform → Bool
  | bytesLike => true
  | _ => false

/-- The loop of `get_many_from_items` and `get_many_path_from_items`. -/
def fromItemsLoop (single : IpAddr → Method PyObj) (objects : List PyObj) :
    List PyObj → Method (List PyObj)
  | [] => .ret (.ok objects)
  | ip :: items => match parseLookupIp cfg ip with
      | .error e => .ret (.error e)
      | .ok ipAddr => (single ipAddr).andThen fun object =>
          fromItemsLoop single (objects ++ [object]) items

/-- The loop over an iterator, which asks it for each item. Python code that the iterator runs
at a `pull` is the steps that other callers take there. -/
def iteratorLoop (single : IpAddr → Method PyObj) (raises : Option PyErr)
    (objects : List PyObj) : List PyObj → Method (List PyObj)
  | [] => .atom (fun _ => .pull) id fun _ => .ret <| match raises with
      | some e => .error e
      | none => .ok objects
  | ip :: items => .atom (fun _ => .pull) id fun _ => match parseLookupIp cfg ip with
      | .error e => .ret (.error e)
      | .ok ipAddr => (single ipAddr).andThen fun object =>
          iteratorLoop single raises (objects ++ [object]) items

/-- `get_many_from_items` and `get_many_path_from_items`. -/
def fromItems (single : IpAddr → Method PyObj) (xs : ItemArray cfg.toPlatform) :
    Method (List PyObj) :=
  match withCapacity cfg.toPlatform xs.items.length with
  | .error e => .ret (.error e)
  | .ok () => fromItemsLoop cfg single [] xs.items

/-- The rest of `get_many` and `get_many_path`, once the arguments are checked. -/
def batch (single : IpAddr → Method PyObj) : BatchArg cfg.toPlatform → Method (List PyObj)
  | .list xs => fromItems cfg single xs
  | .tuple xs => fromItems cfg single xs
  | .iterable len iter => match withCapacity cfg.toPlatform (len.getD 0) with
      | .error e => .ret (.error e)
      | .ok () => iteratorLoop cfg single iter.raises [] iter.items
  | _ => .ret (.error errIps)

/-- `get_many`. -/
def getMany (thread : ℕ) (ips : BatchArg cfg.toPlatform) : Method (List PyObj) :=
  (load errClosed).andThen fun reader =>
    if ips.isBytesLikeOrString then .ret (.error errIps)
    else batch cfg (lookupStep thread reader) ips

/-- `get_many_path`. -/
def getManyPath (thread : ℕ) (ips : BatchArg cfg.toPlatform) (path : PathArg) :
    Method (List PyObj) :=
  (load errClosed).andThen fun reader =>
    if ips.isBytesLikeOrString then .ret (.error errIps)
    else (pathStep cfg path).andThen fun ownedPath =>
      batch cfg (lookupPathStep thread reader (pathElementsFromOwnedPath ownedPath)) ips

/-! ### The other methods -/

/-- `Metadata`, with the fields of the crate's. -/
structure Metadata where
  binaryFormatMajorVersion : UInt16
  binaryFormatMinorVersion : UInt16
  buildEpoch : UInt64
  databaseType : String
  descriptionDict : List (String × String)
  ipVersion : UInt16
  languagesList : List String
  nodeCount : UInt32
  recordSize : UInt16
  deriving DecidableEq, Repr

/-- `Metadata::from_maxmind`. -/
def Metadata.fromMaxmind (m : MaxMindMetadata) : Metadata where
  binaryFormatMajorVersion := m.binaryFormatMajorVersion
  binaryFormatMinorVersion := m.binaryFormatMinorVersion
  buildEpoch := m.buildEpoch
  databaseType := m.databaseType
  descriptionDict := m.description
  ipVersion := m.ipVersion
  languagesList := m.languages
  nodeCount := m.nodeCount
  recordSize := m.recordSize

/-- `metadata`. -/
def metadata : Method Metadata :=
  (load errMetadataClosed).andThen fun reader =>
    .atom (fun _ => .metadata) id fun _ => .ret (.ok (.fromMaxmind reader.metadata))

/-- `close`. -/
def close : Method Unit :=
  .atom (fun _ => .store) (fun s => { s with reader := none }) fun _ => .ret (.ok ())

/-- `__enter__`. -/
def enter : Method Unit :=
  .atom (fun s => .load s.reader.isSome) id fun s => .ret <|
    if s.reader.isNone then .error errReopen else .ok ()

/-- `__exit__`. -/
def exit : Method Unit := close

/-- `__iter__`: the number of the iterator handed out. -/
def iter : Method ℕ :=
  (load errClosed).andThen fun reader =>
    .atom (fun s => .within <| match ReaderIterator.new cfg.ipnetwork reader with
        | .error _ => none
        | .ok _ => some s.iterators.length)
      (fun s => match ReaderIterator.new cfg.ipnetwork reader with
        | .error _ => s
        | .ok it => { s with iterators := s.iterators ++ [it] })
      fun s => .ret <| match ReaderIterator.new cfg.ipnetwork reader with
        | .error e => .error e
        | .ok _ => .ok s.iterators.length

/-- The iterator with a number. -/
def ReaderState.iterator (s : ReaderState) (k : ℕ) : ReaderIterator := s.iterators.getD k ⟨[]⟩

/-- `__next__` of the iterator with that number. -/
def next (thread k : ℕ) : Method (Option (PyIpNetwork × PyObj)) :=
  let step (s : ReaderState) := ((s.iterator k).next cfg.ipnetwork) (s.keyCaches thread)
  .atom (fun s => .next k (step s).1.1)
    (fun s => { s with
      iterators := s.iterators.set k (step s).1.2
      keyCaches := Function.update s.keyCaches thread (step s).2 })
    fun s => .ret (step s).1.1

/-! ### Calls -/

/-- A method with its arguments, and the thread it is called on where it decodes. -/
inductive Call (platform : Platform) where
  | closed
  | get (thread : ℕ) (ipAddress : PyObj)
  | getPath (thread : ℕ) (ipAddress : PyObj) (path : PathArg)
  | getWithPrefixLen (thread : ℕ) (ipAddress : PyObj)
  | getMany (thread : ℕ) (ips : BatchArg platform)
  | getManyPath (thread : ℕ) (ips : BatchArg platform) (path : PathArg)
  | metadata
  | close
  | enter
  | exit
  | iter
  | next (thread : ℕ) (iterator : ℕ)

/-- What a method returns to Python. -/
inductive Value where
  | none
  | bool (b : Bool)
  | object (o : PyObj)
  | objectWithPrefix (o : PyObj) (prefixLen : ℕ)
  | objects (os : List PyObj)
  | metadata (m : Metadata)
  | self
  | iterator (k : ℕ)
  | item (i : Option (PyIpNetwork × PyObj))

/-- A method's result as a value. -/
def Method.returning {α : Type} (m : Method α) (f : α → Value) : Method Value :=
  m.map (Except.map f)

/-- The program of a call. -/
def Call.prog : Call cfg.toPlatform → Method Value
  | closed => MaxminddbRust.closed.returning .bool
  | get thread ipAddress => (MaxminddbRust.get cfg thread ipAddress).returning .object
  | getPath thread ipAddress path =>
      (MaxminddbRust.getPath cfg thread ipAddress path).returning .object
  | getWithPrefixLen thread ipAddress =>
      (MaxminddbRust.getWithPrefixLen cfg thread ipAddress).returning
        fun r => .objectWithPrefix r.1 r.2
  | getMany thread ips => (MaxminddbRust.getMany cfg thread ips).returning .objects
  | getManyPath thread ips path =>
      (MaxminddbRust.getManyPath cfg thread ips path).returning .objects
  | metadata => MaxminddbRust.metadata.returning .metadata
  | close => MaxminddbRust.close.returning fun _ => .none
  | enter => MaxminddbRust.enter.returning fun _ => .self
  | exit => MaxminddbRust.exit.returning fun _ => .none
  | iter => (MaxminddbRust.iter cfg).returning .iterator
  | next thread k => (MaxminddbRust.next cfg thread k).returning .item

end MaxminddbRust
