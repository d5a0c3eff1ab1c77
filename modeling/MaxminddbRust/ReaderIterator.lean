import MaxminddbRust.Source

/-!
`iterator.rs`: iteration over the networks of a database.

* `IpNetworkCrate`: what the binding uses of the ipnetwork crate, as parameters.
* `PyIpNetwork`: an `ipaddress` network, which is an address without host bits and a prefix
  length in range; `ipv4NetworkCls`, `ipv6NetworkCls`: its constructors, which check both.
* `ReaderIterator`: the entries an iterator has still to process; `new` and `next`.
* `next_returns`: what a step of the iterator returns, whatever the thread's cache.
-/

namespace MaxminddbRust

/-- The functions of the ipnetwork crate that the binding calls; an error is its text. -/
structure IpNetworkCrate where
  fromStr : String → Except String IpNetwork
  new : IpAddr → ℕ → Except String IpNetwork
  network : IpNetwork → IpAddr

/-! ### Networks of the module `ipaddress` -/

/-- An `ipaddress.IPv4Network` or `ipaddress.IPv6Network`. -/
structure PyIpNetwork where
  networkAddress : IpAddr
  prefixlen : ℕ
  prefixlen_le : prefixlen ≤ networkAddress.width
  hostBits : networkAddress.toNat % 2 ^ (networkAddress.width - prefixlen) = 0

/-- The constructor of a network class from the pair of an integer and a prefix length: it checks
the address, then the prefix length, then the host bits. -/
def networkCls {width : ℕ} (make : BitVec width → IpAddr) (hwidth : ∀ a, (make a).width = width)
    (htoNat : ∀ a, (make a).toNat = a.toNat) (addr prefixLen : ℕ) : PyResult PyIpNetwork :=
  if haddr : addr < 2 ^ width then
    if hlen : prefixLen ≤ width then
      if hhost : addr % 2 ^ (width - prefixLen) = 0 then
        .ok ⟨make (BitVec.ofNatLT addr haddr), prefixLen, by rw [hwidth]; exact hlen, by
          rw [hwidth, htoNat, BitVec.toNat_ofNatLT]; exact hhost⟩
      else .error (.valueError [.str s!"{addr}/{prefixLen} has host bits set"])
    else .error (.valueError [.str s!"{prefixLen} is not a valid netmask"])
  else .error (.valueError [.str s!"{addr} (>= 2**{width}) is not permitted as an address"])

/-- `ipaddress.IPv4Network`. -/
def ipv4NetworkCls : ℕ → ℕ → PyResult PyIpNetwork :=
  networkCls IpAddr.V4 (fun _ => rfl) fun _ => rfl

/-- `ipaddress.IPv6Network`. -/
def ipv6NetworkCls : ℕ → ℕ → PyResult PyIpNetwork :=
  networkCls IpAddr.V6 (fun _ => rfl) fun _ => rfl

/-! ### The iterator -/

/-- `ReaderIterator`: what is left of the enumeration. -/
structure ReaderIterator where
  iter : List (Except MaxMindDbError LookupResult)

namespace ReaderIterator

variable (ipnetwork : IpNetworkCrate)

/-- `root_network_for_ip_version`. -/
def rootNetworkForIpVersion (ipVersion : UInt16) : PyResult (IpNetwork × String) :=
  let (networkStr, networkType) := if ipVersion = 4 then ("0.0.0.0/0", "IPv4") else ("::/0", "IPv6")
  match ipnetwork.fromStr networkStr with
  | .error err => .error
      (.invalidDatabaseError [.str s!"Failed to create {networkType} network: {err}"])
  | .ok network => .ok (network, networkType)

/-- `network_to_python`. -/
def networkToPython : IpNetwork → PyResult PyIpNetwork
  | .V4 ip prefixLen => ipv4NetworkCls ip.toNat prefixLen
  | .V6 ip prefixLen => ipv6NetworkCls ip.toNat prefixLen

/-- `ReaderIterator::new`. -/
def new (reader : ReaderSource) : PyResult ReaderIterator :=
  match rootNetworkForIpVersion ipnetwork reader.metadata.ipVersion with
  | .error e => .error e
  | .ok (network, networkType) => match reader.reader.within network with
      | .error err => .error
          (.invalidDatabaseError [.str s!"Failed to iterate {networkType}: ", .err err])
      | .ok iter => .ok ⟨iter⟩

/-- `process_within_lookup`. -/
def processWithinLookup (lookupResult : LookupResult) :
    Decoding (Except MaxMindDbError (IpNetwork × PyObj)) := fun cache =>
  match lookupResult.network with
  | .error e => (.error e, cache)
  | .ok network => match ipnetwork.new (ipnetwork.network network) network.prefixLen with
      | .error err =>
          (.error (.InvalidDatabase (.text s!"Invalid network from database: {err}")), cache)
      | .ok ipNet => match lookupResult.decode cache with
          | (.error e, cache) => (.error e, cache)
          | (.ok none, cache) =>
              (.error (.InvalidDatabase (.text "No data in database record")), cache)
          | (.ok (some data), cache) => (.ok (ipNet, data), cache)

/-- `next_within` on an entry that the enumeration yields. -/
def nextWithin (result : Except MaxMindDbError LookupResult) :
    Decoding (Except MaxMindDbError (IpNetwork × PyObj)) := fun cache =>
  match result with
  | .error e => (.error e, cache)
  | .ok lookupResult => processWithinLookup ipnetwork lookupResult cache

/-- `__next__`: the item, or none at the end, and the iterator after it. -/
def next (it : ReaderIterator) :
    Decoding (PyResult (Option (PyIpNetwork × PyObj)) × ReaderIterator) := fun cache =>
  match it.iter with
  | [] => ((.ok none, it), cache)
  | result :: iter => match nextWithin ipnetwork result cache with
      | (.error err, cache) =>
          ((.error (.invalidDatabaseError [.str "Iteration error: ", .err err]), ⟨iter⟩), cache)
      | (.ok (ipNet, data), cache) => match networkToPython ipNet with
          | .error e => ((.error e, ⟨iter⟩), cache)
          | .ok networkObj => ((.ok (some (networkObj, data)), ⟨iter⟩), cache)

/-! ### What a step returns -/

/-- The outcome of processing an entry of the enumeration, which does not depend on the cache. -/
def entryOutcome (result : Except MaxMindDbError LookupResult) :
    Except MaxMindDbError (IpNetwork × PyObj) := do
  let lookupResult ← result
  let network ← lookupResult.network
  let ipNet ← (ipnetwork.new (ipnetwork.network network) network.prefixLen).mapError
    fun err => .InvalidDatabase (.text s!"Invalid network from database: {err}")
  match ← denoteRecord lookupResult.record with
  | none => .error (.InvalidDatabase (.text "No data in database record"))
  | some data => return (ipNet, data)

/-- The outcome of a step of the iterator on that entry. -/
def itemOutcome (result : Except MaxMindDbError LookupResult) :
    PyResult (PyIpNetwork × PyObj) :=
  match entryOutcome ipnetwork result with
  | .error err => .error (.invalidDatabaseError [.str "Iteration error: ", .err err])
  | .ok (ipNet, data) => (networkToPython ipNet).map fun networkObj => (networkObj, data)

/-- The outcome of a step of the iterator: the item of the next entry, or none at the end. -/
def nextOutcome (iter : List (Except MaxMindDbError LookupResult)) :
    PyResult (Option (PyIpNetwork × PyObj)) :=
  match iter with
  | [] => .ok none
  | result :: _ => (itemOutcome ipnetwork result).map some

lemma nextWithin_returns (result : Except MaxMindDbError LookupResult) :
    (nextWithin ipnetwork result).Returns (entryOutcome ipnetwork result) := by
  intro cache h
  cases result with
  | error e => exact ⟨rfl, h⟩
  | ok lookupResult =>
      simp only [nextWithin, entryOutcome, processWithinLookup, bind, Except.bind]
      cases lookupResult.network with
      | error e => exact ⟨rfl, h⟩
      | ok network =>
          simp only
          cases ipnetwork.new (ipnetwork.network network) network.prefixLen with
          | error err => exact ⟨rfl, h⟩
          | ok ipNet =>
              obtain ⟨h1, h2⟩ := decodeRecord_returns lookupResult.record cache h
              simp only [LookupResult.decode, Except.mapError, ← h1]
              cases hd : decodeRecord lookupResult.record cache with
              | mk r cache' =>
                  rw [hd] at h2
                  rcases r with e | _ | data <;> exact ⟨rfl, h2⟩

/-- `__next__` returns its outcome and moves on by one entry. -/
lemma next_returns (it : ReaderIterator) :
    (next ipnetwork it).Returns (nextOutcome ipnetwork it.iter, ⟨it.iter.tail⟩) := by
  intro cache h
  obtain ⟨iter⟩ := it
  cases iter with
  | nil => exact ⟨rfl, h⟩
  | cons result iter =>
      obtain ⟨h1, h2⟩ := nextWithin_returns ipnetwork result cache h
      simp only [next, nextOutcome, itemOutcome, ← h1, List.tail_cons]
      cases hn : nextWithin ipnetwork result cache with
      | mk r cache' =>
          rw [hn] at h2
          rcases r with e | ⟨ipNet, data⟩
          · exact ⟨rfl, h2⟩
          · simp only
            cases networkToPython ipNet <;> exact ⟨rfl, h2⟩

end ReaderIterator

end MaxminddbRust
