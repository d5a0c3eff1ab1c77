import MaxminddbRust.Closing
import MaxminddbRust.SearchTree

/-!
Iteration over the networks of a search tree.

* `IpNetworkCrate.Lawful`, `SearchTree.Enumerated`: what the documentation of the crates says of
  networks and of `within`: it enumerates the leaves with records that are not below an aliased
  copy of the IPv4 subtree.
* `IsItem`: a leaf as an item of the iteration. `itemOutcome_of_leaf`: every entry of the
  enumeration becomes one.
* `IsItem.lookup`, `IsItem.eq_of_mem`, `IsItem.mem_of_path`: an item has the lookups of its
  addresses; no address is in the items of two leaves; an address below a leaf is in its item.
* `iteration_eq_lookups`: iteration and lookup describe the same database.
-/

namespace MaxminddbRust

open Concurrent
open Concurrent.Prog

/-! ### The crates -/

/-- An address with a prefix length. -/
def IpAddr.toNetwork : IpAddr → ℕ → IpNetwork
  | V4 a, prefixLen => .V4 a prefixLen
  | V6 a, prefixLen => .V6 a prefixLen

/-- The ipnetwork crate reads the two root networks, makes a network of an address and a prefix
length in range, and gives a network's address without its host bits. -/
structure IpNetworkCrate.Lawful (ipnetwork : IpNetworkCrate) : Prop where
  fromStr4 : ipnetwork.fromStr "0.0.0.0/0" = .ok (.V4 0 0)
  fromStr6 : ipnetwork.fromStr "::/0" = .ok (.V6 0 0)
  new : ∀ (a : IpAddr) prefixLen, prefixLen ≤ a.width →
    ipnetwork.new a prefixLen = .ok (a.toNetwork prefixLen)
  network : ∀ network : IpNetwork, network.prefixLen ≤ network.ip.width →
    network.ip.SameFamily (ipnetwork.network network) ∧
      (ipnetwork.network network).bits = network.ip.bits.take network.prefixLen
        ++ List.replicate (network.ip.width - network.prefixLen) false

/-- The network that the whole database is enumerated under. -/
def rootNetwork (ipVersion : UInt16) : IpNetwork := if ipVersion = 4 then .V4 0 0 else .V6 0 0

/-- The family of the network at a bit path: IPv4 in an IPv4 tree and below the 96 zeros, IPv6
elsewhere. At the 96 zeros themselves, where `::/96` and `0.0.0.0/0` are the same addresses, it may
be either. -/
structure FamilyAt (ipVersion : UInt16) (path : List Bool) (ip : IpAddr) : Prop where
  isV4 : ipVersion = 4 ∨ List.replicate 96 false <+: path ∧ path ≠ List.replicate 96 false →
    ∃ v, ip = .V4 v
  below : (∃ v, ip = .V4 v) → ipVersion = 4 ∨ List.replicate 96 false <+: path

/-- The network has the bit path for its network. -/
structure NetworkAt (ipVersion : UInt16) (path : List Bool) (network : IpNetwork) : Prop where
  family : FamilyAt ipVersion path network.ip
  bits : (searchBits ipVersion network.ip).take path.length = path
  prefixLen : network.prefixLen = depth ipVersion network.ip path.length

namespace SearchTree

/-- The bits go through the node at which the IPv4 addresses of an IPv6 tree begin, on another
way than through the 96 zeros. -/
def Aliased (T : SearchTree) (ipVersion : UInt16) (bits : List Bool) : Prop :=
  ipVersion ≠ 4 ∧ ∃ n path, path <+: bits ∧ path ≠ List.replicate 96 false ∧
    PrefixTree.follow T.child T.root path = some (.node n) ∧
    PrefixTree.follow T.child T.root (List.replicate 96 false) = some (.node n)

/-- The path leads to a leaf with a record and not through an aliased IPv4 subtree. -/
def Yields (T : SearchTree) (ipVersion : UInt16) (path : List Bool) (v : MMValue) : Prop :=
  PrefixTree.Leaf T.child T.root path (some v) ∧ ¬T.Aliased ipVersion path

/-- Every record decodes. -/
def Decodes (T : SearchTree) : Prop :=
  ∀ path v, PrefixTree.Leaf T.child T.root path (some v) → ∃ data, denote v = .ok data

/-- `within` enumerates the leaves with records, each once, without entering aliased IPv4
subtrees. -/
structure Enumerated (T : SearchTree) (src : ReaderSource) (leaves : List (List Bool × MMValue))
    (entries : List LookupResult) : Prop where
  within : src.reader.within (rootNetwork src.metadata.ipVersion) = .ok (entries.map .ok)
  nodup : leaves.Nodup
  mem_iff : ∀ path v, (path, v) ∈ leaves ↔ T.Yields src.metadata.ipVersion path v
  entry : List.Forall₂ (fun leaf entry => entry.record = some leaf.2 ∧
    ∃ network, entry.network = .ok network ∧ NetworkAt src.metadata.ipVersion leaf.1 network)
    leaves entries

end SearchTree

/-! ### Leaves as items -/

/-- The addresses of a network, in its own family. -/
def PyIpNetwork.addresses (net : PyIpNetwork) : Set IpAddr := net.networkAddress.block net.prefixlen

/-- The item of a leaf: its record as a Python object, and its path as a network. -/
structure IsItem (ipVersion : UInt16) (leaf : List Bool × MMValue) (item : PyIpNetwork × PyObj) :
    Prop where
  family : FamilyAt ipVersion leaf.1 item.1.networkAddress
  bits : (searchBits ipVersion item.1.networkAddress).take leaf.1.length = leaf.1
  prefixlen : item.1.prefixlen = depth ipVersion item.1.networkAddress leaf.1.length
  data : denote leaf.2 = .ok item.2

section Leaves

variable {T : SearchTree} {ipVersion : UInt16}

/-- The constructors of `ipaddress` accept an address without host bits and a prefix length in
range. -/
lemma networkCls_toNat {width : ℕ} (make : BitVec width → IpAddr)
    (hwidth : ∀ a, (make a).width = width) (htoNat : ∀ a, (make a).toNat = a.toNat)
    (v : BitVec width) {prefixLen : ℕ} (hlen : prefixLen ≤ width)
    (hhost : v.toNat % 2 ^ (width - prefixLen) = 0) :
    ∃ net, networkCls make hwidth htoNat v.toNat prefixLen = .ok net ∧
      net.networkAddress = make v ∧ net.prefixlen = prefixLen := by
  unfold networkCls
  rw [dif_pos v.isLt, dif_pos hlen, dif_pos hhost]
  exact ⟨_, rfl, congrArg make (BitVec.ofNatLT_toNat v), rfl⟩

lemma networkToPython_toNetwork {a : IpAddr} {prefixLen : ℕ} (hlen : prefixLen ≤ a.width)
    (hhost : a.toNat % 2 ^ (a.width - prefixLen) = 0) :
    ∃ net, ReaderIterator.networkToPython (a.toNetwork prefixLen) = .ok net ∧
      net.networkAddress = a ∧ net.prefixlen = prefixLen := by
  cases a with
  | V4 v => exact networkCls_toNat IpAddr.V4 (fun _ => rfl) (fun _ => rfl) v hlen hhost
  | V6 v => exact networkCls_toNat IpAddr.V6 (fun _ => rfl) (fun _ => rfl) v hlen hhost

/-- A network without its host bits. -/
lemma IpNetworkCrate.Lawful.network_eq {ipnetwork : IpNetworkCrate} (h : ipnetwork.Lawful)
    {network : IpNetwork} (hlen : network.prefixLen ≤ network.ip.width) :
    network.ip.SameFamily (ipnetwork.network network) ∧
      (ipnetwork.network network).bits.take network.prefixLen
        = network.ip.bits.take network.prefixLen ∧
      (ipnetwork.network network).toNat
        % 2 ^ ((ipnetwork.network network).width - network.prefixLen) = 0 := by
  obtain ⟨hfamily, hbits⟩ := h.network network hlen
  have hwidth : network.ip.width = (ipnetwork.network network).width :=
    hfamily.width_eq
  have htake : (network.ip.bits.take network.prefixLen).length = network.prefixLen := by
    rw [List.length_take, IpAddr.length_bits]
    exact Nat.min_eq_left hlen
  refine ⟨hfamily, ?_, ?_⟩
  · rw [hbits, List.take_left' htake]
  · refine IpAddr.toNat_mod_of_drop_bits (hwidth.symm.ge.trans' hlen) ?_
    rw [hbits, List.drop_left' htake, hwidth]

/-- A network of an IPv4 tree is an IPv4 network. -/
lemma FamilyAt.accepted {path : List Bool} {ip : IpAddr} (h : FamilyAt ipVersion path ip) :
    ip.Accepted ipVersion := by
  cases ip with
  | V4 v => trivial
  | V6 v =>
      intro hv
      obtain ⟨v', hv'⟩ := h.isV4 (Or.inl hv)
      cases hv'

/-- The addresses of a network have its family. -/
lemma FamilyAt.of_sameFamily {path : List Bool} {ip ip' : IpAddr} (h : FamilyAt ipVersion path ip)
    (hsame : ip.SameFamily ip') : FamilyAt ipVersion path ip' where
  isV4 hpath := hsame.isV4_iff.mp (h.isV4 hpath)
  below hv := h.below (hsame.isV4_iff.mpr hv)

/-- **Every entry of the enumeration becomes an item.** -/
lemma itemOutcome_of_leaf {ipnetwork : IpNetworkCrate} (hnet : ipnetwork.Lawful)
    (hdecode : T.Decodes) {leaf : List Bool × MMValue}
    (hleaf : T.Yields ipVersion leaf.1 leaf.2) {entry : LookupResult}
    (hrecord : entry.record = some leaf.2) {network : IpNetwork}
    (hentry : entry.network = .ok network) (hat : NetworkAt ipVersion leaf.1 network) :
    ∃ item, ReaderIterator.itemOutcome ipnetwork (.ok entry) = .ok item ∧
      IsItem ipVersion leaf item := by
  obtain ⟨data, hdata⟩ := hdecode _ _ hleaf.1
  have hle : leaf.1.length ≤ (searchBits ipVersion network.ip).length := by
    have htake := congrArg List.length hat.bits
    rw [List.length_take] at htake
    omega
  have hlen : network.prefixLen ≤ network.ip.width := by
    rw [hat.prefixLen]
    exact depth_le_width hle
  obtain ⟨hfamily, htake, hhost⟩ := hnet.network_eq hlen
  have hlen' : network.prefixLen ≤ (ipnetwork.network network).width :=
    hfamily.width_eq ▸ hlen
  obtain ⟨net, hpython, haddr, hprefixlen⟩ := networkToPython_toNetwork hlen' hhost
  refine ⟨(net, data), ?_, ?_, ?_, ?_, hdata⟩
  · have hnew := hnet.new _ _ hlen'
    have hentry' : ReaderIterator.entryOutcome ipnetwork (.ok entry)
        = .ok ((ipnetwork.network network).toNetwork network.prefixLen, data) := by
      simp only [ReaderIterator.entryOutcome, Bind.bind, Except.bind, hentry, hnew,
        Except.mapError, hrecord, denoteRecord, hdata, Except.map]
      rfl
    rw [ReaderIterator.itemOutcome, hentry']
    simp only [hpython, Except.map]
  · rw [haddr]
    exact hat.family.of_sameFamily hfamily
  · rw [haddr]
    refine ((take_searchBits_eq_iff hfamily).mpr ?_).symm.trans hat.bits
    rw [← hat.prefixLen]
    exact htake.symm
  · rw [haddr, hprefixlen, hat.prefixLen, depth_eq_of_sameFamily hfamily]

end Leaves

/-! ### The addresses of items -/

section Items

variable {T : SearchTree} {ipVersion : UInt16} {leaf leaf' : List Bool × MMValue}
  {item item' : PyIpNetwork × PyObj}

/-- An address of an item is looked up with bits that begin with the path of its leaf. -/
lemma IsItem.begins (h : IsItem ipVersion leaf item) {a : IpAddr} (ha : a ∈ item.1.addresses) :
    leaf.1 <+: searchBits ipVersion a := by
  obtain ⟨hfamily, hbits⟩ := ha
  rw [h.prefixlen] at hbits
  refine List.prefix_iff_eq_take.mpr ?_
  rw [← (take_searchBits_eq_iff hfamily).mpr hbits, h.bits]

/-- **An item has the lookups of its addresses.** -/
lemma IsItem.lookup {src : ReaderSource} (hT : T.Backs src)
    (h : IsItem src.metadata.ipVersion leaf item)
    (hleaf : PrefixTree.Leaf T.child T.root leaf.1 (some leaf.2)) {a : IpAddr}
    (ha : a ∈ item.1.addresses) :
    lookupPrefixValue src a = .ok (item.2, item.1.prefixlen) := by
  have haccepted : a.Accepted src.metadata.ipVersion :=
    h.family.accepted.of_sameFamily ha.1
  refine (hT.lookupPrefixValue_eq_ok_iff haccepted).mpr
    ⟨some leaf.2, leaf.1.length, hleaf.walk_eq (h.begins ha), ?_, ?_⟩
  · rw [recordValue, denoteRecord, h.data]
    rfl
  · rw [h.prefixlen, depth_eq_of_sameFamily ha.1]

/-- **No address is in the items of two leaves**, an IPv4 address being identified with its IPv6
address by the bits it is looked up with. -/
lemma IsItem.eq_of_mem (h : IsItem ipVersion leaf item) (h' : IsItem ipVersion leaf' item')
    (hleaf : PrefixTree.Leaf T.child T.root leaf.1 (some leaf.2))
    (hleaf' : PrefixTree.Leaf T.child T.root leaf'.1 (some leaf'.2)) {bits : List Bool}
    (hbits : bits ∈ searchBits ipVersion '' item.1.addresses)
    (hbits' : bits ∈ searchBits ipVersion '' item'.1.addresses) : leaf = leaf' := by
  obtain ⟨a, ha, rfl⟩ := hbits
  obtain ⟨a', ha', heq⟩ := hbits'
  have hbegins' := h'.begins ha'
  rw [heq] at hbegins'
  obtain ⟨hpath, hrecord⟩ := hleaf.unique hleaf' (h.begins ha) hbegins'
  exact Prod.ext hpath (Option.some.inj hrecord)

/-- An address below a path has an address with the same bits in the family of the network. -/
lemma exists_sameFamily {path : List Bool} {ip a : IpAddr}
    (hfamily : FamilyAt ipVersion path ip)
    (ha : a.Accepted ipVersion) (hpath : path <+: searchBits ipVersion a) :
    ∃ b, ip.SameFamily b ∧ searchBits ipVersion b = searchBits ipVersion a := by
  cases ip with
  | V4 v =>
      cases a with
      | V4 v' => exact ⟨.V4 v', trivial, rfl⟩
      | V6 v' =>
          have hv : ipVersion ≠ 4 := ha
          have hzeros := (hfamily.below ⟨v, rfl⟩).resolve_left hv
          have htake := (List.prefix_iff_eq_take.mp (hzeros.trans hpath)).symm
          rw [List.length_replicate] at htake
          refine ⟨.V4 (v'.setWidth 32), trivial, ?_⟩
          rw [searchBits_v4Compatible hv, IpAddr.v4Compatible,
            setWidth_setWidth_of_msbBits (m := 96) (n := 32) htake]
  | V6 v =>
      cases a with
      | V4 v' =>
          have hv : ipVersion ≠ 4 := hfamily.accepted
          exact ⟨.v4Compatible v', trivial, (searchBits_v4Compatible hv v').symm⟩
      | V6 v' => exact ⟨.V6 v', trivial, rfl⟩

/-- **An address below a leaf is in its item.** -/
lemma IsItem.mem_of_path (h : IsItem ipVersion leaf item) {a : IpAddr}
    (ha : a.Accepted ipVersion) (hpath : leaf.1 <+: searchBits ipVersion a) :
    searchBits ipVersion a ∈ searchBits ipVersion '' item.1.addresses := by
  obtain ⟨b, hb, heq⟩ := exists_sameFamily h.family ha hpath
  refine ⟨b, ⟨hb, ?_⟩, heq⟩
  rw [h.prefixlen]
  refine (take_searchBits_eq_iff hb).mp ?_
  rw [h.bits, heq]
  exact List.prefix_iff_eq_take.mp hpath

end Items

/-! ### The iteration -/

section Iteration

variable {platform : Platform} {src : ReaderSource} {T : SearchTree}
  {leaves : List (List Bool × MMValue)} {entries : List LookupResult}

/-- The items of an enumeration: what the iterator makes of its entries. -/
lemma exists_items {ipnetwork : IpNetworkCrate} (hnet : ipnetwork.Lawful) {ipVersion : UInt16}
    (hdecode : T.Decodes)
    (hentry : List.Forall₂ (fun leaf entry => entry.record = some leaf.2 ∧
      ∃ network, entry.network = .ok network ∧ NetworkAt ipVersion leaf.1 network) leaves entries)
    (hleaves : ∀ leaf ∈ leaves, T.Yields ipVersion leaf.1 leaf.2) :
    ∃ items, List.Forall₂ (fun entry item =>
        ReaderIterator.itemOutcome ipnetwork (.ok entry) = .ok item) entries items ∧
      List.Forall₂ (IsItem ipVersion) leaves items := by
  induction hentry with
  | nil => exact ⟨[], .nil, .nil⟩
  | @cons leaf entry leaves entries hhead _ ih =>
      obtain ⟨hrecord, network, hnetwork, hat⟩ := hhead
      obtain ⟨item, houtcome, hitem⟩ := itemOutcome_of_leaf hnet hdecode
        (hleaves leaf List.mem_cons_self) hrecord hnetwork hat
      obtain ⟨items, houtcomes, hitems⟩ := ih fun l hl => hleaves l (List.mem_cons_of_mem _ hl)
      exact ⟨item :: items, .cons houtcome houtcomes, .cons hitem hitems⟩

/-- The iterator gives its items one after the other, and then the end. -/
lemma nextOutcome_drop {ipnetwork : IpNetworkCrate} {items : List (PyIpNetwork × PyObj)}
    (h : List.Forall₂ (fun entry item =>
      ReaderIterator.itemOutcome ipnetwork (.ok entry) = .ok item) entries items) (j : ℕ) :
    ReaderIterator.nextOutcome ipnetwork ((entries.map Except.ok).drop j) = .ok items[j]? := by
  induction h generalizing j with
  | nil =>
      rw [List.map_nil, List.drop_nil]
      rfl
  | @cons entry item entries items hhead _ ih =>
      cases j with
      | zero =>
          rw [List.map_cons, List.drop_zero, ReaderIterator.nextOutcome, hhead]
          rfl
      | succ j =>
          rw [List.map_cons, List.drop_succ_cons, ih]
          rfl

/-- Creating the iterator enumerates the whole database. -/
lemma SearchTree.Enumerated.new_eq {ipnetwork : IpNetworkCrate} (hnet : ipnetwork.Lawful)
    (h : T.Enumerated src leaves entries) :
    ReaderIterator.new ipnetwork src = .ok ⟨entries.map .ok⟩ := by
  have hwithin := h.within
  rw [ReaderIterator.new, ReaderIterator.rootNetworkForIpVersion]
  by_cases hv : src.metadata.ipVersion = 4
  · rw [rootNetwork, if_pos hv] at hwithin
    simp only [if_pos hv, hnet.fromStr4, hwithin]
  · rw [rootNetwork, if_neg hv] at hwithin
    simp only [if_neg hv, hnet.fromStr6, hwithin]

/-- In every run, every iterator gives the items in order, and then the end. -/
lemma nextResults_eq_items (hnew : ReaderIterator.new platform.ipnetwork src
      = .ok ⟨entries.map .ok⟩) {items : List (PyIpNetwork × PyObj)}
    (houtcomes : List.Forall₂ (fun entry item =>
      ReaderIterator.itemOutcome platform.ipnetwork (.ok entry) = .ok item) entries items)
    {heap : ℕ → Option PyTuple}
    {es : List (Event ℕ (Call (createConfig platform src).toPlatform) Label (PyResult Value))}
    {P : Pool ℕ (Call (createConfig platform src).toPlatform) Label ReaderState (PyResult Value)}
    (run : (readerSystem (createConfig platform src)).Run (createReader src heap) es P) {k j : ℕ}
    {r : PyResult (Option (PyIpNetwork × PyObj))} (hr : (nextResults k es)[j]? = some r) :
    r = .ok items[j]? := by
  rcases Nat.lt_or_ge k P.shared.iterators.length with hk | hk
  · obtain ⟨it, hit, hresults, -⟩ := (nextResults_of_run run k).2 hk
    obtain rfl : it = ⟨entries.map .ok⟩ := Except.ok.inj (hit.symm.trans hnew)
    have hj : j < (nextResults k es).length := (List.getElem?_eq_some_iff.mp hr).1
    rw [hresults, enumerated, List.getElem?_map, List.getElem?_range hj] at hr
    calc r = ReaderIterator.nextOutcome platform.ipnetwork ((entries.map Except.ok).drop j) :=
          (Option.some.inj hr).symm
      _ = .ok items[j]? := nextOutcome_drop houtcomes j
  · rw [(nextResults_of_run run k).1 hk] at hr
    cases hr

/-- A record that is not below an alias is that of a leaf of the enumeration. -/
lemma SearchTree.yields_of_walk {ipVersion : UInt16} {bits : List Bool} {v : MMValue} {k : ℕ}
    (hwalk : T.walk bits = some (some v, k)) (hnot : ¬T.Aliased ipVersion bits) :
    T.Yields ipVersion (bits.take k) v := by
  refine ⟨(PrefixTree.walk_eq_some_iff.mp hwalk).2, fun haliased => hnot ?_⟩
  obtain ⟨hv, n, path, hpath, hne, hfollow, hzeros⟩ := haliased
  exact ⟨hv, n, path, hpath.trans (List.prefix_iff_eq_take.mpr (by simp)), hne, hfollow, hzeros⟩

/-- On an open reader `__iter__` makes an iterator and returns its number. -/
lemma iter_open {s : ReaderState} (hs : s.Open platform src) {it : ReaderIterator}
    (hnew : ReaderIterator.new platform.ipnetwork src = .ok it) :
    (iter (createConfig platform src)).value s = .ok s.iterators.length ∧
      ((iter (createConfig platform src)).final s).iterators = s.iterators ++ [it] := by
  have hnew' : ReaderIterator.new (createConfig platform src).ipnetwork src = .ok it := hnew
  rw [iter, load, andThen_atom, value_atom, final_atom, hs.slot]
  simp only [andThen_ret_ok, value_atom, final_atom, hnew']
  exact ⟨rfl, rfl⟩

/-- What `__next__` returns in a run is one of the results of its iterator. -/
lemma exists_nextResult {heap : ℕ → Option PyTuple}
    {es : List (Event ℕ (Call (createConfig platform src).toPlatform) Label (PyResult Value))}
    {P : Pool ℕ (Call (createConfig platform src).toPlatform) Label ReaderState (PyResult Value)}
    (run : (readerSystem (createConfig platform src)).Run (createReader src heap) es P)
    {i thread k : ℕ} {tr : List Label} {a : PyResult Value}
    (hret : .ret i (.next thread k) tr a ∈ es) :
    ∃ (j : ℕ) (r : PyResult (Option (PyIpNetwork × PyObj))),
      (nextResults k es)[j]? = some r ∧ a = r.map .item := by
  obtain ⟨r, rfl, rfl⟩ : (Call.next thread k).Tells tr a := tells_of_run run hret
  have hstep := run.emitted.2 i _ _ _ hret _ (List.mem_singleton_self _)
  have hmem : r ∈ nextResults k es :=
    List.mem_filterMap.mpr ⟨_, hstep, by rw [Event.nextResult?, if_pos rfl]⟩
  obtain ⟨j, hj⟩ := List.mem_iff_getElem?.mp hmem
  exact ⟨j, r, hj, rfl⟩

/-- **Iteration and point lookup describe the same database**, for every search tree whose records
decode. Iterating raises nothing, and every iterator gives the same items in order and then ends:
`__iter__` returns the number of the iterator that it makes, iterators being numbered as they are
made, and `__next__` returns what its iterator gives.
An address of an item's network has the item's record and prefix length. No address is in two of
the networks, and every address with a record that is not below an aliased copy of the IPv4
subtree is in exactly one, where an IPv4 address of an IPv6 database is identified with its IPv6
address by the bits it is looked up with. -/
theorem iteration_eq_lookups (hT : T.Backs src) (hnet : platform.ipnetwork.Lawful)
    (hdecode : T.Decodes) (henum : T.Enumerated src leaves entries) :
    ∃ items : List (PyIpNetwork × PyObj),
      (∀ s : ReaderState, s.Open platform src →
        (iter (createConfig platform src)).value s = .ok s.iterators.length ∧
          ((iter (createConfig platform src)).final s).iterators
            = s.iterators ++ [⟨entries.map .ok⟩]) ∧
      (∀ heap (es : List (Event ℕ (Call (createConfig platform src).toPlatform) Label
          (PyResult Value))) P,
        (readerSystem (createConfig platform src)).Run (createReader src heap) es P →
        (∀ k (j : ℕ) r, (nextResults k es)[j]? = some r → r = .ok items[j]?) ∧
          (∀ i thread k tr a, .ret i (.next thread k) tr a ∈ es →
            ∃ j < (nextResults k es).length, a = .ok (.item items[j]?)) ∧
          es.filterMap Event.made? = List.range P.shared.iterators.length ∧
          ∀ i c tr a, .ret i c tr a ∈ es → c.Tells tr a) ∧
      (∀ item ∈ items, ∀ x a, parseLookupIp (createConfig platform src) x = .ok a →
        a ∈ item.1.addresses → ∀ thread (s : ReaderState), s.Open platform src →
          (getWithPrefixLen (createConfig platform src) thread x).value s
            = .ok (item.2, item.1.prefixlen)) ∧
      items.Pairwise (fun i j => Disjoint
        (searchBits src.metadata.ipVersion '' i.1.addresses)
        (searchBits src.metadata.ipVersion '' j.1.addresses)) ∧
      ∀ a v k, a.Accepted src.metadata.ipVersion →
        T.walk (searchBits src.metadata.ipVersion a) = some (some v, k) →
        ¬T.Aliased src.metadata.ipVersion (searchBits src.metadata.ipVersion a) →
        ∃! i : Fin items.length, searchBits src.metadata.ipVersion a
          ∈ searchBits src.metadata.ipVersion '' (items.get i).1.addresses := by
  have hleaves : ∀ leaf ∈ leaves, T.Yields src.metadata.ipVersion leaf.1 leaf.2 :=
    fun leaf hl => (henum.mem_iff leaf.1 leaf.2).mp hl
  obtain ⟨items, houtcomes, hitems⟩ := exists_items hnet hdecode henum.entry hleaves
  have hlen := hitems.length_eq
  have hitem : ∀ i (hi : i < items.length),
      IsItem src.metadata.ipVersion (leaves.get ⟨i, hlen ▸ hi⟩) (items.get ⟨i, hi⟩) :=
    fun i hi => hitems.get (hlen ▸ hi) hi
  have hnew := henum.new_eq hnet
  have hunique : ∀ i (hi : i < items.length) j (hj : j < items.length) bits,
      bits ∈ searchBits src.metadata.ipVersion '' (items.get ⟨i, hi⟩).1.addresses →
      bits ∈ searchBits src.metadata.ipVersion '' (items.get ⟨j, hj⟩).1.addresses → i = j := by
    intro i hi j hj bits hbi hbj
    have heq := (hitem i hi).eq_of_mem (hitem j hj) (hleaves _ (List.get_mem _ _)).1
      (hleaves _ (List.get_mem _ _)).1 hbi hbj
    exact (henum.nodup.getElem_inj_iff).mp heq
  refine ⟨items, fun s hs => iter_open hs hnew, ?_, ?_, ?_, ?_⟩
  · intro heap es P run
    refine ⟨fun k j r hr => nextResults_eq_items hnew houtcomes run hr,
      fun i thread k tr a hret => ?_, made_of_run run, fun i c tr a => tells_of_run run⟩
    obtain ⟨j, r, hr, rfl⟩ := exists_nextResult run hret
    rw [nextResults_eq_items hnew houtcomes run hr]
    exact ⟨j, (List.getElem?_eq_some_iff.mp hr).1, rfl⟩
  · intro item hmem x a hx ha thread s hs
    obtain ⟨i, rfl⟩ := List.get_of_mem hmem
    rw [getWithPrefixLen_eq hx thread hs]
    exact (hitem i i.isLt).lookup hT (hleaves _ (List.get_mem _ _)).1 ha
  · refine List.pairwise_iff_getElem.mpr fun i j hi hj hij => ?_
    refine Set.disjoint_left.mpr fun bits hbi hbj => ?_
    exact absurd (hunique i hi j hj bits hbi hbj) (Nat.ne_of_lt hij)
  · intro a v k ha hwalk hnot
    have hbegin : (searchBits src.metadata.ipVersion a).take k
        <+: searchBits src.metadata.ipVersion a :=
      List.prefix_iff_eq_take.mpr (by simp)
    have hyields := SearchTree.yields_of_walk hwalk hnot
    obtain ⟨i, hi⟩ := List.get_of_mem ((henum.mem_iff _ _).mpr hyields)
    have hmem := hitem i (hlen ▸ i.isLt)
    rw [hi] at hmem
    refine ⟨⟨i, hlen ▸ i.isLt⟩, hmem.mem_of_path ha hbegin, fun j hj => ?_⟩
    exact Fin.ext (hunique j j.isLt i (hlen ▸ i.isLt) _ hj (hmem.mem_of_path ha hbegin))

/-- The bits of an address after shifting its host bits out. -/
lemma msbBits_shift {n k : ℕ} (hk : k ≤ n) (x : BitVec n) :
    msbBits ((x >>> (n - k)) <<< (n - k))
      = (msbBits x).take k ++ List.replicate (n - k) false := by
  refine List.ext_getElem (by simp; omega) fun i h1 h2 => ?_
  have hi : i < n := by simpa using h1
  rw [getElem_msbBits, BitVec.getMsbD_shiftLeft, BitVec.getMsbD_ushiftRight]
  by_cases hik : i < k
  · rw [List.getElem_append_left (by simp; omega), List.getElem_take, getElem_msbBits]
    have hlt : i + (n - k) < n := by omega
    simp [hlt]
  · rw [List.getElem_append_right (by simp; omega), List.getElem_replicate]
    have hlt : ¬i + (n - k) < n := by omega
    simp [hlt]

/-- Networks as the ipnetwork crate has them. -/
def plainNetworks : IpNetworkCrate where
  fromStr s := if s = "0.0.0.0/0" then .ok (.V4 0 0) else if s = "::/0" then .ok (.V6 0 0)
    else .error "invalid address"
  new a prefixLen := if prefixLen ≤ a.width then .ok (a.toNetwork prefixLen)
    else .error "invalid prefix"
  network
    | .V4 a n => .V4 ((a >>> (32 - n)) <<< (32 - n))
    | .V6 a n => .V6 ((a >>> (128 - n)) <<< (128 - n))

lemma plainNetworks_lawful : plainNetworks.Lawful where
  fromStr4 := rfl
  fromStr6 := rfl
  new a prefixLen h := if_pos h
  network net hlen := by
    cases net with
    | V4 a n => exact ⟨trivial, msbBits_shift hlen a⟩
    | V6 a n => exact ⟨trivial, msbBits_shift hlen a⟩

/-- The paths of the tree of one node. -/
lemma halfTree_leaf {m : MMValue} {path : List Bool} {record : Option MMValue}
    (h : PrefixTree.Leaf (halfTree m).child (halfTree m).root path record) :
    ∃ b, path = [b] ∧ record = if b then some m else none := by
  cases h with
  | @step n b p _ h =>
      cases h
      exact ⟨b, rfl, rfl⟩

lemma halfTree_decodes {m : MMValue} {data : PyObj} (hm : denote m = .ok data) :
    (halfTree m).Decodes := by
  intro path v h
  obtain ⟨b, -, hv⟩ := halfTree_leaf h
  cases b with
  | false => cases hv
  | true =>
      cases hv
      exact ⟨data, hm⟩

lemma halfTree_enumerated (m : MMValue) :
    (halfTree m).Enumerated (halfSource m) [([true], m)]
      [⟨.ok (.V4 0x80000000 1), some m, fun _ => .ok none⟩] where
  within := rfl
  nodup := List.nodup_singleton _
  mem_iff path v := by
    rw [List.mem_singleton]
    constructor
    · intro h
      cases h
      exact ⟨.step (.here _), fun h => h.1 rfl⟩
    · rintro ⟨hleaf, -⟩
      obtain ⟨b, rfl, hv⟩ := halfTree_leaf hleaf
      cases b with
      | false => cases hv
      | true =>
          cases hv
          rfl
  entry := .cons ⟨rfl, _, rfl, ⟨fun _ => ⟨_, rfl⟩, fun _ => Or.inl rfl⟩,
    show (searchBits 4 (.V4 0x80000000)).take 1 = [true] by decide, rfl⟩ .nil

/-- The reader of the tree of one node can be iterated over: `__next__` of its first iterator
returns the first item, and there is an item with the address 192.0.2.1. -/
theorem iteration_eq_lookups_halfTree :
    let platform : Platform := { smallPlatform with ipnetwork := plainNetworks }
    let src := halfSource (.scalar (.bool true))
    ∃ items : List (PyIpNetwork × PyObj),
      (iter (createConfig platform src)).value (createReader src fun _ => none) = .ok 0 ∧
      (∃ es, ∃ P : Pool ℕ _ Label ReaderState (PyResult Value), ∃ tr,
        (readerSystem (createConfig platform src)).Run (createReader src fun _ => none) es P ∧
        .ret 0 (.next 0 0) tr (.ok (.item items[0]?)) ∈ es) ∧
      ∃ i : Fin items.length, searchBits 4 (.V4 0xC0000201)
        ∈ searchBits 4 '' (items.get i).1.addresses := by
  intro platform src
  have hnet : platform.ipnetwork.Lawful := plainNetworks_lawful
  obtain ⟨items, hiter, hruns, -, -, hcover⟩ := iteration_eq_lookups
    (SearchTree.backs_reader _ _ _) hnet
    (halfTree_decodes (rfl : denote (.scalar (.bool true)) = .ok (.bool true)))
    (halfTree_enumerated (.scalar (.bool true)))
  have start : (readerSystem (createConfig platform src)).Run
      (createReader src fun _ => none) [] _ := .nil (ι := ℕ)
  have iterating := start.exec (i := 0) (c := .iter) rfl trivial
  have returned := iterating.exec (i := 0) (c := .next 0 0) rfl Nat.zero_lt_one
  have hlast : ∀ {es : List (Event ℕ (Call platform) Label (PyResult Value))} {e},
      e ∈ es ++ [e] := List.mem_append_right _ (List.mem_singleton_self _)
  obtain ⟨j, hj, hret⟩ := (hruns _ _ _ returned).2.1 0 0 0 _ _ hlast
  obtain rfl : j = 0 := Nat.lt_one_iff.mp hj
  rw [hret] at returned
  have haliased : ¬(halfTree (.scalar (.bool true))).Aliased 4 (searchBits 4 (.V4 0xC0000201)) :=
    fun h => h.1 rfl
  obtain ⟨i, hi, -⟩ := hcover (.V4 0xC0000201) (.scalar (.bool true)) 1 trivial rfl haliased
  exact ⟨items, (hiter _ (createReader_open _ _ _)).1, ⟨_, _, _, returned, hlast⟩, i, hi⟩

end Iteration

end MaxminddbRust
