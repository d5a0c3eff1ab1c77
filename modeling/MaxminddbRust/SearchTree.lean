import MaxminddbRust.Data.PrefixTree
import MaxminddbRust.ReaderSystem
import Mathlib.Data.Set.BooleanAlgebra
import Mathlib.Order.CompletePartialOrder

/-!
Lookups as walks in a search tree.

* `SearchTree`, `SearchTree.Backs`: a search tree, and what the crate's documentation says of
  lookups in it: they walk the tree and report the bits walked.
* `searchBits`: the bits an address is looked up with; `depth`: the prefix length in the address's
  own family. `take_searchBits_eq_iff`: agreement up to that length is agreement up to the leaf.
* `lookupPrefixValue_eq_ok_iff`: what a lookup with prefix length returns, in terms of the walk.
* `getWithPrefixLen_blocks`: a prefix length describes a block of addresses with one answer.
-/

namespace MaxminddbRust

open Concurrent.Prog

/-! ### Search trees -/

/-- A search tree, whose leaves are empty or hold a record. -/
structure SearchTree where
  Node : Type
  child : Node → Bool → PrefixTree.Entry Node (Option MMValue)
  root : PrefixTree.Entry Node (Option MMValue)

namespace SearchTree

/-- The leaf that the bits lead to from the root, and how many of them it took. -/
def walk (T : SearchTree) (bits : List Bool) : Option (Option MMValue × ℕ) :=
  PrefixTree.walk T.child T.root bits

end SearchTree

/-- A reader of a database of the IP version looks the address up. -/
def IpAddr.Accepted (ipVersion : UInt16) : IpAddr → Prop
  | V4 _ => True
  | V6 _ => ipVersion ≠ 4

/-- The bits that an address is looked up with. An IPv4 address in an IPv6 tree has 96 zeros in
front. -/
def searchBits (ipVersion : UInt16) : IpAddr → List Bool
  | .V4 v => if ipVersion = 4 then (IpAddr.V4 v).bits
      else List.replicate 96 false ++ (IpAddr.V4 v).bits
  | .V6 v => (IpAddr.V6 v).bits

/-- The prefix length of a walk of `k` bits, in the family of the address. -/
def depth (ipVersion : UInt16) (ip : IpAddr) (k : ℕ) : ℕ :=
  match ip with
  | .V4 _ => if ipVersion = 4 then k else k - 96
  | .V6 _ => k

/-- The network that `LookupResult::network` reports for a walk of `k` bits: the bits walked, in
an IPv6 tree as an IPv6 network, or for an IPv4 address as an IPv4 network without the 96 bits in
front. -/
def Reports (ipVersion : UInt16) : IpAddr → ℕ → IpNetwork → Prop
  | .V4 _, k, .V4 _ prefixLen => prefixLen = if ipVersion = 4 then k else k - 96
  | .V4 _, k, .V6 _ prefixLen => ipVersion ≠ 4 ∧ prefixLen = k
  | .V6 _, k, .V6 _ prefixLen => prefixLen = k
  | .V6 _, _, .V4 _ _ => False

/-- The lookups of a source walk the tree. -/
structure SearchTree.Backs (T : SearchTree) (src : ReaderSource) : Prop where
  found : ∀ ip record k, ip.Accepted src.metadata.ipVersion →
    T.walk (searchBits src.metadata.ipVersion ip) = some (record, k) →
    ∃ result network, src.reader.lookup ip = .ok result ∧ result.record = record ∧
      result.network = .ok network ∧ Reports src.metadata.ipVersion ip k network
  notFound : ∀ ip, ip.Accepted src.metadata.ipVersion →
    T.walk (searchBits src.metadata.ipVersion ip) = none → ∃ e, src.reader.lookup ip = .error e

/-! ### Bits and prefix lengths -/

section Bits

variable {ipVersion : UInt16} {a b : IpAddr} {k : ℕ}

/-- The reported network gives the prefix length in the family of the address, whichever family
it is in itself. -/
lemma Reports.convertPrefixLen_eq {network : IpNetwork} (h : Reports ipVersion a k network) :
    convertPrefixLen a network = depth ipVersion a k := by
  cases a with
  | V4 v =>
      cases network with
      | V4 ip prefixLen => exact h
      | V6 ip prefixLen =>
          obtain ⟨hv, rfl⟩ := h
          exact (if_neg hv).symm
  | V6 v =>
      cases network with
      | V4 ip prefixLen => exact h.elim
      | V6 ip prefixLen => exact h

/-- A walk along an address ends within the width of its family. -/
lemma depth_le_width (h : k ≤ (searchBits ipVersion a).length) : depth ipVersion a k ≤ a.width := by
  cases a with
  | V4 v =>
      by_cases hv : ipVersion = 4
      · simpa [searchBits, depth, hv] using h
      · simp only [searchBits, depth, if_neg hv, List.length_append, List.length_replicate,
          IpAddr.length_bits, IpAddr.width] at h ⊢
        omega
  | V6 v => simpa [searchBits, depth] using h

lemma IpAddr.Accepted.of_sameFamily (ha : a.Accepted ipVersion)
    (hab : a.SameFamily b) : b.Accepted ipVersion := by
  cases a <;> cases b <;> first | exact ha | exact hab.elim

/-- How many bits addresses are looked up with. -/
def treeWidth (ipVersion : UInt16) : ℕ := if ipVersion = 4 then 32 else 128

lemma length_searchBits (ha : a.Accepted ipVersion) :
    (searchBits ipVersion a).length = treeWidth ipVersion := by
  cases a with
  | V4 v => by_cases hv : ipVersion = 4 <;> simp [searchBits, treeWidth, hv, IpAddr.width]
  | V6 v =>
      have hv : ipVersion ≠ 4 := ha
      simp [searchBits, treeWidth, hv, IpAddr.width]

/-- Agreement up to the prefix length is agreement on all the bits walked. -/
lemma take_searchBits_eq_iff (hab : a.SameFamily b) :
    (searchBits ipVersion a).take k = (searchBits ipVersion b).take k ↔
      a.bits.take (depth ipVersion a k) = b.bits.take (depth ipVersion a k) := by
  cases a with
  | V4 v =>
      cases b with
      | V4 v' =>
          by_cases hv : ipVersion = 4
          · simp [searchBits, depth, hv]
          · simp only [searchBits, depth, if_neg hv]
            rw [List.take_append, List.take_append, List.length_replicate,
              List.append_cancel_left_eq]
      | V6 v' => exact hab.elim
  | V6 v =>
      cases b with
      | V4 v' => exact hab.elim
      | V6 v' => exact Iff.rfl

lemma depth_eq_of_sameFamily (hab : a.SameFamily b) :
    depth ipVersion a k = depth ipVersion b k := by
  cases a <;> cases b <;> first | exact hab.elim | rfl

/-- An IPv4 address in an IPv6 tree is looked up as the IPv6 address with 96 zeros in front. -/
lemma searchBits_v4Compatible (hv : ipVersion ≠ 4) (v : BitVec 32) :
    searchBits ipVersion (.V4 v) = searchBits ipVersion (.v4Compatible v) := by
  calc searchBits ipVersion (.V4 v) = List.replicate 96 false ++ (IpAddr.V4 v).bits := if_neg hv
    _ = (IpAddr.v4Compatible v).bits := (IpAddr.bits_v4Compatible v).symm

end Bits

/-! ### Lookups as walks -/

section Walks

variable {T : SearchTree} {src : ReaderSource} {ip : IpAddr}

/-- What the record at a leaf is to Python. -/
def recordValue (record : Option MMValue) : PyResult PyObj :=
  lookupResultToPython (denoteRecord record)

/-- A lookup returns the record at the leaf of its walk, and where it asks for it the prefix
length. -/
lemma SearchTree.Backs.lookup_of_walk (hT : T.Backs src)
    (hip : ip.Accepted src.metadata.ipVersion) {record : Option MMValue} {k : ℕ}
    (h : T.walk (searchBits src.metadata.ipVersion ip) = some (record, k)) :
    lookupValue src ip = recordValue record ∧
      lookupPrefixValue src ip
        = (recordValue record).map fun r => (r, depth src.metadata.ipVersion ip k) := by
  obtain ⟨result, network, hlookup, rfl, hnetwork, hreports⟩ := hT.found ip record k hip h
  rw [lookupValue, lookupPrefixValue, ReaderSource.lookupOutcome, ReaderSource.lookupPrefixOutcome,
    hlookup]
  simp only [Bind.bind, Except.bind, hnetwork, hreports.convertPrefixLen_eq]
  refine ⟨rfl, ?_⟩
  rw [recordValue]
  cases denoteRecord result.record with
  | error e => rfl
  | ok data => cases data <;> rfl

/-- **What a lookup with prefix length returns**: the record at the leaf of the walk, and how far
the walk went. -/
theorem SearchTree.Backs.lookupPrefixValue_eq_ok_iff (hT : T.Backs src)
    (hip : ip.Accepted src.metadata.ipVersion) {r : PyObj} {L : ℕ} :
    lookupPrefixValue src ip = .ok (r, L) ↔
      ∃ record k, T.walk (searchBits src.metadata.ipVersion ip) = some (record, k) ∧
        recordValue record = .ok r ∧ L = depth src.metadata.ipVersion ip k := by
  constructor
  · intro h
    cases hwalk : T.walk (searchBits src.metadata.ipVersion ip) with
    | none =>
        obtain ⟨e, he⟩ := hT.notFound ip hip hwalk
        rw [lookupPrefixValue, ReaderSource.lookupPrefixOutcome, he] at h
        cases h
    | some leaf =>
        obtain ⟨record, k⟩ := leaf
        rw [(hT.lookup_of_walk hip hwalk).2] at h
        cases hr : recordValue record with
        | error e =>
            rw [hr] at h
            cases h
        | ok r' =>
            rw [hr] at h
            cases h
            exact ⟨record, k, rfl, hr, rfl⟩
  · rintro ⟨record, k, hwalk, hr, rfl⟩
    rw [(hT.lookup_of_walk hip hwalk).2, hr]
    rfl

end Walks

/-! ### Blocks of addresses -/

/-- The addresses of the same family that agree with the address on the first `L` bits. -/
def IpAddr.block (a : IpAddr) (L : ℕ) : Set IpAddr :=
  {b | a.SameFamily b ∧ a.bits.take L = b.bits.take L}

/-- A block is the block of each of its addresses. -/
lemma IpAddr.block_eq_of_mem {a b : IpAddr} {L : ℕ} (h : b ∈ a.block L) :
    a.block L = b.block L := by
  ext c
  constructor
  · rintro ⟨hac, hbits⟩
    exact ⟨h.1.symm.trans hac, h.2.symm.trans hbits⟩
  · rintro ⟨hbc, hbits⟩
    exact ⟨h.1.trans hbc, h.2.trans hbits⟩

section Blocks

variable {T : SearchTree} {src : ReaderSource} {a b : IpAddr} {r r' : PyObj} {L L' : ℕ}

/-- **A block has one answer.** -/
lemma SearchTree.Backs.lookupPrefixValue_of_mem_block (hT : T.Backs src)
    (ha : a.Accepted src.metadata.ipVersion) (h : lookupPrefixValue src a = .ok (r, L))
    (hb : b ∈ a.block L) : lookupPrefixValue src b = .ok (r, L) := by
  obtain ⟨hab, hbits⟩ := hb
  obtain ⟨record, k, hwalk, hr, rfl⟩ := (hT.lookupPrefixValue_eq_ok_iff ha).mp h
  have hb := ha.of_sameFamily hab
  have hk : k ≤ (searchBits src.metadata.ipVersion b).length := by
    rw [length_searchBits hb, ← length_searchBits ha]
    exact (PrefixTree.walk_eq_some_iff.mp hwalk).1
  refine (hT.lookupPrefixValue_eq_ok_iff hb).mpr ⟨record, k, ?_, hr, ?_⟩
  · exact PrefixTree.walk_congr hwalk ((take_searchBits_eq_iff hab).mpr hbits) hk
  · exact depth_eq_of_sameFamily hab

/-- **Blocks are equal or disjoint.** -/
lemma SearchTree.Backs.block_eq_or_disjoint (hT : T.Backs src)
    (ha : a.Accepted src.metadata.ipVersion) (hb : b.Accepted src.metadata.ipVersion)
    (h : lookupPrefixValue src a = .ok (r, L)) (h' : lookupPrefixValue src b = .ok (r', L')) :
    a.block L = b.block L' ∨ Disjoint (a.block L) (b.block L') := by
  by_cases hmeet : ∃ c, c ∈ a.block L ∧ c ∈ b.block L'
  · obtain ⟨c, hca, hcb⟩ := hmeet
    have hc := hT.lookupPrefixValue_of_mem_block ha h hca
    rw [hT.lookupPrefixValue_of_mem_block hb h' hcb] at hc
    obtain rfl : L' = L := congrArg Prod.snd (Except.ok.inj hc)
    left
    calc a.block L' = c.block L' := IpAddr.block_eq_of_mem hca
      _ = b.block L' := (IpAddr.block_eq_of_mem hcb).symm
  · exact Or.inr (Set.disjoint_left.mpr fun c hca hcb => hmeet ⟨c, hca, hcb⟩)

/-- In an IPv6 database an IPv4 address has the answer of the IPv6 address with 96 zeros in
front, with 96 taken off the prefix length, or what there is of it. -/
lemma SearchTree.Backs.lookupPrefixValue_v4Compatible (hT : T.Backs src)
    (hv : src.metadata.ipVersion ≠ 4) (v : BitVec 32) :
    lookupPrefixValue src (.V4 v) = .ok (r, L) ↔
      ∃ L', lookupPrefixValue src (.v4Compatible v) = .ok (r, L') ∧ L = L' - 96 := by
  have h4 : (IpAddr.V4 v).Accepted src.metadata.ipVersion := trivial
  have h6 : (IpAddr.v4Compatible v).Accepted src.metadata.ipVersion := hv
  rw [hT.lookupPrefixValue_eq_ok_iff h4, searchBits_v4Compatible hv]
  constructor
  · rintro ⟨record, k, hwalk, hr, rfl⟩
    exact ⟨k, (hT.lookupPrefixValue_eq_ok_iff h6).mpr ⟨record, k, hwalk, hr, rfl⟩, if_neg hv⟩
  · rintro ⟨L', h, rfl⟩
    obtain ⟨record, k, hwalk, hr, hk⟩ := (hT.lookupPrefixValue_eq_ok_iff h6).mp h
    obtain rfl : k = L' := hk.symm
    exact ⟨record, k, hwalk, hr, (if_neg hv).symm⟩

end Blocks

/-! ### Prefix lengths -/

section Blocks

variable {platform : Platform} {src : ReaderSource} {T : SearchTree}

lemma accepted_of_parseLookupIp {cfg : Config} {x : PyObj} {ip : IpAddr}
    (h : parseLookupIp cfg x = .ok ip) : ip.Accepted cfg.ipVersion := by
  cases ip with
  | V4 v => trivial
  | V6 v =>
      intro hv
      obtain ⟨v', hv'⟩ := isV4_of_parseLookupIp hv h
      cases hv'

/-- On an open reader, `get_with_prefix_len` of an accepted address is its lookup. -/
lemma getWithPrefixLen_eq {x : PyObj} {a : IpAddr}
    (hx : parseLookupIp (createConfig platform src) x = .ok a) (thread : ℕ) {s : ReaderState}
    (hs : s.Open platform src) :
    (getWithPrefixLen (createConfig platform src) thread x).value s = lookupPrefixValue src a := by
  rw [getWithPrefixLen_open hs, hx]
  rfl

/-- **A prefix length describes a block with one answer**, over every search tree. What
`get_with_prefix_len` returns for an address is a prefix length of its family and the record that
`get` returns, and it returns the same for every address that agrees with it so far; hence the
blocks of any two addresses are equal or disjoint. In an IPv6 database an IPv4 address has the
record of its IPv6 address and that one's prefix length less 96, or zero. -/
theorem getWithPrefixLen_blocks (hT : T.Backs src) :
    (∀ x a, parseLookupIp (createConfig platform src) x = .ok a →
      ∀ thread (s : ReaderState) r L, s.Open platform src →
        (getWithPrefixLen (createConfig platform src) thread x).value s = .ok (r, L) →
        L ≤ a.width ∧
          (∀ thread (s : ReaderState), s.Open platform src →
            (get (createConfig platform src) thread x).value s = .ok r) ∧
          ∀ y b, parseLookupIp (createConfig platform src) y = .ok b →
            (b ∈ a.block L → ∀ thread (s : ReaderState), s.Open platform src →
              (getWithPrefixLen (createConfig platform src) thread y).value s = .ok (r, L)) ∧
            ∀ thread (s : ReaderState) r' L', s.Open platform src →
              (getWithPrefixLen (createConfig platform src) thread y).value s = .ok (r', L') →
              a.block L = b.block L' ∨ Disjoint (a.block L) (b.block L')) ∧
      (src.metadata.ipVersion ≠ 4 → ∀ v x y,
        parseLookupIp (createConfig platform src) x = .ok (.V4 v) →
        parseLookupIp (createConfig platform src) y = .ok (.v4Compatible v) →
        ∀ thread thread' (s s' : ReaderState), s.Open platform src → s'.Open platform src →
          ∀ r L4, (getWithPrefixLen (createConfig platform src) thread x).value s = .ok (r, L4) ↔
            ∃ L6, (getWithPrefixLen (createConfig platform src) thread' y).value s' = .ok (r, L6) ∧
              L4 = L6 - 96) := by
  constructor
  · intro x a hx thread s r L hs h
    rw [getWithPrefixLen_eq hx thread hs] at h
    have ha := accepted_of_parseLookupIp hx
    obtain ⟨record, k, hwalk, hr, hL⟩ := (hT.lookupPrefixValue_eq_ok_iff ha).mp h
    refine ⟨?_, fun thread s hs => ?_, fun y b hy => ⟨fun hb thread s hs => ?_, ?_⟩⟩
    · rw [hL]
      exact depth_le_width (PrefixTree.walk_eq_some_iff.mp hwalk).1
    · rw [get_open hs, hx, ← hr, ← (hT.lookup_of_walk ha hwalk).1]
      rfl
    · rw [getWithPrefixLen_eq hy thread hs]
      exact hT.lookupPrefixValue_of_mem_block ha h hb
    · intro thread s r' L' hs h'
      rw [getWithPrefixLen_eq hy thread hs] at h'
      exact hT.block_eq_or_disjoint ha (accepted_of_parseLookupIp hy) h h'
  · intro hv v x y hx hy thread thread' s s' hs hs' r L4
    rw [getWithPrefixLen_eq hx thread hs, getWithPrefixLen_eq hy thread' hs']
    exact hT.lookupPrefixValue_v4Compatible hv v

/-- A network that reports a walk of `k` bits. -/
def reported (ipVersion : UInt16) (ip : IpAddr) (k : ℕ) : IpNetwork :=
  match ip with
  | .V4 v => if ipVersion = 4 then .V4 v k else .V6 (v.setWidth 128) k
  | .V6 v => .V6 v k

/-- What a lookup makes of a walk. -/
def walkResult (ipVersion : UInt16) (ip : IpAddr) :
    Option (Option MMValue × ℕ) → Except MaxMindDbError LookupResult
  | none => .error (.InvalidDatabase (.text "invalid node in search tree"))
  | some (record, k) => .ok ⟨.ok (reported ipVersion ip k), record, fun _ => .ok none⟩

/-- A reader that looks addresses up by walking the tree, and enumerates the entries. -/
def SearchTree.reader (T : SearchTree) (metadata : MaxMindMetadata)
    (entries : List LookupResult) : MaxMindReader where
  metadata := metadata
  lookup ip := walkResult metadata.ipVersion ip (T.walk (searchBits metadata.ipVersion ip))
  within _ := .ok (entries.map .ok)

/-- Every search tree backs a source. -/
lemma SearchTree.backs_reader (T : SearchTree) (metadata : MaxMindMetadata)
    (entries : List LookupResult) : T.Backs (.Memory (T.reader metadata entries)) where
  found ip record k _ h := by
    have hreports : Reports metadata.ipVersion ip k (reported metadata.ipVersion ip k) := by
      cases ip with
      | V4 v =>
          by_cases hv : metadata.ipVersion = 4
          · simp [Reports, reported, hv]
          · simp [Reports, reported, hv]
      | V6 v => exact rfl
    exact ⟨_, _, congrArg (walkResult metadata.ipVersion ip) h, rfl, rfl, hreports⟩
  notFound ip _ h := ⟨_, congrArg (walkResult metadata.ipVersion ip) h⟩

/-- A tree of one node, with a record for the addresses that begin with a one. -/
def halfTree (m : MMValue) : SearchTree where
  Node := Unit
  child _ b := .leaf (if b then some m else none)
  root := .node ()

/-- An IPv4 source over this tree. -/
def halfSource (m : MMValue) : ReaderSource :=
  .Memory ((halfTree m).reader ⟨2, 0, 0, "Half", [], 4, [], 1, 24⟩
    [⟨.ok (.V4 0x80000000 1), some m, fun _ => .ok none⟩])

/-- Two addresses in the block of prefix length 1. -/
theorem getWithPrefixLen_blocks_halfTree :
    let src := halfSource (.scalar (.bool true))
    let cfg := createConfig smallPlatform src
    let s := createReader src fun _ => none
    (getWithPrefixLen cfg 0 (.str (.ofString "192.0.2.1"))).value s = .ok (.bool true, 1) ∧
      (getWithPrefixLen cfg 0 (.str (.ofString "128.0.0.1"))).value s = .ok (.bool true, 1) := by
  intro src cfg s
  have hs : s.Open smallPlatform src := createReader_open _ _ _
  have h : (getWithPrefixLen cfg 0 (.str (.ofString "192.0.2.1"))).value s
    = .ok (.bool true, 1) := rfl
  refine ⟨h, ?_⟩
  refine (((getWithPrefixLen_blocks (SearchTree.backs_reader _ _ _)).1 _ (.V4 0xC0000201) rfl 0 s
    _ _ hs h).2.2 _ (.V4 0x80000001) rfl).1 ?_ 0 s hs
  exact ⟨trivial, by decide⟩

end Blocks

end MaxminddbRust
