import MaxminddbRust.Reader

/-!
The getters `node_byte_size` and `search_tree_size` of `metadata.rs`.

* `mulU32`: Rust's product of two `u32`, in a build with overflow checks, where it panics, and in
  one without them, such as the release build of this crate, where it wraps.
* `MaxMindMetadata.OpensWith`: what opening checks of the metadata of a database.
* `searchTreeSize_exact_iff`: the reported size is exact iff the search tree is smaller than
  4 GiB, as it is in every smaller source; `searchTreeSize_of_large`: otherwise the getter panics
  or reports less.
-/

namespace MaxminddbRust

/-! ### Products of machine integers -/

/-- The product of two `u32`. -/
def mulU32 (overflowChecks : Bool) (a b : UInt32) : Except Panic UInt32 :=
  if a.toNat * b.toNat < 2 ^ 32 then .ok (a * b)
  else if overflowChecks then .error .overflow
  else .ok (a * b)

lemma mulU32_of_lt {a b : UInt32} (h : a.toNat * b.toNat < 2 ^ 32) (overflowChecks : Bool) :
    mulU32 overflowChecks a b = .ok (a * b) ∧ (a * b).toNat = a.toNat * b.toNat := by
  constructor
  · rw [mulU32, if_pos h]
  · rw [UInt32.toNat_mul, Nat.mod_eq_of_lt h]

/-- A product that does not fit panics or wraps. -/
lemma mulU32_of_le {a b : UInt32} (h : 2 ^ 32 ≤ a.toNat * b.toNat) :
    mulU32 true a b = .error .overflow ∧
      mulU32 false a b = .ok (a * b) ∧ (a * b).toNat < a.toNat * b.toNat := by
  have hlt : (a * b).toNat < 2 ^ 32 := (a * b).toNat_lt
  have hnot : ¬a.toNat * b.toNat < 2 ^ 32 := Nat.not_lt.mpr h
  refine ⟨?_, ?_, by omega⟩
  · rw [mulU32, if_neg hnot, if_pos rfl]
  · rw [mulU32, if_neg hnot, if_neg Bool.false_ne_true]

/-- The product is exact iff it fits. -/
lemma mulU32_exact_iff {a b : UInt32} {overflowChecks : Bool} :
    (∃ p, mulU32 overflowChecks a b = .ok p ∧ p.toNat = a.toNat * b.toNat) ↔
      a.toNat * b.toNat < 2 ^ 32 := by
  constructor
  · rintro ⟨p, -, hp⟩
    rw [← hp]
    exact p.toNat_lt
  · intro h
    obtain ⟨hok, hexact⟩ := mulU32_of_lt h overflowChecks
    exact ⟨a * b, hok, hexact⟩

/-! ### The getters -/

namespace Metadata

/-- `node_byte_size`. -/
def nodeByteSize (m : Metadata) : UInt16 := m.recordSize / 4

/-- `search_tree_size`. -/
def searchTreeSize (overflowChecks : Bool) (m : Metadata) : Except Panic UInt32 :=
  mulU32 overflowChecks m.nodeCount (m.recordSize.toUInt32 / 4)

/-- `search_tree_size` reports the product of the number of nodes and their size, and neither
wraps nor panics. -/
def ReportsTreeSize (overflowChecks : Bool) (m : Metadata) : Prop :=
  ∃ size, m.searchTreeSize overflowChecks = .ok size ∧
    size.toNat = m.nodeCount.toNat * m.nodeByteSize.toNat

/-- The factor of the product is the size of a node. -/
lemma toNat_recordSize_div (m : Metadata) :
    (m.recordSize.toUInt32 / 4).toNat = m.nodeByteSize.toNat := by
  rw [nodeByteSize, UInt32.toNat_div, UInt16.toNat_div, UInt16.toNat_toUInt32]
  rfl

lemma reportsTreeSize_iff {overflowChecks : Bool} {m : Metadata} :
    m.ReportsTreeSize overflowChecks ↔ m.nodeCount.toNat * m.nodeByteSize.toNat < 2 ^ 32 := by
  rw [ReportsTreeSize, searchTreeSize, ← toNat_recordSize_div]
  exact mulU32_exact_iff

end Metadata

/-! ### Databases that open -/

/-- What opening checks of the metadata, for a source of that many bytes: the record size, and
that the search tree fits in the source. -/
structure MaxMindMetadata.OpensWith (m : MaxMindMetadata) (sourceLen : ℕ) : Prop where
  recordSize : m.recordSize = 24 ∨ m.recordSize = 28 ∨ m.recordSize = 32
  fits : m.nodeCount.toNat * (m.recordSize.toNat / 4) ≤ sourceLen

/-- **The size of the search tree** is reported as it is exactly if the tree is smaller than
4 GiB, with overflow checks and without. -/
theorem searchTreeSize_exact_iff (overflowChecks : Bool) (m : MaxMindMetadata) :
    (Metadata.fromMaxmind m).ReportsTreeSize overflowChecks ↔
      m.nodeCount.toNat * (m.recordSize.toNat / 4) < 2 ^ 32 := by
  rw [Metadata.reportsTreeSize_iff, Metadata.nodeByteSize, UInt16.toNat_div]
  rfl

/-- A database of less than 4 GiB reports the size of its search tree. -/
theorem MaxMindMetadata.OpensWith.reportsTreeSize {m : MaxMindMetadata} {sourceLen : ℕ}
    (h : m.OpensWith sourceLen) (hlen : sourceLen < 2 ^ 32) (overflowChecks : Bool) :
    (Metadata.fromMaxmind m).ReportsTreeSize overflowChecks := by
  rw [Metadata.reportsTreeSize_iff, Metadata.nodeByteSize, UInt16.toNat_div]
  exact h.fits.trans_lt hlen

/-- Of a tree of 4 GiB or more, the getter panics with overflow checks and reports less than its
size without. -/
theorem searchTreeSize_of_large {m : MaxMindMetadata}
    (h : 2 ^ 32 ≤ m.nodeCount.toNat * (m.recordSize.toNat / 4)) :
    (Metadata.fromMaxmind m).searchTreeSize true = .error .overflow ∧
      ∃ size, (Metadata.fromMaxmind m).searchTreeSize false = .ok size ∧
        size.toNat < m.nodeCount.toNat * (m.recordSize.toNat / 4) := by
  have hfactor : (m.recordSize.toUInt32 / 4).toNat = m.recordSize.toNat / 4 :=
    (Metadata.fromMaxmind m).toNat_recordSize_div.trans (UInt16.toNat_div _ _)
  rw [← hfactor] at h ⊢
  obtain ⟨hpanic, hwrap, hlt⟩ := mulU32_of_le h
  exact ⟨hpanic, _, hwrap, hlt⟩

/-- A tree of `2 ^ 29` nodes of eight bytes opens in a source of 4 GiB; its reported size wraps
to zero, or panics in a build with overflow checks. -/
theorem searchTreeSize_wraps :
    let m : MaxMindMetadata := ⟨2, 0, 0, "Large", [], 6, [], .ofNat (2 ^ 29), 32⟩
    m.OpensWith (2 ^ 32) ∧
      (Metadata.fromMaxmind m).searchTreeSize false = .ok 0 ∧
      (Metadata.fromMaxmind m).searchTreeSize true = .error .overflow ∧
      ∀ overflowChecks, ¬(Metadata.fromMaxmind m).ReportsTreeSize overflowChecks := by
  refine ⟨⟨.inr (.inr rfl), by decide⟩, by decide, by decide, fun overflowChecks h => ?_⟩
  have hlt : (UInt32.ofNat (2 ^ 29)).toNat * (8 : UInt16).toNat < 2 ^ 32 :=
    Metadata.reportsTreeSize_iff.mp h
  exact absurd hlt (by decide)

end MaxminddbRust
