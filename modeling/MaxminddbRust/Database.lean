import MaxminddbRust.Iteration
import MaxminddbRust.Linearizability
import MaxminddbRust.PathGrammar

/-!
A reader of a database serves its table.

* `Table`: what a database is for. Every address has a record and a length of the prefix that
  has it, and there is a list of networks, disjoint, that agrees with both.
* `Database`: a valid database as the documentation of the crates has it: a search tree with
  well-formed records, which the lookups of the source walk, the selective ones navigate and the
  enumeration lists. `Database.table`: its table, which exists only because the laws hold.
* `tableReader`: a reader of a table that answers at once. `Database.step_eq`: it answers what
  the sequential reader of the source does.
* `database_linearizable`: in every run, callers of a reader see a table being read.
-/

namespace MaxminddbRust

open Concurrent

/-! ### Tables -/

/-- The records of the addresses of a database, and its networks. -/
structure Table (ipVersion : UInt16) where
  record : IpAddr → PyObj
  prefixLen : IpAddr → ℕ
  items : List (PyIpNetwork × PyObj)
  prefixLen_le : ∀ a, a.Accepted ipVersion → prefixLen a ≤ a.width
  block : ∀ a, a.Accepted ipVersion → ∀ b ∈ a.block (prefixLen a),
    record b = record a ∧ prefixLen b = prefixLen a
  v4Compatible : ipVersion ≠ 4 → ∀ v, record (.V4 v) = record (.v4Compatible v) ∧
    prefixLen (.V4 v) = prefixLen (.v4Compatible v) - 96
  items_record : ∀ item ∈ items, ∀ a ∈ item.1.addresses,
    a.Accepted ipVersion ∧ record a = item.2 ∧ prefixLen a = item.1.prefixlen
  items_disjoint : items.Pairwise fun i j => Disjoint
    (searchBits ipVersion '' i.1.addresses) (searchBits ipVersion '' j.1.addresses)

/-- A reader of a table: whether it is open, and how far each of its iterators has come. -/
structure TableReader where
  isOpen : Bool
  position : ℕ → ℕ

/-- The step that an object in a path stands for. -/
def PyObj.toStep : PyObj → Option Step
  | .str s => some (.key s)
  | .int n => some (.index n)
  | _ => Option.none

/-- The steps that iterating a path yields. -/
def PathArg.steps (path : PathArg) : Option (List Step) :=
  path.tryIter.bind fun iter => iter.items.mapM PyObj.toStep

/-- What Python finds along a path in a record, or `None`. -/
def navigate (record : PyObj) (path : PathArg) : PyObj :=
  (path.steps.bind (pyNavigation.follow record)).getD .none

/-- Every step of the path taken in the record is a string at a dict or an integer at a list. -/
def PathArg.Along (path : PathArg) (record : PyObj) : Prop :=
  record ≠ .none → ∀ steps, path.steps = some steps → pyNavigation.Along record steps

namespace TableReader

/-- What the reader answers. -/
def answer (cfg : Config) (metadata : MaxMindMetadata) (t : Table cfg.ipVersion)
    (r : TableReader) : Call cfg.toPlatform → PyResult Value
  | .closed => .ok (.bool !r.isOpen)
  | .get _ ipAddress => (parseLookupIp cfg ipAddress >>= fun ip =>
      whileOpen r.isOpen errClosed (.ok (t.record ip))).map .object
  | .getPath _ ipAddress path => (parseLookupIp cfg ipAddress >>= fun ip =>
      parsePath cfg.wordBits path >>= fun _ =>
        whileOpen r.isOpen errClosed (.ok (navigate (t.record ip) path))).map .object
  | .getWithPrefixLen _ ipAddress => (parseLookupIp cfg ipAddress >>= fun ip =>
      whileOpen r.isOpen errClosed (.ok (t.record ip, t.prefixLen ip))).map fun a =>
        .objectWithPrefix a.1 a.2
  | .getMany _ ips =>
      (whileOpen r.isOpen errClosed (batchResult cfg (fun ip => .ok (t.record ip)) ips)).map
        .objects
  | .getManyPath _ ips path => (whileOpen r.isOpen errClosed <|
      if ips.isBytesLikeOrString then .error errIps
      else parsePath cfg.wordBits path >>= fun _ =>
        batchResult cfg (fun ip => .ok (navigate (t.record ip) path)) ips).map .objects
  | .metadata =>
      (whileOpen r.isOpen errMetadataClosed (.ok (.fromMaxmind metadata))).map .metadata
  | .close | .exit => .ok .none
  | .enter => whileOpen r.isOpen errReopen (.ok .self)
  | .iter => whileOpen r.isOpen errClosed (.ok (.iterator 0))
  | .next _ k => .ok (.item t.items[r.position k]?)

/-- What a call makes of the reader. -/
def after {platform : Platform} (r : TableReader) : Call platform → TableReader
  | .close | .exit => { r with isOpen := false }
  | .next _ k => { r with position := Function.update r.position k (r.position k + 1) }
  | _ => r

end TableReader

/-- **The reader of a table.** -/
def tableReader (cfg : Config) (metadata : MaxMindMetadata) (t : Table cfg.ipVersion) :
    AtomicObject (Call cfg.toPlatform) TableReader (PyResult Value) where
  init := ⟨true, fun _ => 0⟩
  step c r := (r.answer cfg metadata t c, r.after c)

/-- The items of a batch. -/
def BatchArg.items {platform : Platform} : BatchArg platform → List PyObj
  | list xs | tuple xs => xs.items
  | iterable _ iter => iter.items
  | bytesLike | notIterable => []

/-- The calls that navigate records as they are built, if they navigate. -/
def Table.Meets (cfg : Config) (t : Table cfg.ipVersion) : Call cfg.toPlatform → Prop
  | .getPath _ x path => path.Plain ∧
      ∀ ip, parseLookupIp cfg x = .ok ip → path.Along (t.record ip)
  | .getManyPath _ ips path => path.Plain ∧
      ∀ x ∈ ips.items, ∀ ip, parseLookupIp cfg x = .ok ip → path.Along (t.record ip)
  | _ => True

/-! ### Databases -/

/-- A valid database: a search tree with well-formed records, whose walks end, and which the
source looks up, navigates and enumerates as documented. -/
structure Database (platform : Platform) (src : ReaderSource) where
  tree : SearchTree
  leaves : List (List Bool × MMValue)
  entries : List LookupResult
  networks : platform.ipnetwork.Lawful
  backs : tree.Backs src
  paths : src.DecodesPaths
  enumerated : tree.Enumerated src leaves entries
  walks : ∀ a, a.Accepted src.metadata.ipVersion →
    (tree.walk (searchBits src.metadata.ipVersion a)).isSome
  wellFormed : ∀ path v, PrefixTree.Leaf tree.child tree.root path (some v) →
    v.WellFormed platform.wordBits

namespace Database

variable {platform : Platform} {src : ReaderSource} (db : Database platform src)

/-- The record at the end of the walk of an address. -/
def leafRecord (a : IpAddr) : Option MMValue :=
  (db.tree.walk (searchBits src.metadata.ipVersion a)).bind Prod.fst

/-- The record of an address as Python has it. -/
def record (a : IpAddr) : PyObj := ((db.leafRecord a).map MMValue.meaning).getD .none

/-- The length of the walk of an address. -/
def prefixLen (a : IpAddr) : ℕ :=
  depth src.metadata.ipVersion a
    (((db.tree.walk (searchBits src.metadata.ipVersion a)).map Prod.snd).getD 0)

/-- The networks of the database with their records. -/
def items : List (PyIpNetwork × PyObj) :=
  db.entries.filterMap fun entry =>
    (ReaderIterator.itemOutcome platform.ipnetwork (.ok entry)).toOption

/-! ### Its lookups -/

section Lookups

variable {db} {a b : IpAddr}

lemma wellFormed_of_leafRecord {m : MMValue} (h : db.leafRecord a = some m) :
    m.WellFormed platform.wordBits := by
  obtain ⟨⟨record, k⟩, hwalk, rfl⟩ := Option.bind_eq_some_iff.mp h
  exact db.wellFormed _ _ (PrefixTree.walk_eq_some_iff.mp hwalk).2

/-- Where the walk of an address ends. -/
lemma exists_walk (ha : a.Accepted src.metadata.ipVersion) :
    ∃ k, db.tree.walk (searchBits src.metadata.ipVersion a) = some (db.leafRecord a, k) ∧
      db.prefixLen a = depth src.metadata.ipVersion a k := by
  obtain ⟨⟨record, k⟩, hwalk⟩ := Option.isSome_iff_exists.mp (db.walks a ha)
  exact ⟨k, by rw [leafRecord, hwalk]; rfl, by rw [prefixLen, hwalk]; rfl⟩

/-- The record of an address is what its leaf means. -/
lemma recordValue_leafRecord : recordValue (db.leafRecord a) = .ok (db.record a) :=
  lookupResultToPython_denoteRecord fun _ => wellFormed_of_leafRecord

/-- A lookup finds the record of the address. -/
lemma lookupValue_eq (ha : a.Accepted src.metadata.ipVersion) :
    lookupValue src a = .ok (db.record a) := by
  obtain ⟨k, hwalk, -⟩ := db.exists_walk ha
  rw [(db.backs.lookup_of_walk ha hwalk).1, recordValue_leafRecord]

/-- A lookup with prefix length finds both. -/
lemma lookupPrefixValue_eq (ha : a.Accepted src.metadata.ipVersion) :
    lookupPrefixValue src a = .ok (db.record a, db.prefixLen a) := by
  obtain ⟨k, hwalk, hlen⟩ := db.exists_walk ha
  rw [(db.backs.lookup_of_walk ha hwalk).2, recordValue_leafRecord, hlen]
  rfl

/-- Objects that are steps of a path, and their steps. -/
lemma mapM_toStep {w : ℕ} {items : List PyObj} (h : ∀ item ∈ items, item.IsPathElement w) :
    ∃ steps : List Step, items.mapM PyObj.toStep = some steps ∧
      items = steps.map Step.toPyObj ∧ ∀ step ∈ steps, step.Accepted w := by
  induction items with
  | nil => exact ⟨[], rfl, rfl, by simp⟩
  | cons item items ih =>
      obtain ⟨step, hstep, rfl⟩ := PyObj.isPathElement_iff.mp (h item List.mem_cons_self)
      obtain ⟨steps, hmap, rfl, hsteps⟩ := ih fun x hx => h x (List.mem_cons_of_mem _ hx)
      have htoStep : step.toPyObj.toStep = some step := by cases step <;> rfl
      refine ⟨step :: steps, ?_, rfl, List.forall_mem_cons.mpr ⟨hstep, hsteps⟩⟩
      rw [List.mapM_cons, htoStep, hmap]
      rfl

/-- **What the parser accepts** are the steps that iterating the path yields, each encoded. -/
lemma steps_of_parsePath {w : ℕ} {path : PathArg} {ownedPath : OwnedPath}
    (h : parsePath w path = .ok ownedPath) :
    ∃ steps, path.steps = some steps ∧ (∀ step ∈ steps, step.Accepted w) ∧
      ownedPath = steps.map (stepElement w) := by
  have hiter : ∃ iter, path.tryIter = some iter ∧
      parseItems w iter.raises iter.items [] = .ok ownedPath := by
    cases path with
    | str s => cases h
    | list items => exact ⟨_, rfl, h⟩
    | iterable iter => exact ⟨_, rfl, h⟩
    | notIterable => cases h
    | tuple t override =>
        cases hiter : (PathArg.tuple t override).tryIter with
        | none => simp [parsePath, hiter] at h
        | some iter => exact ⟨iter, rfl, by simpa only [parsePath, hiter] using h⟩
  obtain ⟨⟨items, raises⟩, hiter, hparse⟩ := hiter
  have hall : ∀ item ∈ items, item.IsPathElement w := by
    by_contra hnot
    rw [parseItems_of_exists (by simpa using hnot) raises []] at hparse
    cases hparse
  obtain ⟨steps, hmap, rfl, hsteps⟩ := mapM_toStep hall
  refine ⟨steps, by rw [PathArg.steps, hiter]; exact hmap, hsteps, ?_⟩
  cases raises with
  | none => exact (Except.ok.inj ((parseItems_steps hsteps).symm.trans hparse)).symm
  | some e =>
      obtain ⟨_, -, hraises⟩ := parseItems_of_forall hall
      rw [(hraises []).2 e] at hparse
      cases hparse

/-- **A selective lookup navigates the record of the address.** -/
lemma lookupPathValue_eq (ha : a.Accepted src.metadata.ipVersion) {path : PathArg}
    {ownedPath : OwnedPath} (hparse : parsePath platform.wordBits path = .ok ownedPath)
    (halong : path.Along (db.record a)) :
    lookupPathValue src ownedPath a = .ok (navigate (db.record a) path) := by
  obtain ⟨k, hwalk, -⟩ := db.exists_walk ha
  obtain ⟨result, network, hlookup, hrecord, -⟩ := db.backs.found a _ k ha hwalk
  obtain ⟨steps, hsteps, haccepted, rfl⟩ := steps_of_parsePath hparse
  have hvalue : lookupPathValue src (steps.map (stepElement platform.wordBits)) a
      = lookupResultToPython
          (result.select (steps.map (stepPathElement platform.wordBits)) >>= denoteRecord) := by
    rw [lookupPathValue, pathElementsFromOwnedPath_map, ReaderSource.lookupPathOutcome, hlookup]
    rfl
  rw [hvalue, navigate, hsteps, Option.bind_some, record]
  cases hleaf : db.leafRecord a with
  | none =>
      rw [db.paths.noRecord a result _ hlookup (hrecord.trans hleaf)]
      cases steps <;> rfl
  | some m =>
      have hwf := wellFormed_of_leafRecord hleaf
      have hmeaning : db.record a = m.meaning := by rw [record, hleaf]; rfl
      have halong' : pyNavigation.Along m.meaning steps :=
        hmeaning ▸ halong (hmeaning ▸ hwf.meaning_ne_none) steps hsteps
      obtain ⟨hcrate, hfollow, hkeeps⟩ :=
        (navigation_simulation platform.wordBits).follow_eq hwf haccepted halong'
      rw [db.paths.record a result m _ hlookup (hrecord.trans hleaf) hcrate, Option.map_some,
        Option.getD_some, hfollow]
      exact lookupResultToPython_denoteRecord hkeeps

end Lookups

/-! ### Its networks -/

section Items

/-- The results of the entries, where every entry has one. -/
lemma filterMap_toOption {α β ε : Type} {f : α → Except ε β} {xs : List α} {ys : List β}
    (h : List.Forall₂ (fun x y => f x = .ok y) xs ys) :
    xs.filterMap (fun x => (f x).toOption) = ys := by
  induction h with
  | nil => rfl
  | cons hhead _ ih =>
      rw [List.filterMap_cons, hhead]
      exact congrArg _ ih

lemma decodes : db.tree.Decodes :=
  fun path v h => ⟨_, (db.wellFormed path v h).denote_eq⟩

lemma yields : ∀ leaf ∈ db.leaves, db.tree.Yields src.metadata.ipVersion leaf.1 leaf.2 :=
  fun leaf hleaf => (db.enumerated.mem_iff leaf.1 leaf.2).mp hleaf

/-- **The items are those of the leaves**, each made of its entry. -/
lemma forall₂_items :
    List.Forall₂ (fun entry item =>
        ReaderIterator.itemOutcome platform.ipnetwork (.ok entry) = .ok item)
      db.entries db.items ∧
      List.Forall₂ (IsItem src.metadata.ipVersion) db.leaves db.items := by
  obtain ⟨items, houtcomes, hitems⟩ :=
    exists_items db.networks db.decodes db.enumerated.entry db.yields
  obtain rfl : db.items = items := filterMap_toOption houtcomes
  exact ⟨houtcomes, hitems⟩

/-- Every item is that of a leaf. -/
lemma exists_leaf {i : ℕ} (hi : i < db.items.length) :
    ∃ hi' : i < db.leaves.length, IsItem src.metadata.ipVersion db.leaves[i] db.items[i] ∧
      db.tree.Yields src.metadata.ipVersion db.leaves[i].1 db.leaves[i].2 := by
  have hi' : i < db.leaves.length := db.forall₂_items.2.length_eq ▸ hi
  exact ⟨hi', db.forall₂_items.2.get hi' hi, db.yields _ (List.getElem_mem hi')⟩

/-- An item has the record and the prefix length of its addresses. -/
lemma record_of_mem_items {item : PyIpNetwork × PyObj} (hitem : item ∈ db.items) {a : IpAddr}
    (ha : a ∈ item.1.addresses) :
    a.Accepted src.metadata.ipVersion ∧ db.record a = item.2 ∧
      db.prefixLen a = item.1.prefixlen := by
  obtain ⟨i, hi, rfl⟩ := List.mem_iff_getElem.mp hitem
  obtain ⟨hi', his, hyields⟩ := db.exists_leaf hi
  have haccepted : a.Accepted src.metadata.ipVersion :=
    his.family.accepted.of_sameFamily ha.1
  have hlookup := (db.lookupPrefixValue_eq haccepted).symm.trans
    (his.lookup db.backs hyields.1 ha)
  exact ⟨haccepted, Prod.mk.inj (Except.ok.inj hlookup)⟩

/-- The items of different leaves share no address. -/
lemma pairwise_disjoint_items : db.items.Pairwise fun i j => Disjoint
    (searchBits src.metadata.ipVersion '' i.1.addresses)
    (searchBits src.metadata.ipVersion '' j.1.addresses) := by
  refine List.pairwise_iff_getElem.mpr fun i j hi hj hij => ?_
  obtain ⟨hi', hitem, hyields⟩ := db.exists_leaf hi
  obtain ⟨hj', hitem', hyields'⟩ := db.exists_leaf hj
  refine Set.disjoint_left.mpr fun bits hbits hbits' => ?_
  have heq := hitem.eq_of_mem hitem' hyields.1 hyields'.1 hbits hbits'
  exact Nat.ne_of_lt hij (db.enumerated.nodup.getElem_inj_iff.mp heq)

end Items

/-- **The table of a database.** -/
def table : Table src.metadata.ipVersion where
  record := db.record
  prefixLen := db.prefixLen
  items := db.items
  prefixLen_le a ha := by
    obtain ⟨k, hwalk, hlen⟩ := db.exists_walk ha
    rw [hlen]
    exact depth_le_width (PrefixTree.walk_eq_some_iff.mp hwalk).1
  block a ha b hb := by
    have hlookup := db.backs.lookupPrefixValue_of_mem_block ha (db.lookupPrefixValue_eq ha) hb
    rw [db.lookupPrefixValue_eq (ha.of_sameFamily hb.1)] at hlookup
    exact Prod.mk.inj (Except.ok.inj hlookup)
  v4Compatible hv v := by
    rw [record, record, leafRecord, leafRecord, prefixLen, prefixLen, searchBits_v4Compatible hv]
    exact ⟨rfl, if_neg hv⟩
  items_record _ hitem _ ha := db.record_of_mem_items hitem ha
  items_disjoint := db.pairwise_disjoint_items

/-! ### Its reader -/

section Readers

/-- The sequential reader that a reader of the table stands for. -/
def sequential (r : TableReader) : SequentialReader :=
  ⟨r.isOpen, fun k => ⟨(db.entries.map .ok).drop (r.position k)⟩⟩

lemma sequential_init :
    db.sequential (tableReader (createConfig platform src) src.metadata db.table).init
      = (readerObject (createConfig platform src) src).init := by
  have hnew : newIterator (createConfig platform src) src = ⟨db.entries.map .ok⟩ := by
    rw [newIterator, show (createConfig platform src).ipnetwork = platform.ipnetwork from rfl,
      db.enumerated.new_eq db.networks]
  simp only [sequential, readerObject, tableReader, hnew, List.drop_zero]

/-- Batches over the same values are the same. -/
lemma batchResult_congr {cfg : Config} {value value' : IpAddr → PyResult PyObj}
    {ips : BatchArg cfg.toPlatform}
    (h : ∀ x ∈ ips.items, ∀ ip, parseLookupIp cfg x = .ok ip → value ip = value' ip) :
    batchResult cfg value ips = batchResult cfg value' ips := by
  have hitems : ∀ {xs : List PyObj},
      (∀ x ∈ xs, ∀ ip, parseLookupIp cfg x = .ok ip → value ip = value' ip) →
      itemsResult cfg value xs = itemsResult cfg value' xs := by
    intro xs hxs
    induction xs with
    | nil => rfl
    | cons x xs ih =>
        rw [itemsResult_cons, itemsResult_cons, ih fun y hy => hxs y (List.mem_cons_of_mem _ hy)]
        cases hip : parseLookupIp cfg x with
        | error e => rfl
        | ok ip => simp only [hxs x List.mem_cons_self ip hip]
  cases ips with
  | list xs | tuple xs => exact hitems h
  | iterable len iter =>
      have heq : itemsResult cfg value iter.items = itemsResult cfg value' iter.items := hitems h
      rw [batchResult, batchResult, heq]
  | bytesLike | notIterable => rfl

variable {db} {c : Call platform}

/-- Parsing an address, then looking it up if it is one. -/
lemma parse_bind_congr {α : Type} {x : PyObj} {f g : IpAddr → PyResult α}
    (h : ∀ ip, parseLookupIp (createConfig platform src) x = .ok ip →
      ip.Accepted src.metadata.ipVersion → f ip = g ip) :
    (parseLookupIp (createConfig platform src) x >>= f)
      = parseLookupIp (createConfig platform src) x >>= g := by
  cases hip : parseLookupIp (createConfig platform src) x with
  | error e => rfl
  | ok ip => exact h ip hip (accepted_of_parseLookupIp hip)

/-- Parsing a path, then following it. -/
lemma parsePath_bind_congr {α : Type} {w : ℕ} {path : PathArg} {f g : OwnedPath → PyResult α}
    (h : ∀ ownedPath, parsePath w path = .ok ownedPath → f ownedPath = g ownedPath) :
    (parsePath w path >>= f) = parsePath w path >>= g := by
  cases hparse : parsePath w path with
  | error e => rfl
  | ok ownedPath => exact h ownedPath hparse

/-- **A reader of the table answers what the sequential reader answers.** -/
lemma answer_sequential (r : TableReader)
    (hc : Table.Meets (createConfig platform src) db.table c) :
    (db.sequential r).answer (createConfig platform src) src c
      = r.answer (createConfig platform src) src.metadata db.table c := by
  have hget : ∀ ip, ip.Accepted src.metadata.ipVersion →
      lookupValue src ip = .ok (db.table.record ip) := fun _ => db.lookupValue_eq
  cases c with
  | closed | metadata | close | enter | exit => rfl
  | get thread x =>
      refine congrArg (Except.map Value.object) (parse_bind_congr fun ip _ ha => ?_)
      rw [hget ip ha]
      rfl
  | getPath thread x path =>
      refine congrArg (Except.map Value.object) (parse_bind_congr fun ip hip ha =>
        parsePath_bind_congr fun p hp => ?_)
      rw [db.lookupPathValue_eq ha hp (hc.2 ip hip)]
      rfl
  | getWithPrefixLen thread x =>
      refine congrArg (Except.map fun a : PyObj × ℕ => Value.objectWithPrefix a.1 a.2)
        (parse_bind_congr fun ip _ ha => ?_)
      rw [db.lookupPrefixValue_eq ha]
      rfl
  | getMany thread ips =>
      refine congrArg (fun b => (whileOpen r.isOpen errClosed b).map Value.objects) ?_
      exact batchResult_congr fun x _ ip hip => hget ip (accepted_of_parseLookupIp hip)
  | getManyPath thread ips path =>
      refine congrArg (fun b => (whileOpen r.isOpen errClosed b).map Value.objects) ?_
      refine congrArg _ (parsePath_bind_congr fun p hp => batchResult_congr fun x hx ip hip => ?_)
      exact db.lookupPathValue_eq (accepted_of_parseLookupIp hip) hp (hc.2 x hx ip hip)
  | iter =>
      simp only [SequentialReader.answer, TableReader.answer]
      rw [show (createConfig platform src).ipnetwork = platform.ipnetwork from rfl,
        db.enumerated.new_eq db.networks]
      rfl
  | next thread k =>
      exact congrArg (Except.map Value.item) (nextOutcome_drop db.forall₂_items.1 (r.position k))

/-- The sequential reader moves on as the reader of the table does. -/
lemma after_sequential (r : TableReader) :
    (db.sequential r).after c = db.sequential (r.after c) := by
  cases c with
  | next thread k =>
      simp only [SequentialReader.after, TableReader.after, sequential,
        SequentialReader.mk.injEq, true_and]
      funext j
      by_cases hjk : j = k
      · subst hjk
        rw [Function.update_self, Function.update_self, List.tail_drop]
      · rw [Function.update_of_ne hjk, Function.update_of_ne hjk]
  | _ => rfl

/-- One call at a reader of the table and at the sequential reader that it stands for. -/
lemma step_sequential (r : TableReader)
    (hc : Table.Meets (createConfig platform src) db.table c) :
    (readerObject (createConfig platform src) src).step c (db.sequential r)
      = (((tableReader (createConfig platform src) src.metadata db.table).step c r).1,
        db.sequential
          ((tableReader (createConfig platform src) src.metadata db.table).step c r).2) :=
  Prod.ext (db.answer_sequential r hc) (db.after_sequential r)

/-- **What the sequential reader answers, the reader of the table answers.** -/
lemma linearizable {ι : Type} [DecidableEq ι]
    {H : List (CallEvent ι (Call (createConfig platform src).toPlatform) (PyResult Value))}
    (h : Linearizable (readerObject (createConfig platform src) src) H)
    (hmeets : ∀ i c, .call i c ∈ H → Table.Meets (createConfig platform src) db.table c) :
    Linearizable (tableReader (createConfig platform src) src.metadata db.table) H := by
  obtain ⟨ops, s, st, hacc⟩ := h
  obtain ⟨r, -, hlin⟩ :=
    hacc.pullback db.sequential_init (fun c r => db.step_sequential r) hmeets
  exact ⟨ops, r, st, hlin⟩

end Readers

end Database

/-- The paths of such calls are plain. -/
lemma Table.Meets.plainPath {cfg : Config} {t : Table cfg.ipVersion} {c : Call cfg.toPlatform}
    (h : Table.Meets cfg t c) : c.PlainPath := by
  intro path hpath
  cases c with
  | getPath thread x path' =>
      cases hpath
      exact h.1
  | getManyPath thread ips path' =>
      cases hpath
      exact h.1
  | _ => cases hpath

/-- A reader that follows the paths in its records. -/
def MaxMindReader.following (reader : MaxMindReader) : MaxMindReader :=
  { reader with lookup := fun ip => (reader.lookup ip).map fun result => { result with
      select := fun path => .ok (result.record.bind fun m => crateNavigation.follow m path) } }

/-- What it finds at a path is what there is along the path in the record. -/
lemma MaxMindReader.select_of_following {reader : MaxMindReader} {ip : IpAddr}
    {result : LookupResult} (h : reader.following.lookup ip = .ok result)
    (path : List PathElement) :
    result.select path = .ok (result.record.bind fun m => crateNavigation.follow m path) := by
  simp only [following] at h
  cases hlookup : reader.lookup ip with
  | error e =>
      rw [hlookup] at h
      cases h
  | ok result' =>
      rw [hlookup] at h
      cases h
      rfl

lemma MaxMindReader.following_decodesPaths (reader : MaxMindReader) :
    (ReaderSource.Memory reader.following).DecodesPaths where
  noRecord ip result path hlookup hnone := by
    rw [select_of_following hlookup, hnone]
    rfl
  record ip result m path hlookup hm _ := by
    rw [select_of_following hlookup, hm]
    rfl

lemma SearchTree.backs_following {T : SearchTree} {reader : MaxMindReader}
    (h : T.Backs (.Memory reader)) : T.Backs (.Memory reader.following) where
  found ip record k hip hwalk := by
    obtain ⟨result, network, hlookup, hresult⟩ := h.found ip record k hip hwalk
    exact ⟨_, network, congrArg (Except.map _) hlookup, hresult⟩
  notFound ip hip hwalk := by
    obtain ⟨e, hlookup⟩ := h.notFound ip hip hwalk
    exact ⟨e, congrArg (Except.map _) hlookup⟩

/-- The tree of one node as a database. -/
def halfDatabase {m : MMValue} (hm : m.WellFormed 64) :
    Database { smallPlatform with ipnetwork := plainNetworks }
      (.Memory (halfSource m).reader.following) where
  tree := halfTree m
  leaves := [([true], m)]
  entries := [⟨.ok (.V4 0x80000000 1), some m, fun _ => .ok none⟩]
  networks := plainNetworks_lawful
  backs := SearchTree.backs_following (SearchTree.backs_reader _ _ _)
  paths := MaxMindReader.following_decodesPaths _
  enumerated := { halfTree_enumerated m with }
  walks a ha := by
    have hlen : (searchBits 4 a).length = treeWidth 4 := length_searchBits ha
    cases hbits : searchBits 4 a with
    | nil => simp [hbits, treeWidth] at hlen
    | cons b bits =>
        show ((halfTree m).walk (searchBits 4 a)).isSome
        rw [hbits]
        simp [SearchTree.walk, PrefixTree.walk, halfTree]
  wellFormed path v h := by
    obtain ⟨b, -, hv⟩ := halfTree_leaf h
    cases b with
    | false => cases hv
    | true =>
        cases hv
        exact hm

/-- Python finds a step at each level of the record. -/
lemma listRecord_along {ip : IpAddr} {path : PathArg}
    (hpath : path.steps = some [.key (.ofString "a"), .index (-1)])
    (hip : (halfDatabase listRecord_wellFormed).table.record ip
      = .dict [(.ofString "a", .list [.int 1, .int 2])]) :
    path.Along ((halfDatabase listRecord_wellFormed).table.record ip) := by
  intro _ steps hsteps
  obtain rfl : [.key (.ofString "a"), .index (-1)] = steps :=
    Option.some.inj (hpath.symm.trans hsteps)
  rw [hip]
  refine ⟨trivial, fun b hb => ?_⟩
  obtain rfl : PyObj.list [.int 1, .int 2] = b := Option.some.inj hb
  exact ⟨trivial, fun _ _ => trivial⟩

end MaxminddbRust
