import MaxminddbRust.Concurrent.Sections
import MaxminddbRust.KeyCell

/-!
Decodes inside decodes.

A decode may be interrupted by Python code that looks up records itself, on the same thread and
with the same cache of key objects: where it allocates, since that may start a garbage collection,
and where it replaces the value of a repeated key. Some of this happens while `set_cached_map_item`
has borrowed the cell, and then the lookup panics if it gets to a key.

* `KeyCell.deserializeSteps`: the decoder step by step. A call of `set_cached_map_item` is two
  steps, the borrow and the rest. `deserializeSteps_exec`: alone it is the decoder on the cell.
* `cellSharing`: what decodes keep who share the cell. `deserializeSteps_gives`: each decode
  returns what its record denotes if none of its borrows is refused, and else panics.
* `nestedDecodes`: so it is in every run, where a borrow is refused exactly while another decode
  has the cell; and the cache has the same shape as after decodes one after the other.
-/

namespace MaxminddbRust

open Concurrent

/-- How a decode on the cell ends without an object. -/
inductive DecodeExit where
  | panic (e : BorrowMutError)
  | error (e : MaxMindDbError)

/-- What a step of a decode is seen to do. -/
inductive DecodeLabel where
  | newDict
  | newList
  | borrow (key : List UInt8) (granted : Bool)
  | setItem (key : List UInt8)

namespace DecodeLabel

/-- The key that a step passes to `set_cached_map_item`. -/
def key? : DecodeLabel → Option (List UInt8)
  | setItem key => some key
  | _ => none

/-- What a step has to do with the cell. -/
def use : DecodeLabel → Use
  | borrow _ true => .granted
  | borrow _ false => .refused
  | setItem _ => .release
  | _ => .none

end DecodeLabel

namespace KeyCell

/-! ### The decoder step by step -/

/-- `set_cached_map_item` after `borrow_mut`. The Python code that runs in it runs before this step:
nobody else sees the dict, and nobody else can change the cache before the end. -/
def setItemRest (dict : PyDict) (key : List UInt8) (value : PyObj) :
    Prog DecodeLabel KeyCell (Except DecodeExit PyDict) :=
  .atom (fun _ => .setItem key) (fun cell => (cell.setItemBorrowed dict key value).2.2)
    fun cell => .ret <| match cell.setItemBorrowed dict key value with
      | (.error e, _, _) => .error (.error (pyerrToDeError e))
      | (.ok (), dict, _) => .ok dict

/-- `set_cached_map_item`: the borrow, and the rest. -/
def setItemSteps (dict : PyDict) (key : List UInt8) (value : PyObj) :
    Prog DecodeLabel KeyCell (Except DecodeExit PyDict) :=
  .atom (fun cell => .borrow key !cell.borrowed)
    (fun cell => match cell.borrowMut with
      | .error _ => cell
      | .ok cell => cell)
    fun cell => match cell.borrowMut with
      | .error e => .ret (.error (.panic e))
      | .ok _ => setItemRest dict key value

mutual

/-- `PyValueSeed::deserialize`. -/
def deserializeSteps : MMValue → Prog DecodeLabel KeyCell (Except DecodeExit PyObj)
  | .scalar s => .ret ((visitScalar s).mapError .error)
  | .array xs => visitSeqSteps [] xs
  | .map kvs => .atom (fun _ => .newDict) id fun _ => visitMapSteps [] kvs

/-- The loop of `visit_seq`, and the list that it makes in the end. -/
def visitSeqSteps (elements : List PyObj) :
    List MMValue → Prog DecodeLabel KeyCell (Except DecodeExit PyObj)
  | [] => .atom (fun _ => .newList) id fun _ => .ret (.ok (.list elements))
  | x :: xs => (deserializeSteps x).andThen fun elem => visitSeqSteps (elements ++ [elem]) xs

/-- The loop of `visit_map`, which fills the dict. -/
def visitMapSteps (dict : PyDict) :
    List (List UInt8 × MMValue) → Prog DecodeLabel KeyCell (Except DecodeExit PyObj)
  | [] => .ret (.ok (.dict dict))
  | (key, v) :: kvs => (deserializeSteps v).andThen fun value =>
      (setItemSteps dict key value).andThen fun dict => visitMapSteps dict kvs

end

/-! ### Alone -/

/-- The steps, run alone, end as the decoder on the cell does, where that does not panic. -/
def EndsAs (p : Prog DecodeLabel KeyCell (Except DecodeExit PyObj)) (cell : KeyCell)
    (result : Except BorrowMutError (Except MaxMindDbError PyObj × KeyCell)) : Prop :=
  ∀ r cell', result = .ok (r, cell') → p.value cell = r.mapError .error ∧ p.final cell = cell'

lemma setItemSteps_exec (cell : KeyCell) (dict : PyDict) (key : List UInt8) (value : PyObj)
    {result : Except UnicodeDecodeError Unit} {dict' : PyDict} {cell' : KeyCell}
    (h : cell.setCachedMapItem dict key value = .ok (result, dict', cell')) :
    (setItemSteps dict key value).value cell
        = (result.map fun _ => dict').mapError (fun e => .error (pyerrToDeError e)) ∧
      (setItemSteps dict key value).final cell = cell' := by
  rw [setCachedMapItem] at h
  rw [setItemSteps, Prog.value_atom, Prog.final_atom]
  cases hb : cell.borrowMut with
  | error e =>
      rw [hb] at h
      cases h
  | ok cell₁ =>
      rw [hb] at h
      have hset := Except.ok.inj h
      simp only [setItemRest, Prog.value_atom, Prog.final_atom, hset]
      cases result <;> exact ⟨rfl, rfl⟩

/-- The loop of `visit_seq` over elements on which the steps end as the decoder. -/
lemma visitSeqSteps_exec : ∀ {xs : List MMValue},
    (∀ x ∈ xs, ∀ cell : KeyCell, EndsAs (deserializeSteps x) cell (cell.deserialize x)) →
    ∀ (cell : KeyCell) (elements : List PyObj),
      EndsAs (visitSeqSteps elements xs) cell (cell.visitSeq elements xs)
  | [], _, cell, elements => by
      intro r cell' h
      rw [visitSeq] at h
      cases h
      rw [visitSeqSteps]
      exact ⟨rfl, rfl⟩
  | x :: xs, hall, cell, elements => by
      intro r cell' h
      have hx := hall x List.mem_cons_self cell
      rw [visitSeq] at h
      rw [visitSeqSteps]
      cases hd : cell.deserialize x with
      | error e =>
          rw [hd] at h
          cases h
      | ok res =>
          obtain ⟨r₁, cell₁⟩ := res
          rw [hd] at h
          obtain ⟨hvalue, hfinal⟩ := hx r₁ cell₁ hd
          cases r₁ with
          | error e =>
              cases h
              obtain ⟨hvalue', hfinal'⟩ := Prog.ends_andThen_of_error hvalue
              exact ⟨hvalue', hfinal'.trans hfinal⟩
          | ok elem =>
              obtain ⟨hvalue', hfinal'⟩ := Prog.ends_andThen_of_ok hvalue
              rw [hvalue', hfinal', hfinal]
              exact visitSeqSteps_exec (fun y hy => hall y (List.mem_cons_of_mem _ hy)) cell₁ _ r
                cell' h

/-- The loop of `visit_map` over entries on whose values the steps end as the decoder. -/
lemma visitMapSteps_exec : ∀ {kvs : List (List UInt8 × MMValue)},
    (∀ e ∈ kvs, ∀ cell : KeyCell, EndsAs (deserializeSteps e.2) cell (cell.deserialize e.2)) →
    ∀ (cell : KeyCell) (dict : PyDict),
      EndsAs (visitMapSteps dict kvs) cell (cell.visitMap dict kvs)
  | [], _, cell, dict => by
      intro r cell' h
      rw [visitMap] at h
      cases h
      rw [visitMapSteps]
      exact ⟨rfl, rfl⟩
  | (key, v) :: kvs, hall, cell, dict => by
      intro r cell' h
      have hv := hall (key, v) List.mem_cons_self cell
      rw [visitMap] at h
      rw [visitMapSteps]
      cases hd : cell.deserialize v with
      | error e =>
          rw [hd] at h
          cases h
      | ok res =>
          obtain ⟨r₁, cell₁⟩ := res
          rw [hd] at h
          obtain ⟨hvalue, hfinal⟩ := hv r₁ cell₁ hd
          cases r₁ with
          | error e =>
              cases h
              obtain ⟨hvalue', hfinal'⟩ := Prog.ends_andThen_of_error hvalue
              exact ⟨hvalue', hfinal'.trans hfinal⟩
          | ok value =>
              obtain ⟨hvalue', hfinal'⟩ := Prog.ends_andThen_of_ok hvalue
              rw [hvalue', hfinal', hfinal]
              simp only at h
              cases hs : cell₁.setCachedMapItem dict key value with
              | error e =>
                  rw [hs] at h
                  cases h
              | ok res =>
                  obtain ⟨result, dict', cell₂⟩ := res
                  rw [hs] at h
                  obtain ⟨hset, hset'⟩ := setItemSteps_exec cell₁ dict key value hs
                  cases result with
                  | error e =>
                      cases h
                      obtain ⟨hend, hend'⟩ := Prog.ends_andThen_of_error hset
                      exact ⟨hend, hend'.trans hset'⟩
                  | ok _ =>
                      obtain ⟨hend, hend'⟩ := Prog.ends_andThen_of_ok hset
                      rw [hend, hend', hset']
                      exact visitMapSteps_exec (fun e he => hall e (List.mem_cons_of_mem _ he))
                        cell₂ dict' r cell' h

/-- **Alone, the steps are the decoder on the cell.** -/
lemma deserializeSteps_exec (v : MMValue) :
    ∀ cell : KeyCell, EndsAs (deserializeSteps v) cell (cell.deserialize v) := by
  induction v using MMValue.ind with
  | scalar s =>
      intro cell r cell' h
      rw [deserialize] at h
      cases h
      rw [deserializeSteps]
      exact ⟨rfl, rfl⟩
  | array xs ih =>
      intro cell
      rw [deserializeSteps, deserialize]
      exact visitSeqSteps_exec ih cell []
  | map kvs ih =>
      intro cell
      rw [deserializeSteps, deserialize]
      exact visitMapSteps_exec ih cell []

/-! ### Among others -/

/-- What decodes keep who share the cell: while nobody has it, it satisfies its invariant, and who
gives it back has put its key at the end of the log. -/
def cellSharing : Sharing DecodeLabel KeyCell where
  use := DecodeLabel.use
  take cell := { cell with borrowed := true }
  inv := Inv
  guar cell l cell' := cell'.calls.map KeyCall.key = cell.calls.map KeyCall.key ++ l.key?.toList

/-- One of the borrows of a decode has been refused. -/
def Refused (tr : List DecodeLabel) : Prop := ∃ key, .borrow key false ∈ tr

/-- How a decode ends that has done this: if none of its borrows has been refused, with `result`
and after passing `keys` to `set_cached_map_item`, and else in a panic. -/
def EndsIn {α : Type} (result : Except MaxMindDbError α) (keys : List (List UInt8))
    (tr : List DecodeLabel) (r : Except DecodeExit α) : Prop :=
  ¬Refused tr ∧ r = result.mapError .error ∧ tr.filterMap DecodeLabel.key? = keys ∨
    Refused tr ∧ r = .error (.panic ⟨⟩)

/-- The program borrows the cell only for its calls of `set_cached_map_item`, and it can only end
so. -/
def Gives {α : Type} (p : Prog DecodeLabel KeyCell (Except DecodeExit α))
    (result : Except MaxMindDbError α) (keys : List (List UInt8)) : Prop :=
  cellSharing.Sections (EndsIn result keys) none p

/-- Only a borrow can be refused. -/
lemma refused_cons {l : DecodeLabel} {tr : List DecodeLabel} (hl : l.use ≠ .refused) :
    Refused (l :: tr) ↔ Refused tr := by
  refine exists_congr fun key => ⟨fun h => ?_, List.mem_cons_of_mem l⟩
  rcases List.mem_cons.mp h with rfl | h
  · exact absurd rfl hl
  · exact h

/-- What has been done before does not matter if nothing in it was refused. -/
lemma refused_append {tr tr' : List DecodeLabel} (h : ¬Refused tr) :
    Refused (tr ++ tr') ↔ Refused tr' := by
  refine exists_congr fun key => ⟨fun h' => ?_, List.mem_append_right tr⟩
  exact (List.mem_append.mp h').resolve_left fun hmem => h ⟨key, hmem⟩

/-- A program that ends at once. -/
lemma gives_ret {α : Type} (result : Except MaxMindDbError α) :
    Gives (.ret (result.mapError .error)) result [] :=
  Or.inl ⟨fun ⟨_, hmem⟩ => List.not_mem_nil hmem, rfl, rfl⟩

/-- How a decode ends that first takes a step that is not refused and passes no key. -/
lemma endsIn_cons {α : Type} {result : Except MaxMindDbError α} {keys : List (List UInt8)}
    {l : DecodeLabel} (huse : l.use ≠ .refused) (hkey : l.key? = none) {tr : List DecodeLabel}
    {r : Except DecodeExit α} (h : EndsIn result keys tr r) : EndsIn result keys (l :: tr) r := by
  rw [EndsIn, refused_cons huse, List.filterMap_cons, hkey]
  exact h

/-- A step that leaves the cell alone. -/
lemma gives_atom {α : Type} {l : DecodeLabel} (huse : l.use = .none) (hkey : l.key? = none)
    {p : Prog DecodeLabel KeyCell (Except DecodeExit α)} {result : Except MaxMindDbError α}
    {keys : List (List UInt8)} (hp : Gives p result keys) :
    Gives (.atom (fun _ => l) id fun _ => p) result keys := by
  have huse' : l.use ≠ .refused := by simp [huse]
  exact .quiet huse (Sharing.Sections.imp (fun tr r => endsIn_cons huse' hkey) hp)

/-- Sequencing. -/
lemma Gives.andThen {α β : Type} {p : Prog DecodeLabel KeyCell (Except DecodeExit α)}
    {f : α → Prog DecodeLabel KeyCell (Except DecodeExit β)} {result : Except MaxMindDbError α}
    {result' : α → Except MaxMindDbError β} {keys keys' : List (List UInt8)}
    (hp : Gives p result keys) (hf : ∀ a, result = .ok a → Gives (f a) (result' a) keys') :
    Gives (p.andThen f) (result >>= result') (keys ++ if result.toBool then keys' else []) := by
  refine Sharing.Sections.andThen hp (fun tr e he => ?_) fun tr a ha => ?_
  · rcases he with ⟨htr, he, hkeys⟩ | ⟨htr, he⟩
    · cases result with
      | error e' =>
          cases he
          exact Or.inl ⟨htr, rfl, hkeys.trans (List.append_nil _).symm⟩
      | ok a => cases he
    · cases he
      exact Or.inr ⟨htr, rfl⟩
  · rcases ha with ⟨htr, ha, hkeys⟩ | ⟨-, ha⟩
    · cases result with
      | error e' => cases ha
      | ok a' =>
          cases ha
          refine Sharing.Sections.imp (fun tr' r hr => ?_) (hf a rfl)
          show EndsIn (result' a) (keys ++ keys') (tr ++ tr') r
          rw [EndsIn, refused_append htr, List.filterMap_append, hkeys, List.append_cancel_left_eq]
          exact hr
    · cases ha

/-- After its borrow, `set_cached_map_item` sets the item and gives the cell back. -/
lemma setItemRest_gives {cell : KeyCell} (h : cell.Inv) (dict : PyDict) (key : List UInt8)
    (value : PyObj) :
    cellSharing.Sections
      (EndsIn (((PyStr.fromBytes key).mapError pyerrToDeError).map
        fun pyKey => dict.setItem pyKey value) [key]) (some cell) (setItemRest dict key value) := by
  obtain ⟨dict', cell', hset, hinv, hkeys, hdict, -⟩ := h.setItemBorrowed dict key value
  have hset' : (cellSharing.take cell).setItemBorrowed dict key value = _ := hset
  have hcell : ((cellSharing.take cell).setItemBorrowed dict key value).2.2 = cell' := by rw [hset']
  refine ⟨rfl, ?_, ?_, Or.inl ⟨?_, ?_, rfl⟩⟩
  · show ((cellSharing.take cell).setItemBorrowed dict key value).2.2.Inv
    rw [hcell]
    exact hinv
  · show ((cellSharing.take cell).setItemBorrowed dict key value).2.2.calls.map KeyCall.key = _
    rw [hcell]
    exact hkeys
  · rintro ⟨key', hmem⟩
    cases List.mem_singleton.mp hmem
  · simp only [hset']
    cases hkey : PyStr.fromBytes key with
    | error e => rfl
    | ok pyKey => rw [hdict pyKey hkey]; rfl

/-- **A call of `set_cached_map_item`**: it sets the item if it finds the cell free, and panics if
another decode has it. -/
lemma setItemSteps_gives (dict : PyDict) (key : List UInt8) (value : PyObj) :
    Gives (setItemSteps dict key value)
      (((PyStr.fromBytes key).mapError pyerrToDeError).map
        fun pyKey => dict.setItem pyKey value) [key] := by
  intro cell h
  obtain ⟨cache, borrowed, calls⟩ := cell
  obtain rfl : borrowed = false := h.free
  refine ⟨Or.inr ⟨rfl, rfl, ?_⟩, Or.inr rfl, rfl, Or.inr ⟨⟨key, List.mem_singleton_self _⟩, rfl⟩⟩
  have hgranted : (DecodeLabel.borrow key true).use ≠ .refused := Use.noConfusion
  exact Sharing.Sections.imp (fun tr r => endsIn_cons hgranted rfl)
    (setItemRest_gives h dict key value)

/-- What the rest of an array decodes to, after its first elements. -/
lemma denoteSeq_cons (x : MMValue) (xs : List MMValue) (elements : List PyObj) :
    (denoteSeq (x :: xs)).map (fun ys => PyObj.list (elements ++ ys))
      = denote x >>= fun elem =>
          (denoteSeq xs).map fun ys => PyObj.list (elements ++ [elem] ++ ys) := by
  rw [denoteSeq]
  cases denote x with
  | error e => rfl
  | ok elem =>
      simp only [bind, Except.bind]
      cases denoteSeq xs <;> simp [Except.map]

/-- What the rest of a map decodes to, after its first entries. -/
lemma denoteMap_cons (key : List UInt8) (v : MMValue) (kvs : List (List UInt8 × MMValue))
    (dict : PyDict) :
    (denoteMap ((key, v) :: kvs)).map
        (fun es => PyObj.dict (es.foldl (fun d e => OrderedDict.insert d e.1 e.2) dict))
      = denote v >>= fun value =>
          ((PyStr.fromBytes key).mapError pyerrToDeError).map
              (fun pyKey => dict.setItem pyKey value) >>= fun dict =>
            (denoteMap kvs).map fun es =>
              PyObj.dict (es.foldl (fun d e => OrderedDict.insert d e.1 e.2) dict) := by
  rw [denoteMap]
  cases denote v with
  | error e => rfl
  | ok value =>
      simp only [bind, Except.bind]
      cases PyStr.fromBytes key with
      | error e => rfl
      | ok pyKey => cases denoteMap kvs <;> rfl

/-- The entries after a key are reached if it is UTF-8. -/
lemma toBool_fromBytes {α : Type} (key : List UInt8) (f : PyStr → α) :
    (((PyStr.fromBytes key).mapError pyerrToDeError).map f).toBool
      = decide (PyStr.ValidUtf8 key) := by
  by_cases hkey : PyStr.ValidUtf8 key
  · simp [hkey, fromBytes_of_valid hkey, Except.mapError, Except.map, Except.toBool]
  · simp [hkey, fromBytes_of_invalid hkey, Except.mapError, Except.map, Except.toBool]

/-- The loop of `visit_seq` over elements whose steps give what they denote. -/
lemma visitSeqSteps_gives : ∀ {xs : List MMValue},
    (∀ x ∈ xs, Gives (deserializeSteps x) (denote x) (itemKeys x)) → ∀ elements : List PyObj,
      Gives (visitSeqSteps elements xs) ((denoteSeq xs).map fun ys => .list (elements ++ ys))
        (seqKeys xs)
  | [], _, elements => by
      rw [visitSeqSteps, denoteSeq, seqKeys]
      refine gives_atom rfl rfl ?_
      simpa [Except.map, Except.mapError] using gives_ret (.ok (PyObj.list elements))
  | x :: xs, hall, elements => by
      rw [visitSeqSteps, denoteSeq_cons, seqKeys]
      exact (hall x List.mem_cons_self).andThen fun elem _ =>
        visitSeqSteps_gives (fun y hy => hall y (List.mem_cons_of_mem _ hy)) (elements ++ [elem])

/-- The loop of `visit_map` over entries the steps of whose values give what they denote. -/
lemma visitMapSteps_gives : ∀ {kvs : List (List UInt8 × MMValue)},
    (∀ e ∈ kvs, Gives (deserializeSteps e.2) (denote e.2) (itemKeys e.2)) → ∀ dict : PyDict,
      Gives (visitMapSteps dict kvs) ((denoteMap kvs).map fun es =>
        .dict (es.foldl (fun d e => OrderedDict.insert d e.1 e.2) dict)) (mapKeys kvs)
  | [], _, dict => by
      rw [visitMapSteps, denoteMap, mapKeys]
      exact gives_ret (.ok (PyObj.dict dict))
  | (key, v) :: kvs, hall, dict => by
      rw [visitMapSteps, denoteMap_cons, mapKeys]
      refine (hall (key, v) List.mem_cons_self).andThen fun value _ => ?_
      have hrest := (setItemSteps_gives dict key value).andThen fun dict _ =>
        visitMapSteps_gives (fun e he => hall e (List.mem_cons_of_mem _ he)) dict
      simpa only [toBool_fromBytes, decide_eq_true_eq, List.singleton_append] using hrest

/-- **A decode among others** returns what its record denotes, after passing the keys of the
record to `set_cached_map_item`, or panics at a borrow that is refused. -/
lemma deserializeSteps_gives (v : MMValue) :
    Gives (deserializeSteps v) (denote v) (itemKeys v) := by
  induction v using MMValue.ind with
  | scalar s =>
      rw [deserializeSteps, denote, itemKeys]
      exact gives_ret (visitScalar s)
  | array xs ih =>
      rw [deserializeSteps, denote, itemKeys]
      exact visitSeqSteps_gives ih []
  | map kvs ih =>
      rw [deserializeSteps, denote, itemKeys]
      exact gives_atom rfl rfl (visitMapSteps_gives ih [])

/-! ### Runs -/

/-- Decodes on one thread, of which any may begin, go on or end between two steps of another. -/
def decodeSystem : System MMValue DecodeLabel KeyCell (Except DecodeExit PyObj) where
  prog := deserializeSteps
  canStart _ _ := True
  env _ _ _ := False

lemma decodeSystem_kept :
    cellSharing.Kept (fun v => EndsIn (denote v) (itemKeys v)) decodeSystem where
  prog := deserializeSteps_gives
  alone _ _ _ := id

/-- What a step does to the log: a call of `set_cached_map_item` is at its end. -/
lemma keys_of_used {ι : Type} {h : Option ι} {i : ι} {l : DecodeLabel} {cell cell' : KeyCell}
    (hused : cellSharing.Used h i cell l cell') :
    cell'.calls.map KeyCall.key = cell.calls.map KeyCall.key ++ l.key?.toList := by
  cases l with
  | newDict | newList =>
      obtain rfl : cell' = cell := hused
      exact (List.append_nil _).symm
  | borrow key granted =>
      cases granted <;> obtain ⟨-, rfl⟩ := hused <;> exact (List.append_nil _).symm
  | setItem key =>
      obtain ⟨-, cell₀, rfl, hkeys⟩ := hused
      exact hkeys

/-- Who changes the cache has the cell. -/
lemma cache_of_used {ι : Type} {h : Option ι} {i : ι} {l : DecodeLabel} {cell cell' : KeyCell}
    (hused : cellSharing.Used h i cell l cell') : cell'.cache = cell.cache ∨ h = some i := by
  cases l with
  | newDict | newList => exact Or.inl (congrArg cache hused)
  | borrow key granted =>
      cases granted with
      | false => exact Or.inl (congrArg cache hused.2)
      | true => exact Or.inl (congrArg cache hused.2 : cell'.cache = (cellSharing.take cell).cache)
  | setItem key => exact Or.inr hused.1

section Runs

variable {ι : Type} [DecidableEq ι]
  {es : List (Event ι MMValue DecodeLabel (Except DecodeExit PyObj))}
  {P : Pool ι MMValue DecodeLabel KeyCell (Except DecodeExit PyObj)}

/-- The key that an event of a run passes to `set_cached_map_item`. -/
def eventKey? : Event ι MMValue DecodeLabel (Except DecodeExit PyObj) → Option (List UInt8)
  | .step _ _ l => l.key?
  | _ => none

/-- The log of a run lists the calls of `set_cached_map_item` in it. -/
lemma keys_of_run (run : decodeSystem.Run new es P) :
    P.shared.calls.map KeyCall.key = es.filterMap eventKey? := by
  induction run with
  | nil => rfl
  | @snoc es e P P' run hs ih =>
      rw [List.filterMap_append, ← ih]
      cases hs with
      | call | ret => exact (List.append_nil _).symm
      | env h => exact h.elim
      | @step i v tr label update next ht =>
          have hused := decodeSystem_kept.used inv_new run (.step ht)
          calc (update P.shared).calls.map KeyCall.key
              = P.shared.calls.map KeyCall.key ++ (label P.shared).key?.toList := keys_of_used hused
            _ = P.shared.calls.map KeyCall.key
                ++ List.filterMap eventKey? [.step i v (label P.shared)] := by
              simp only [List.filterMap_cons, List.filterMap_nil, eventKey?]
              cases (label P.shared).key? <;> rfl

/-- **Decodes inside decodes**: in every run of any number of decodes on one thread, each of which
may begin, go on or end between any two steps of another, as lookups do from Python code that runs
while a decode allocates or replaces a value, every decode that ends returns what its record
denotes, after passing the keys of the record to `set_cached_map_item`, or panics, and it panics
exactly if one of its borrows was refused. A borrow is refused exactly while another decode has the
cell; nobody but the decode that has it changes the cache. At every point the cache holds the first
256 distinct keys that are UTF-8 of those passed so far, in the order of the calls of all decodes
together, each with the `str` that it encodes; and no entry is replaced or removed. -/
theorem nestedDecodes (run : decodeSystem.Run new es P) :
    (∀ i v tr r, .ret i v tr r ∈ es → EndsIn (denote v) (itemKeys v) tr r) ∧
      (∀ i v key granted P', decodeSystem.Step P (.step i v (.borrow key granted)) P' →
        (granted = false ↔ ∃ j, j ≠ i ∧ holder DecodeLabel.use es = some j)) ∧
      (∀ i v l P', decodeSystem.Step P (.step i v l) P' → P'.shared.cache ≠ P.shared.cache →
        holder DecodeLabel.use es = some i) ∧
      P.shared.borrowed = (holder DecodeLabel.use es).isSome ∧
      Holds (es.filterMap eventKey?) P.shared.cache ∧ P.shared.cache.length ≤ 256 ∧
      P.shared.calls.map KeyCall.key = es.filterMap eventKey? ∧
      ∀ before call after, P.shared.calls = before ++ call :: after → Follows before call := by
  have hkeys := keys_of_run run
  obtain ⟨cell, hinv, hcell⟩ := decodeSystem_kept.exists_inv inv_new run
  have htable := hinv.table
  have hfollows := hinv.follows
  have hsame : P.shared.cache = cell.cache ∧ P.shared.calls = cell.calls ∧
      P.shared.borrowed = (holder DecodeLabel.use es).isSome := by
    rcases hcell with ⟨hnone, hshared⟩ | ⟨hsome, hshared⟩
    · rw [hshared, show holder DecodeLabel.use es = none from hnone]
      exact ⟨rfl, rfl, hinv.free⟩
    · rw [hshared, show (holder DecodeLabel.use es).isSome = true from hsome]
      exact ⟨rfl, rfl, rfl⟩
  rw [← hsame.1, ← hsame.2.1, hkeys] at htable
  rw [← hsame.2.1] at hfollows
  refine ⟨fun i v tr r h => decodeSystem_kept.post_of_ret inv_new run h, ?_, ?_, hsame.2.2,
    holds_of_holdsFirst htable, htable.length_le, hkeys, hfollows⟩
  · intro i v key granted P' hs
    have hused := decodeSystem_kept.used inv_new run hs
    cases granted with
    | false => exact ⟨fun _ => hused.1, fun _ => rfl⟩
    | true =>
        refine ⟨Bool.noConfusion, ?_⟩
        rintro ⟨j, -, hj⟩
        have hnone : holder DecodeLabel.use es = none := hused.1
        rw [hnone] at hj
        cases hj
  · intro i v l P' hs hne
    exact (cache_of_used (decodeSystem_kept.used inv_new run hs)).resolve_left hne

/-- A decode that is interrupted twice by a decode of the same record: before it borrows the cell,
where that decode returns, and while it has it, where that decode panics. -/
theorem nestedDecodes_interrupted :
    let v : MMValue := .map [([107], .scalar (.bool true)), ([107], .scalar (.bool false))]
    ∃ es, ∃ P : Pool Bool MMValue DecodeLabel KeyCell (Except DecodeExit PyObj),
      decodeSystem.Run new es P ∧
        (∃ tr, .ret true v tr ((denote v).mapError .error) ∈ es ∧ ¬Refused tr) ∧
        (∃ tr, .ret true v tr (.error (.panic ⟨⟩)) ∈ es ∧ Refused tr) ∧
        (∃ tr, .ret false v tr ((denote v).mapError .error) ∈ es ∧ ¬Refused tr) ∧
        Holds (es.filterMap eventKey?) P.shared.cache ∧
        es.filterMap eventKey? = [[107], [107], [107], [107]] := by
  intro v
  have start : decodeSystem.Run new [] _ := .nil (ι := Bool)
  have begun := (start.snoc (.call (i := false) (c := v) rfl trivial)).snoc
    (.step (i := false) rfl)
  have before := begun.exec (i := true) (c := v) rfl trivial
  have borrowed := before.snoc (.step (i := false) rfl)
  have refused := ((borrowed.snoc (.call (i := true) (c := v) rfl trivial)).snoc
    (.step (i := true) rfl)).snoc (.step (i := true) rfl)
  have panicked := refused.snoc (.ret (i := true) rfl)
  have ended := (((panicked.snoc (.step (i := false) rfl)).snoc (.step (i := false) rfl)).snoc
    (.step (i := false) rfl)).snoc (.ret (i := false) rfl)
  have granted : ¬Refused [.newDict, .borrow [107] true, .setItem [107], .borrow [107] true,
      .setItem [107]] := by
    rintro ⟨key, hmem⟩
    simp at hmem
  refine ⟨_, _, ended, ⟨_, ?_, granted⟩, ⟨[.newDict, .borrow [107] false], ?_, [107], ?_⟩,
    ⟨_, List.mem_append_right _ (List.mem_singleton_self _), granted⟩,
    (nestedDecodes ended).2.2.2.2.1, by decide⟩
  · iterate 9 refine List.mem_append_left _ ?_
    exact List.mem_append_right _ (List.mem_singleton_self _)
  · iterate 4 refine List.mem_append_left _ ?_
    exact List.mem_append_right _ (List.mem_singleton_self _)
  · exact List.mem_cons_of_mem _ (List.mem_singleton_self _)

end Runs

end KeyCell

end MaxminddbRust
