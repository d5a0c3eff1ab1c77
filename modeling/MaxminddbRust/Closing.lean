import MaxminddbRust.ReaderSystem

/-!
Closing a reader while others use it.

* `eventCases`: what an event of a run does to the slot and to the iterators.
* `slot_of_run`: the slot is empty exactly after a step has emptied it.
* `Delivered`: what an iterator has given so far, kept by every step; `nextResults_of_run`: the
  results of an iterator are those of its enumeration one after the other. `made_of_run`: the
  iterators are numbered in the order in which they are made.
* `Call.Post.agree`: two calls with the same arguments that do not find the slot empty return the
  same. `Call.Post.of_closed`: a call that finds it empty fails and has read nothing.
* `close_atomic`: closing is final, and every call is as if on a reader that is never closed, or
  fails with the error of a closed reader.
-/

namespace MaxminddbRust

open Concurrent
open Concurrent.Prog

section Runs

variable {ι : Type} [DecidableEq ι] {cfg : Config} {src : ReaderSource}
  {heap : ℕ → Option PyTuple} {es : List (Event ι (Call cfg.toPlatform) Label (PyResult Value))}
  {P P' : Pool ι (Call cfg.toPlatform) Label ReaderState (PyResult Value)}

/-! ### The slot -/

/-- What an event of a run does to the reader: it is a step of a method, or it leaves the slot
and the iterators alone. -/
lemma eventCases (run : (readerSystem cfg).Run (createReader src heap) es P)
    {e : Event ι (Call cfg.toPlatform) Label (PyResult Value)}
    (hs : (readerSystem cfg).Step P e P') :
    (∃ i c l, e = .step i c l ∧ ReaderStep cfg src P.shared l P'.shared) ∨
      (∀ i c l, e ≠ .step i c l) ∧ P'.shared.reader = P.shared.reader ∧
        P'.shared.iterators = P.shared.iterators := by
  cases hs with
  | call => exact Or.inr ⟨fun _ _ _ h => (nomatch h), rfl, rfl⟩
  | ret => exact Or.inr ⟨fun _ _ _ h => (nomatch h), rfl, rfl⟩
  | env henv => exact Or.inr ⟨fun _ _ _ h => (nomatch h), ReaderEnv.unchanged henv⟩
  | step h =>
      exact Or.inl ⟨_, _, _, rfl, (readerContract_holds cfg src).guar
        (createReader_inv cfg src heap) run (.step h)⟩

/-- Some step of the run has emptied the slot. -/
def Closed {platform : Platform} (es : List (Event ι (Call platform) Label (PyResult Value))) :
    Prop :=
  ∃ i c, .step i c .store ∈ es

omit [DecidableEq ι] in
lemma closed_concat_iff {platform : Platform}
    {es : List (Event ι (Call platform) Label (PyResult Value))}
    {e : Event ι (Call platform) Label (PyResult Value)} :
    Closed (es ++ [e]) ↔ Closed es ∨ ∃ i c, e = .step i c .store := by
  simp only [Closed, List.mem_append, List.mem_singleton, exists_or, eq_comm]

/-- **The slot over a run**: empty once a step has emptied it, and the source until then. -/
lemma slot_of_run (run : (readerSystem cfg).Run (createReader src heap) es P) :
    Closed es ∧ P.shared.reader = none ∨ ¬Closed es ∧ P.shared.reader = some src := by
  induction run with
  | nil => exact Or.inr ⟨fun ⟨_, _, h⟩ => by simp at h, rfl⟩
  | @snoc es e P P' run hs ih =>
      rw [closed_concat_iff]
      rcases eventCases run hs with ⟨i, c, l, rfl, hstep⟩ | ⟨hne, hslot, -⟩
      · rcases hstep.slot with ⟨hslot, hl⟩ | ⟨hslot, rfl⟩
        · rw [hslot]
          rcases ih with ⟨hc, hr⟩ | ⟨hc, hr⟩
          · exact Or.inl ⟨Or.inl hc, hr⟩
          · refine Or.inr ⟨not_or.mpr ⟨hc, ?_⟩, hr⟩
            rintro ⟨j, c', h⟩
            cases h
            exact hl rfl
        · exact Or.inl ⟨Or.inr ⟨i, c, rfl⟩, hslot⟩
      · rw [hslot]
        rcases ih with ⟨hc, hr⟩ | ⟨hc, hr⟩
        · exact Or.inl ⟨Or.inl hc, hr⟩
        · exact Or.inr ⟨not_or.mpr ⟨hc, fun ⟨j, c, h⟩ => hne j c _ h⟩, hr⟩

/-- A load sees whether the slot has been emptied. -/
lemma load_iff_not_closed (run : (readerSystem cfg).Run (createReader src heap) es P) {i : ι}
    {c : Call cfg.toPlatform} {b : Bool}
    (hs : (readerSystem cfg).Step P (.step i c (.load b)) P') : b = true ↔ ¬Closed es := by
  have hload : b = P.shared.reader.isSome :=
    ((readerContract_holds cfg src).guar (createReader_inv cfg src heap) run hs).1
  rw [hload]
  rcases slot_of_run run with ⟨hc, hr⟩ | ⟨hc, hr⟩ <;> simp [hc, hr]

/-- A load that found the slot empty came after a step that emptied it. -/
lemma closed_of_load_false (run : (readerSystem cfg).Run (createReader src heap) es P) {i : ι}
    {c : Call cfg.toPlatform} (h : .step i c (.load false) ∈ es) : Closed es := by
  induction run with
  | nil => simp at h
  | snoc run hs ih =>
      rw [closed_concat_iff]
      rcases List.mem_append.mp h with h | h
      · exact Or.inl (ih h)
      · rw [List.mem_singleton] at h
        subst h
        by_contra hclosed
        rw [not_or] at hclosed
        have := (load_iff_not_closed run hs).mpr hclosed.1
        cases this

/-! ### The iterators -/

/-- What a step does to the iterators. -/
lemma ReaderStep.iterators_cases {s s' : ReaderState} {l : Label}
    (h : ReaderStep cfg src s l s') :
    (s'.iterators = s.iterators ∧ (∀ k r, l ≠ .next k r) ∧ ∀ k, l ≠ .within (some k)) ∨
      (l = .within (some s.iterators.length) ∧ ∃ it,
        ReaderIterator.new cfg.ipnetwork src = .ok it ∧ s'.iterators = s.iterators ++ [it]) ∨
      ∃ k, k < s.iterators.length ∧
        l = .next k (ReaderIterator.nextOutcome cfg.ipnetwork (s.iterator k).iter) ∧
        s'.iterators = s.iterators.set k ⟨(s.iterator k).iter.tail⟩ := by
  cases l with
  | within k =>
      cases k with
      | none =>
          cases h
          exact Or.inl ⟨rfl, by simp⟩
      | some k =>
          obtain ⟨rfl, it, hnew, rfl⟩ := h
          exact Or.inr (Or.inl ⟨rfl, it, hnew, rfl⟩)
  | next k r =>
      obtain ⟨hk, rfl, _, rfl⟩ := h
      exact Or.inr (Or.inr ⟨k, hk, rfl, rfl⟩)
  | load => exact Or.inl ⟨congrArg _ h.2, by simp⟩
  | path =>
      obtain ⟨_, -, rfl⟩ := h
      exact Or.inl ⟨rfl, by simp⟩
  | lookup =>
      obtain ⟨_, rfl⟩ := h
      exact Or.inl ⟨rfl, by simp⟩
  | metadata | pull | store =>
      cases h
      exact Or.inl ⟨rfl, by simp⟩

/-- The result that an event gives for the iterator `k`. -/
def Event.nextResult? {platform : Platform} (k : ℕ) :
    Event ι (Call platform) Label (PyResult Value) →
      Option (PyResult (Option (PyIpNetwork × PyObj)))
  | .step _ _ (.next j r) => if j = k then some r else none
  | _ => none

/-- The results of the iterator `k` over a run, in order. -/
def nextResults {platform : Platform} (k : ℕ)
    (es : List (Event ι (Call platform) Label (PyResult Value))) :
    List (PyResult (Option (PyIpNetwork × PyObj))) := es.filterMap (Event.nextResult? k)

/-- The first `n` results of an iterator over an enumeration. -/
def enumerated (ipnetwork : IpNetworkCrate) (it : ReaderIterator) (n : ℕ) :
    List (PyResult (Option (PyIpNetwork × PyObj))) :=
  (List.range n).map fun j => ReaderIterator.nextOutcome ipnetwork (it.iter.drop j)

/-- The iterator `k` has given the first results of the enumeration of the source, and goes on
with the rest of it. -/
def Enumerating (cfg : Config) (src : ReaderSource) (k : ℕ)
    (results : List (PyResult (Option (PyIpNetwork × PyObj)))) (s : ReaderState) : Prop :=
  ∃ it, ReaderIterator.new cfg.ipnetwork src = .ok it ∧
    results = enumerated cfg.ipnetwork it results.length ∧
    s.iterators[k]? = some ⟨it.iter.drop results.length⟩

omit [DecidableEq ι] in
lemma nextResults_concat {platform : Platform} (k : ℕ)
    (es : List (Event ι (Call platform) Label (PyResult Value)))
    (e : Event ι (Call platform) Label (PyResult Value)) :
    nextResults k (es ++ [e]) = nextResults k es ++ (Event.nextResult? k e).toList := by
  rw [nextResults, List.filterMap_append, ← nextResults]
  cases h : Event.nextResult? k e <;> simp [h]

/-- One more result. -/
lemma Enumerating.next {k : ℕ} {results : List (PyResult (Option (PyIpNetwork × PyObj)))}
    {s s' : ReaderState} (h : Enumerating cfg src k results s)
    (hs : s'.iterators = s.iterators.set k ⟨(s.iterator k).iter.tail⟩) :
    Enumerating cfg src k
      (results ++ [ReaderIterator.nextOutcome cfg.ipnetwork (s.iterator k).iter]) s' := by
  obtain ⟨it, hnew, hresults, hk⟩ := h
  have hit : s.iterator k = ⟨it.iter.drop results.length⟩ := by
    rw [ReaderState.iterator, List.getD_eq_getElem?_getD, hk, Option.getD_some]
  have hlt : k < s.iterators.length := (List.getElem?_eq_some_iff.mp hk).1
  refine ⟨it, hnew, ?_, ?_⟩
  · rw [List.length_append, List.length_singleton, enumerated, List.range_succ, List.map_append,
      List.map_singleton, ← enumerated, ← hresults, hit]
  · rw [hs, List.getElem?_set_self hlt, hit, List.length_append, List.length_singleton,
      List.tail_drop]

/-- An iterator that exists has given the first results of the enumeration, and no other has given
any. -/
def Delivered (cfg : Config) (src : ReaderSource) (k : ℕ)
    (results : List (PyResult (Option (PyIpNetwork × PyObj)))) (s : ReaderState) : Prop :=
  (s.iterators.length ≤ k → results = []) ∧
    (k < s.iterators.length → Enumerating cfg src k results s)

namespace Delivered

variable {k : ℕ} {results : List (PyResult (Option (PyIpNetwork × PyObj)))} {s s' : ReaderState}

lemma congr (h : Delivered cfg src k results s) (hs : s'.iterators = s.iterators) :
    Delivered cfg src k results s' := by
  refine ⟨fun hk => h.1 (hs ▸ hk), fun hk => ?_⟩
  obtain ⟨it, hnew, hresults, hit⟩ := h.2 (hs ▸ hk)
  exact ⟨it, hnew, hresults, hs ▸ hit⟩

/-- A new iterator has given nothing. -/
lemma concat {it : ReaderIterator} (h : Delivered cfg src k results s)
    (hnew : ReaderIterator.new cfg.ipnetwork src = .ok it)
    (hs : s'.iterators = s.iterators ++ [it]) : Delivered cfg src k results s' := by
  have hlen : s'.iterators.length = s.iterators.length + 1 := by
    rw [hs, List.length_append, List.length_singleton]
  refine ⟨fun hk => h.1 (by omega), fun hk => ?_⟩
  rcases Nat.lt_or_ge k s.iterators.length with hlt | hge
  · obtain ⟨it', hnew', hresults, hit⟩ := h.2 hlt
    refine ⟨it', hnew', hresults, ?_⟩
    rw [hs, List.getElem?_append_left hlt, hit]
  · have hk : k = s.iterators.length := by omega
    rw [h.1 hge]
    refine ⟨it, hnew, rfl, ?_⟩
    rw [hs, hk, List.getElem?_concat_length]
    rfl

lemma next (h : Delivered cfg src k results s) (hk : k < s.iterators.length)
    (hs : s'.iterators = s.iterators.set k ⟨(s.iterator k).iter.tail⟩) :
    Delivered cfg src k
      (results ++ [ReaderIterator.nextOutcome cfg.ipnetwork (s.iterator k).iter]) s' := by
  refine ⟨fun hle => ?_, fun _ => (h.2 hk).next hs⟩
  rw [hs, List.length_set] at hle
  omega

/-- An iterator goes on independently of another. -/
lemma of_set {j : ℕ} {it : ReaderIterator} (h : Delivered cfg src k results s) (hjk : j ≠ k)
    (hs : s'.iterators = s.iterators.set j it) : Delivered cfg src k results s' := by
  have hlen : s'.iterators.length = s.iterators.length := by rw [hs, List.length_set]
  refine ⟨fun hk => h.1 (hlen ▸ hk), fun hk => ?_⟩
  obtain ⟨it', hnew, hresults, hit⟩ := h.2 (hlen ▸ hk)
  refine ⟨it', hnew, hresults, ?_⟩
  rw [hs, List.getElem?_set_ne hjk, hit]

end Delivered

omit [DecidableEq ι] in
/-- An event that gives no result leaves the results as they are. -/
lemma nextResults_concat_of_none {platform : Platform} {k : ℕ}
    {es : List (Event ι (Call platform) Label (PyResult Value))}
    {e : Event ι (Call platform) Label (PyResult Value)} (h : Event.nextResult? k e = none) :
    nextResults k (es ++ [e]) = nextResults k es := by
  rw [nextResults_concat, h, Option.toList_none, List.append_nil]

/-- **The iterators over a run**: an iterator that exists has given the first results of the
enumeration of the source, one after the other, and no other has given any. -/
lemma nextResults_of_run (run : (readerSystem cfg).Run (createReader src heap) es P) (k : ℕ) :
    Delivered cfg src k (nextResults k es) P.shared := by
  induction run with
  | nil => exact ⟨fun _ => rfl, fun h => by simp [Pool.start, createReader] at h⟩
  | @snoc es e P P' run hs ih =>
      rcases eventCases run hs with ⟨i, c, l, rfl, hstep⟩ | ⟨hne, -, hiter⟩
      · rcases hstep.iterators_cases with ⟨hiter, hl⟩ | ⟨rfl, it, hnew, hiter⟩ |
          ⟨j, hj, rfl, hiter⟩
        · rw [nextResults_concat_of_none]
          · exact ih.congr hiter
          · cases l with
            | next j r => exact absurd rfl (hl.1 j r)
            | _ => rfl
        · rw [nextResults_concat_of_none rfl]
          exact ih.concat hnew hiter
        · by_cases hjk : j = k
          · subst hjk
            rw [nextResults_concat, Event.nextResult?, if_pos rfl]
            exact ih.next hj hiter
          · have hnone : Event.nextResult? k (.step i c (.next j
                (ReaderIterator.nextOutcome cfg.ipnetwork (P.shared.iterator j).iter)) :
                  Event ι _ _ (PyResult Value)) = none := if_neg hjk
            rw [nextResults_concat_of_none hnone]
            exact ih.of_set hjk hiter
      · rw [nextResults_concat_of_none]
        · exact ih.congr hiter
        · cases e with
          | step i c l => exact absurd rfl (hne i c l)
          | _ => rfl

/-- The number of the iterator that an event makes. -/
def Event.made? {platform : Platform} :
    Event ι (Call platform) Label (PyResult Value) → Option ℕ
  | .step _ _ (.within made) => made
  | _ => none

/-- **The iterators of a run are numbered** in the order in which they are made. -/
lemma made_of_run (run : (readerSystem cfg).Run (createReader src heap) es P) :
    es.filterMap Event.made? = List.range P.shared.iterators.length := by
  induction run with
  | nil => rfl
  | @snoc es e P P' run hs ih =>
      rw [List.filterMap_append, ih]
      rcases eventCases run hs with ⟨i, c, l, rfl, hstep⟩ | ⟨hne, -, hiter⟩
      · rcases hstep.iterators_cases with ⟨hiter, -, hl⟩ | ⟨rfl, it, -, hiter⟩ | ⟨k, -, rfl, hiter⟩
        · have hnone : Event.made? (.step i c l : Event ι _ _ (PyResult Value)) = none := by
            cases l with
            | within made =>
                cases made with
                | none => rfl
                | some k => exact absurd rfl (hl k)
            | _ => rfl
          rw [hiter, List.filterMap_cons_none hnone, List.filterMap_nil, List.append_nil]
        · rw [hiter, List.length_append, List.length_singleton, List.range_succ]
          rfl
        · rw [hiter, List.length_set]
          exact List.append_nil _
      · have hnone : Event.made? e = none := by
          cases e with
          | step i c l => exact absurd rfl (hne i c l)
          | _ => rfl
        rw [hiter, List.filterMap_cons_none hnone, List.filterMap_nil, List.append_nil]

end Runs

/-! ### What two calls have in common -/

/-- The step of `get_or_parse_path` that a label stands for. -/
def Label.path? : Label → Option CacheLabel
  | path l => some l
  | _ => none

/-- What the path of a call was resolved to. -/
def pathOutcome (tr : List Label) : Option (PyResult OwnedPath) :=
  (tr.filterMap Label.path?).getLast?.bind CacheLabel.outcome

/-- Labels of a call that is at work on the source it has loaded. -/
def Working (tr : List Label) : Prop := ∀ l ∈ tr, l = .pull ∨ ∃ ip, l = .lookup ip

lemma Working.not_load {tr : List Label} (h : Working tr) (b : Bool) : .load b ∉ tr := by
  intro hmem
  rcases h _ hmem with h | ⟨_, h⟩ <;> cases h

lemma Working.path?_eq_none {tr : List Label} (h : Working tr) : ∀ l ∈ tr, l.path? = none := by
  intro l hl
  rcases h l hl with rfl | ⟨_, rfl⟩ <;> rfl

lemma LookedUp.working {α : Type} {ip : IpAddr} {value a : PyResult α} {tr : List Label}
    (h : LookedUp ip value tr a) : Working tr := by
  intro l hl
  rw [h.1, List.mem_singleton] at hl
  exact Or.inr ⟨ip, hl⟩

lemma itemsTrace_working {cfg : Config} {value : IpAddr → PyResult PyObj} {pulls : List Label}
    (hpulls : Working pulls) : ∀ items, Working (itemsTrace cfg value pulls items)
  | [] => hpulls
  | item :: items => by
      intro l hl
      rw [itemsTrace] at hl
      rcases List.mem_append.mp hl with hl | hl
      · exact hpulls l hl
      · cases hip : parseLookupIp cfg item with
        | error e =>
            rw [hip] at hl
            cases hl
        | ok ip =>
            rw [hip] at hl
            rcases List.mem_cons.mp hl with rfl | hl
            · exact Or.inr ⟨ip, rfl⟩
            · cases hvalue : value ip with
              | error e =>
                  rw [hvalue] at hl
                  cases hl
              | ok object =>
                  rw [hvalue] at hl
                  exact itemsTrace_working hpulls items l hl

lemma BatchPost.working {cfg : Config} {value : IpAddr → PyResult PyObj}
    {ips : BatchArg cfg.toPlatform} {tr : List Label} {a : PyResult (List PyObj)}
    (h : BatchPost cfg value ips tr a) : Working tr := by
  have hnil : Working [] := fun l hl => nomatch hl
  have hpull : Working [.pull] := fun l hl => Or.inl (List.mem_singleton.mp hl)
  rw [h.1]
  cases ips with
  | list xs => exact itemsTrace_working hnil _
  | tuple xs => exact itemsTrace_working hnil _
  | iterable len iter =>
      rw [batchTrace]
      cases withCapacity cfg.toPlatform (len.getD 0) with
      | error e => exact hnil
      | ok u => exact itemsTrace_working hpull _
  | bytesLike => exact hnil
  | notIterable => exact hnil

/-- The outcome of the path is fixed by its steps. -/
lemma pathOutcome_append (ls : List CacheLabel) {tr : List Label}
    (h : ∀ l ∈ tr, l.path? = none) :
    pathOutcome (ls.map .path ++ tr) = ls.getLast?.bind CacheLabel.outcome := by
  have hls : (ls.map Label.path).filterMap Label.path? = ls := by
    rw [List.filterMap_map]
    exact List.filterMap_some
  rw [pathOutcome, List.filterMap_append, hls, List.filterMap_eq_nil_iff.mpr h, List.append_nil]

/-- The specification allows one result to calls that do not find the slot empty. -/
def Determined {α : Type} (Q : List Label → PyResult α → Prop) : Prop :=
  ∀ tr a tr' a', Q tr a → Q tr' a' → .load false ∉ tr → .load false ∉ tr' → a = a'

/-- A result that is the same for all labels. -/
lemma Determined.of_eq {α : Type} {Q : List Label → PyResult α → Prop} {v : PyResult α}
    (h : ∀ tr r, Q tr r → r = v) : Determined Q :=
  fun _ _ _ _ h₁ h₂ _ _ => (h _ _ h₁).trans (h _ _ h₂).symm

lemma LookedUp.determined {α : Type} (ip : IpAddr) (value : PyResult α) :
    Determined (LookedUp ip value) :=
  .of_eq fun _ _ h => h.2

lemma BatchPost.determined {cfg : Config} (value : IpAddr → PyResult PyObj)
    (ips : BatchArg cfg.toPlatform) : Determined (BatchPost cfg value ips) :=
  .of_eq fun _ _ h => h.2

lemma Opened.determined {α : Type} {err : PyErr} {Q : List Label → PyResult α → Prop}
    (hQ : Determined Q) : Determined (Opened err Q) := by
  intro tr a tr' a' h h' hl hl'
  obtain ⟨tr₁, rfl, h₁⟩ := h.open_of_not_closed hl
  obtain ⟨tr₂, rfl, h₂⟩ := h'.open_of_not_closed hl'
  exact hQ _ _ _ _ h₁ h₂ (fun hm => hl (List.mem_cons_of_mem _ hm))
    fun hm => hl' (List.mem_cons_of_mem _ hm)

lemma Parsed.determined {α : Type} {cfg : Config} {x : PyObj}
    {Q : IpAddr → List Label → PyResult α → Prop} (hQ : ∀ ip, Determined (Q ip)) :
    Determined (Parsed cfg x Q) := by
  intro tr a tr' a' h h' hl hl'
  rw [Parsed] at h h'
  cases hip : parseLookupIp cfg x with
  | error e =>
      rw [hip] at h h'
      exact h.2.trans h'.2.symm
  | ok ip =>
      rw [hip] at h h'
      exact hQ ip _ _ _ _ h h' hl hl'

/-- A step of a path is none of a call at work on the source. -/
lemma Opened.path?_eq_none {α : Type} {err : PyErr} {Q : List Label → PyResult α → Prop}
    (hQ : ∀ tr a, Q tr a → Working tr) (tr : List Label) (a : PyResult α)
    (h : Opened err Q tr a) : ∀ l ∈ tr, l.path? = none := by
  intro l hl
  rcases h with ⟨rfl, -⟩ | ⟨tr', rfl, h⟩
  · rw [List.mem_singleton.mp hl]
    rfl
  · rcases List.mem_cons.mp hl with rfl | hl
    · rfl
    · exact (hQ _ _ h).path?_eq_none l hl

namespace Resolved

variable {α : Type} {cfg : Config} {path : PathArg}
  {Q : OwnedPath → List Label → PyResult α → Prop} {tr tr' : List Label} {a a' : PyResult α}

/-- The path's outcome can be read off the trace, and it says how the method goes on. -/
lemma outcome (hquiet : ∀ p tr a, Q p tr a → ∀ l ∈ tr, l.path? = none)
    (h : Resolved cfg path Q tr a) :
    ∃ r, pathOutcome tr = some r ∧ (path.Plain → r = parsePath cfg.wordBits path) ∧
      (∀ e, r = .error e → a = .error e) ∧
      ∀ p, r = .ok p → ∃ tr₁ tr₂, tr = tr₁ ++ tr₂ ∧ Q p tr₂ a := by
  obtain ⟨tr₁, r, ⟨ls, rfl, hlast, hplain, -⟩, hrest⟩ := h
  refine ⟨r, ?_, hplain, ?_, ?_⟩
  · cases r with
    | error e =>
        obtain ⟨rfl, -⟩ := hrest
        rw [← List.append_nil (ls.map Label.path), pathOutcome_append _ (by simp), hlast]
    | ok p =>
        obtain ⟨tr₂, rfl, hQ⟩ := hrest
        rw [pathOutcome_append _ (hquiet _ _ _ hQ), hlast]
  · rintro e rfl
    exact hrest.2
  · rintro p rfl
    exact ⟨_, hrest⟩

/-- Two calls that resolve the path alike agree. -/
lemma agree (hdet : ∀ p, Determined (Q p))
    (hquiet : ∀ p tr a, Q p tr a → ∀ l ∈ tr, l.path? = none) (h : Resolved cfg path Q tr a)
    (h' : Resolved cfg path Q tr' a') (hpath : path.Plain ∨ pathOutcome tr = pathOutcome tr')
    (hl : .load false ∉ tr) (hl' : .load false ∉ tr') : a = a' := by
  obtain ⟨r, hr, hplain, herror, hok⟩ := h.outcome hquiet
  obtain ⟨r', hr', hplain', herror', hok'⟩ := h'.outcome hquiet
  have heq : r = r' := by
    rcases hpath with plain | hsame
    · exact (hplain plain).trans (hplain' plain).symm
    · rw [hr, hr'] at hsame
      exact Option.some.inj hsame
  subst heq
  cases r with
  | error e => exact (herror e rfl).trans (herror' e rfl).symm
  | ok p =>
      obtain ⟨tr₁, tr₂, rfl, hQ⟩ := hok p rfl
      obtain ⟨tr₁', tr₂', rfl, hQ'⟩ := hok' p rfl
      exact hdet p _ _ _ _ hQ hQ' (fun hm => hl (List.mem_append_right _ hm))
        fun hm => hl' (List.mem_append_right _ hm)

/-- The steps of resolving a path load nothing. -/
lemma load_mem {b : Bool} (h : Resolved cfg path Q tr a) (hl : .load b ∈ tr) :
    ∃ (ls : List CacheLabel) (p : OwnedPath) (tr₂ : List Label),
      tr = ls.map .path ++ tr₂ ∧ .load b ∈ tr₂ ∧ Q p tr₂ a := by
  obtain ⟨tr₁, r, ⟨ls, rfl, -, -, -⟩, hrest⟩ := h
  have hls : .load b ∉ ls.map Label.path := by simp
  cases r with
  | error e =>
      obtain ⟨rfl, -⟩ := hrest
      exact absurd hl hls
  | ok p =>
      obtain ⟨tr₂, rfl, hQ⟩ := hrest
      exact ⟨ls, p, tr₂, rfl, (List.mem_append.mp hl).resolve_left hls, hQ⟩

end Resolved

/-! ### Calls on an open and on a closed reader -/

/-- A value up to which number an iterator was handed out under. -/
def Value.forgetIterator : Value → Value
  | iterator _ => iterator 0
  | v => v

namespace Call

/-- What a call returns or raises on a closed reader. -/
def closedResult {platform : Platform} : Call platform → PyResult Value
  | closed => .ok (.bool true)
  | metadata => .error errMetadataClosed
  | enter => .error errReopen
  | _ => .error errClosed

/-- The call loads the slot, and the arguments that it checks before that are valid. -/
def PassesChecks (cfg : Config) : Call cfg.toPlatform → Prop
  | get _ ipAddress | getWithPrefixLen _ ipAddress => ∃ ip, parseLookupIp cfg ipAddress = .ok ip
  | getPath _ ipAddress path => (∃ ip, parseLookupIp cfg ipAddress = .ok ip) ∧
      ∃ p, parsePath cfg.wordBits path = .ok p
  | close | exit | next _ _ => False
  | _ => True

variable {cfg : Config} {src : ReaderSource} {tr tr' : List Label} {a a' : PyResult Value}

/-- A determined specification determines the value. -/
lemma Returning.agree {α : Type} {f : α → Value} {Q : List Label → PyResult α → Prop}
    (hQ : Determined Q) (h : Returning f Q tr a) (h' : Returning f Q tr' a')
    (hl : .load false ∉ tr) (hl' : .load false ∉ tr') : a = a' := by
  obtain ⟨r, h, rfl⟩ := h
  obtain ⟨r', h', rfl⟩ := h'
  rw [hQ _ _ _ _ h h' hl hl']

lemma ClosedPost.determined : Determined ClosedPost := by
  intro tr a tr' a' h h' hl hl'
  rcases h with ⟨-, rfl⟩ | ⟨rfl, -⟩
  · rcases h' with ⟨-, rfl⟩ | ⟨rfl, -⟩
    · rfl
    · exact absurd (List.mem_singleton_self _) hl'
  · exact absurd (List.mem_singleton_self _) hl

/-- **Two calls with the same arguments** that do not find the slot empty, and that resolve their
path alike, return the same. -/
lemma Post.agree {c : Call cfg.toPlatform} (hnext : ∀ thread k, c ≠ .next thread k)
    (h : Post cfg src c tr a) (h' : Post cfg src c tr' a')
    (hpath : ∀ path, c.path? = some path → path.Plain ∨ pathOutcome tr = pathOutcome tr')
    (hl : .load false ∉ tr) (hl' : .load false ∉ tr') :
    a.map Value.forgetIterator = a'.map Value.forgetIterator := by
  cases c with
  | closed => exact congrArg _ (Returning.agree ClosedPost.determined h h' hl hl')
  | get thread ipAddress =>
      have hdet : Determined (GetPost cfg src ipAddress) :=
        Parsed.determined fun ip => Opened.determined (LookedUp.determined _ _)
      exact congrArg _ (Returning.agree hdet h h' hl hl')
  | getWithPrefixLen thread ipAddress =>
      have hdet : Determined (GetWithPrefixLenPost cfg src ipAddress) :=
        Parsed.determined fun ip => Opened.determined (LookedUp.determined _ _)
      exact congrArg _ (Returning.agree hdet h h' hl hl')
  | getPath thread ipAddress path =>
      obtain ⟨r, h, rfl⟩ := h
      obtain ⟨r', h', rfl⟩ := h'
      rw [GetPathPost, Parsed] at h h'
      cases hip : parseLookupIp cfg ipAddress with
      | error e =>
          rw [hip] at h h'
          rw [h.2, h'.2]
      | ok ip =>
          rw [hip] at h h'
          have hr : r = r' := Resolved.agree
            (fun p => Opened.determined (LookedUp.determined _ _))
            (fun p => Opened.path?_eq_none fun _ _ => LookedUp.working) h h' (hpath path rfl) hl hl'
          rw [hr]
  | getMany thread ips =>
      exact congrArg _ (Returning.agree (Opened.determined (BatchPost.determined _ _)) h h' hl hl')
  | getManyPath thread ips path =>
      obtain ⟨r, h, rfl⟩ := h
      obtain ⟨r', h', rfl⟩ := h'
      obtain ⟨tr₁, rfl, h₁⟩ := h.open_of_not_closed hl
      obtain ⟨tr₂, rfl, h₂⟩ := h'.open_of_not_closed hl'
      have hr : r = r' := by
        by_cases hbytes : ips.isBytesLikeOrString
        · rw [if_pos hbytes] at h₁ h₂
          exact h₁.2.trans h₂.2.symm
        · rw [if_neg hbytes] at h₁ h₂
          exact Resolved.agree (fun p => BatchPost.determined _ _)
            (fun p tr a hQ => hQ.working.path?_eq_none) h₁ h₂ (hpath path rfl)
            (fun hm => hl (List.mem_cons_of_mem _ hm)) fun hm => hl' (List.mem_cons_of_mem _ hm)
      rw [hr]
  | metadata =>
      have hdet : Determined (MetadataPost src) :=
        Opened.determined (.of_eq fun _ _ h => h.2)
      exact congrArg _ (Returning.agree hdet h h' hl hl')
  | close | exit =>
      have hdet : Determined ClosePost := .of_eq fun _ _ h => h.2
      exact congrArg _ (Returning.agree hdet h h' hl hl')
  | enter =>
      have hdet : Determined EnterPost :=
        Opened.determined (.of_eq fun _ _ h => h.2)
      exact congrArg _ (Returning.agree hdet h h' hl hl')
  | iter =>
      obtain ⟨r, h, rfl⟩ := h
      obtain ⟨r', h', rfl⟩ := h'
      obtain ⟨tr₁, rfl, _, -, h₁⟩ := h.open_of_not_closed hl
      obtain ⟨tr₂, rfl, _, -, h₂⟩ := h'.open_of_not_closed hl'
      cases hnew : ReaderIterator.new cfg.ipnetwork src with
      | error e =>
          rw [hnew] at h₁ h₂
          rw [h₁.2, h₂.2]
      | ok it =>
          rw [hnew] at h₁ h₂
          obtain ⟨k, -, rfl⟩ := h₁
          obtain ⟨k', -, rfl⟩ := h₂
          rfl
  | next thread k => exact absurd rfl (hnext thread k)

/-- Labels of a call that finds the slot empty: it has read nothing but its path. -/
def Idle (tr : List Label) : Prop := ∀ l ∈ tr, l = .load false ∨ ∃ l', l = .path l'

lemma idle_load : Idle [.load false] := fun _ hl => Or.inl (List.mem_singleton.mp hl)

/-- Where a method finds the slot empty, it fails with `err` and has read nothing but its path. -/
def FailsClosed {α : Type} (err : PyErr) (Q : List Label → PyResult α → Prop) : Prop :=
  ∀ tr r, Q tr r → .load false ∈ tr → r = .error err ∧ Idle tr

/-- A method that loads the slot first. -/
lemma Opened.failsClosed {α : Type} {err : PyErr} {Q : List Label → PyResult α → Prop}
    (hQ : ∀ tr r, Q tr r → .load false ∉ tr) : FailsClosed err (Opened err Q) := by
  intro tr r h hl
  obtain ⟨rfl, hr⟩ := h.of_closed hQ hl
  exact ⟨hr, idle_load⟩

/-- A method that parses the address before it loads the slot. -/
lemma Parsed.failsClosed {α : Type} {err : PyErr} {ipAddress : PyObj}
    {Q : IpAddr → List Label → PyResult α → Prop} (hQ : ∀ ip, FailsClosed err (Q ip)) :
    FailsClosed err (Parsed cfg ipAddress Q) := by
  intro tr r h hl
  obtain ⟨ip, h⟩ := Parsed.of_mem h hl
  exact hQ ip tr r h hl

/-- A method that resolves the path before it loads the slot. -/
lemma Resolved.failsClosed {α : Type} {err : PyErr} {path : PathArg}
    {Q : OwnedPath → List Label → PyResult α → Prop} (hQ : ∀ p, FailsClosed err (Q p)) :
    FailsClosed err (Resolved cfg path Q) := by
  intro tr r h hl
  obtain ⟨ls, p, tr₂, rfl, hl, h⟩ := h.load_mem hl
  obtain ⟨hr, hidle⟩ := hQ p tr₂ r h hl
  refine ⟨hr, fun l hmem => ?_⟩
  rcases List.mem_append.mp hmem with hmem | hmem
  · obtain ⟨l', -, rfl⟩ := List.mem_map.mp hmem
    exact Or.inr ⟨l', rfl⟩
  · exact hidle l hmem

/-- A call is its method. -/
lemma Returning.of_closed {α : Type} {f : α → Value} {err : PyErr}
    {Q : List Label → PyResult α → Prop} (hQ : FailsClosed err Q) (h : Returning f Q tr a)
    (hl : .load false ∈ tr) : a = .error err ∧ Idle tr := by
  obtain ⟨r, h, rfl⟩ := h
  obtain ⟨rfl, hidle⟩ := hQ tr r h hl
  exact ⟨rfl, hidle⟩

/-- After its load, `get_many_path` reads its path and looks up the items. -/
lemma GetManyPathPost.failsClosed (ips : BatchArg cfg.toPlatform) (path : PathArg) :
    FailsClosed errClosed (GetManyPathPost cfg src ips path) := by
  refine Opened.failsClosed fun tr r hQ hmem => ?_
  by_cases hbytes : ips.isBytesLikeOrString
  · rw [if_pos hbytes] at hQ
    rw [hQ.1] at hmem
    cases hmem
  · rw [if_neg hbytes] at hQ
    obtain ⟨_, _, _, -, hmem, hQ⟩ := hQ.load_mem hmem
    exact hQ.working.not_load _ hmem

/-- **A call that finds the slot empty** fails with the error of a closed reader, and has read
nothing but its path. -/
lemma Post.of_closed {c : Call cfg.toPlatform} (h : Post cfg src c tr a) (hl : .load false ∈ tr) :
    a = c.closedResult ∧ Idle tr := by
  have hlookedUp : ∀ {α : Type} (ip : IpAddr) (value : PyResult α),
      FailsClosed errClosed (Opened errClosed (LookedUp ip value)) := fun ip value =>
    Opened.failsClosed fun tr r hQ => hQ.working.not_load _
  cases c with
  | closed =>
      obtain ⟨r, ⟨rfl, -⟩ | ⟨rfl, rfl⟩, rfl⟩ := h
      · simp at hl
      · exact ⟨rfl, idle_load⟩
  | get thread ipAddress =>
      have hget : FailsClosed errClosed (GetPost cfg src ipAddress) :=
        Parsed.failsClosed fun ip => hlookedUp ip _
      exact Returning.of_closed hget h hl
  | getWithPrefixLen thread ipAddress =>
      have hget : FailsClosed errClosed (GetWithPrefixLenPost cfg src ipAddress) :=
        Parsed.failsClosed fun ip => hlookedUp ip _
      exact Returning.of_closed hget h hl
  | getPath thread ipAddress path =>
      have hget : FailsClosed errClosed (GetPathPost cfg src ipAddress path) :=
        Parsed.failsClosed fun ip => Resolved.failsClosed fun p => hlookedUp ip _
      exact Returning.of_closed hget h hl
  | getMany thread ips =>
      have hget : FailsClosed errClosed (GetManyPost cfg src ips) :=
        Opened.failsClosed fun tr r hQ => hQ.working.not_load _
      exact Returning.of_closed hget h hl
  | getManyPath thread ips path =>
      exact Returning.of_closed (GetManyPathPost.failsClosed ips path) h hl
  | metadata =>
      have hget : FailsClosed errMetadataClosed (MetadataPost src) :=
        Opened.failsClosed fun tr r hQ => by simp [hQ.1]
      exact Returning.of_closed hget h hl
  | enter =>
      have henter : FailsClosed errReopen EnterPost :=
        Opened.failsClosed fun tr r hQ => by simp [hQ.1]
      exact Returning.of_closed henter h hl
  | iter =>
      have hiter : FailsClosed errClosed (IterPost cfg src) :=
        Opened.failsClosed fun tr r ⟨_, htr, _⟩ => by simp [htr]
      exact Returning.of_closed hiter h hl
  | close =>
      obtain ⟨r, h, rfl⟩ := h
      simp [h.1] at hl
  | exit =>
      obtain ⟨r, h, rfl⟩ := h
      simp [h.1] at hl
  | next thread k =>
      obtain ⟨r, h, rfl⟩ := h
      rw [h] at hl
      simp at hl

/-- A call whose arguments pass the checks before the load does load the slot. -/
lemma Post.loads {c : Call cfg.toPlatform} (h : Post cfg src c tr a) (hc : c.PassesChecks cfg) :
    ∃ b, .load b ∈ tr := by
  cases c with
  | closed =>
      obtain ⟨r, ⟨rfl, -⟩ | ⟨rfl, -⟩, rfl⟩ := h
      · exact ⟨true, List.mem_singleton_self _⟩
      · exact ⟨false, List.mem_singleton_self _⟩
  | get thread ipAddress =>
      obtain ⟨r, h, rfl⟩ := h
      obtain ⟨ip, hip⟩ := hc
      exact (Parsed.of_ok h hip).loads
  | getWithPrefixLen thread ipAddress =>
      obtain ⟨r, h, rfl⟩ := h
      obtain ⟨ip, hip⟩ := hc
      exact (Parsed.of_ok h hip).loads
  | getPath thread ipAddress path =>
      obtain ⟨r, h, rfl⟩ := h
      obtain ⟨⟨ip, hip⟩, p, hp⟩ := hc
      obtain ⟨tr₁, r, ⟨ls, -, -, -, herr⟩, hrest⟩ := Parsed.of_ok h hip
      cases r with
      | error e =>
          have heq := herr e rfl
          rw [hp] at heq
          cases heq
      | ok p =>
          obtain ⟨tr₂, rfl, hQ⟩ := hrest
          obtain ⟨b, hb⟩ := hQ.loads
          exact ⟨b, List.mem_append_right _ hb⟩
  | getMany | getManyPath | metadata | enter | iter =>
      obtain ⟨r, h, rfl⟩ := h
      exact h.loads
  | close | exit | next => exact hc.elim

/-- What the steps of a call have to do with what it returns: `__next__` returns the result of its
step, `__iter__` the number of the iterator that its step has made, and `close` and `__exit__`
empty the slot. -/
def Tells {platform : Platform} : Call platform → List Label → PyResult Value → Prop
  | next _ k, tr, a => ∃ r, tr = [.next k r] ∧ a = r.map .item
  | iter, tr, a => ∀ v, a = .ok v → ∃ k, tr = [.load true, .within (some k)] ∧ v = .iterator k
  | close, tr, a | exit, tr, a => tr = [.store] ∧ a = .ok .none
  | _, _, _ => True

lemma Post.tells {c : Call cfg.toPlatform} (h : Post cfg src c tr a) : c.Tells tr a := by
  cases c with
  | next thread k =>
      obtain ⟨r, h, rfl⟩ := h
      exact ⟨r, h, rfl⟩
  | close | exit =>
      obtain ⟨r, ⟨htr, rfl⟩, rfl⟩ := h
      exact ⟨htr, rfl⟩
  | iter =>
      obtain ⟨r, ⟨-, rfl⟩ | ⟨tr', rfl, made, rfl, h⟩, rfl⟩ := h
      · intro v hv
        cases hv
      · intro v hv
        cases hnew : ReaderIterator.new cfg.ipnetwork src with
        | error e =>
            rw [hnew] at h
            rw [h.2] at hv
            cases hv
        | ok it =>
            rw [hnew] at h
            obtain ⟨k, rfl, rfl⟩ := h
            exact ⟨k, rfl, (Except.ok.inj hv).symm⟩
  | _ => trivial

end Call

/-! ### Closing -/

section Runs

variable {ι : Type} [DecidableEq ι]

/-- What a call has returned tells about its steps. -/
lemma tells_of_run {cfg : Config} {src : ReaderSource} {heap : ℕ → Option PyTuple}
    {es : List (Event ι (Call cfg.toPlatform) Label (PyResult Value))}
    {P : Pool ι (Call cfg.toPlatform) Label ReaderState (PyResult Value)}
    (run : (readerSystem cfg).Run (createReader src heap) es P) {i : ι}
    {c : Call cfg.toPlatform} {tr : List Label} {a : PyResult Value}
    (hret : .ret i c tr a ∈ es) : c.Tells tr a :=
  Call.Post.tells ((readerContract_holds cfg src).post (createReader_inv cfg src heap) run hret)

/-- **Closing is atomic and final**, in every run of any number of callers. The slot holds the
source until a step empties it, and never again; a load sees which. A call whose load found the
source returns what it returns on a reader that is never closed, wherever the closing falls. A
call whose load found the slot empty fails with the error of a closed reader and has read
nothing, and every call with valid arguments loads. An iterator gives the results of its
enumeration one after the other, whether the reader has been closed or not. Iterators are numbered
as they are made; `__iter__` returns the number of its own, `__next__` the result of its step, and
`close` and `__exit__` empty the slot. -/
theorem close_atomic (platform : Platform) (src : ReaderSource) (heap : ℕ → Option PyTuple)
    {es : List (Event ι (Call (createConfig platform src).toPlatform) Label (PyResult Value))}
    {P : Pool ι (Call (createConfig platform src).toPlatform) Label ReaderState (PyResult Value)}
    (run : (readerSystem (createConfig platform src)).Run (createReader src heap) es P) :
    (Closed es ∧ P.shared.reader = none ∨ ¬Closed es ∧ P.shared.reader = some src) ∧
      (∀ e P', (readerSystem (createConfig platform src)).Step P e P' →
        P.shared.reader = none → P'.shared.reader = none) ∧
      (∀ i c b P', (readerSystem (createConfig platform src)).Step P (.step i c (.load b)) P' →
        (b = true ↔ ¬Closed es)) ∧
      (∀ i c tr a, .ret i c tr a ∈ es → .load true ∈ tr →
        ∀ heap' es', ∀ P' : Pool ι _ _ _ _,
          (readerSystem (createConfig platform src)).Run (createReader src heap') es' P' →
          ¬Closed es' → ∀ i' tr' a', .ret i' c tr' a' ∈ es' →
            (∀ path, c.path? = some path → path.Plain ∨ pathOutcome tr = pathOutcome tr') →
            a.map Value.forgetIterator = a'.map Value.forgetIterator) ∧
      (∀ i c tr a, .ret i c tr a ∈ es →
        (c.PassesChecks (createConfig platform src) → ∃ b, .load b ∈ tr) ∧
        (.load false ∈ tr → a = c.closedResult ∧
          ∀ l ∈ tr, l = .load false ∨ ∃ l', l = .path l')) ∧
      (∀ k < P.shared.iterators.length, ∃ it,
        ReaderIterator.new platform.ipnetwork src = .ok it ∧
          nextResults k es = enumerated platform.ipnetwork it (nextResults k es).length) ∧
      es.filterMap Event.made? = List.range P.shared.iterators.length ∧
      ∀ i c tr a, .ret i c tr a ∈ es → c.Tells tr a := by
  have hholds := readerContract_holds (createConfig platform src) src
  have hinv := createReader_inv (createConfig platform src) src
  refine ⟨slot_of_run run, fun e P' hs hslot => ?_, fun i c b P' => load_iff_not_closed run,
    fun i c tr a hret hload heap' es' P' run' hopen i' tr' a' hret' hpath => ?_,
    fun i c tr a hret => ?_, fun k hk => ?_, made_of_run run,
    fun i c tr a => tells_of_run run⟩
  · rcases eventCases run hs with ⟨i, c, l, -, hstep⟩ | ⟨-, hsame, -⟩
    · rcases hstep.slot with ⟨hsame, -⟩ | ⟨hnone, -⟩
      · rw [hsame, hslot]
      · exact hnone
    · rw [hsame, hslot]
  · have hpost := hholds.post (hinv heap) run hret
    have hpost' := hholds.post (hinv heap') run' hret'
    have hl' : .load false ∉ tr' := fun hm =>
      hopen (closed_of_load_false run' (run'.emitted.2 i' c tr' a' hret' _ hm))
    have hl : .load false ∉ tr := fun hm => by
      have hsee := (hpost.of_closed hm).2 _ hload
      rcases hsee with hsee | ⟨_, hsee⟩ <;> cases hsee
    have hnext : ∀ thread k, c ≠ .next thread k := by
      rintro thread k rfl
      obtain ⟨r, h, rfl⟩ := hpost
      rw [h] at hload
      simp at hload
    exact hpost.agree hnext hpost' hpath hl hl'
  · have hpost := hholds.post (hinv heap) run hret
    exact ⟨hpost.loads, hpost.of_closed⟩
  · obtain ⟨it, hnew, hres, -⟩ := (nextResults_of_run run k).2 hk
    exact ⟨it, hnew, hres⟩

/-- A reader that is closed between the load and the lookup of a `get`, and one that is not. -/
theorem close_atomic_duringGet :
    let cfg := createConfig smallPlatform constantSource
    let c : Call cfg.toPlatform := .get 0 (.str (.ofString "192.0.2.1"))
    ∃ es, ∃ P : Pool Bool _ Label ReaderState (PyResult Value),
      (readerSystem cfg).Run (createReader constantSource fun _ => none) es P ∧ Closed es ∧
        ∃ tr a, .ret false c tr a ∈ es ∧ .load true ∈ tr ∧
          a.map Value.forgetIterator
            = ((c.prog cfg).value (createReader constantSource fun _ => none)).map
                Value.forgetIterator := by
  intro cfg c
  have start : (readerSystem cfg).Run (createReader constantSource fun _ => none) [] _ :=
    .nil (ι := Bool)
  have alone := start.exec (i := false) (c := c) rfl trivial
  have loaded := (start.snoc (.call (i := false) (c := c) rfl trivial)).snoc
    (.step (i := false) rfl)
  have closed := loaded.exec (i := true) (c := .close) rfl trivial
  have returned := (closed.snoc (.step (i := false) rfl)).snoc (.ret (i := false) rfl)
  have hstore : (.step true .close .store : Event Bool (Call cfg.toPlatform) Label (PyResult Value))
      ∈ (((readerSystem cfg).prog .close).labels (createReader constantSource fun _ => none)).map
        (.step true .close) := List.mem_cons_self
  have hopen : ∀ i c', (.step i c' .store :
      Event Bool (Call cfg.toPlatform) Label (PyResult Value)) ∉
        [.load true, .lookup (.V4 0xC0000201#32)].map (.step false c) := by simp
  have hret : ∀ {es : List (Event Bool (Call cfg.toPlatform) Label (PyResult Value))} {e},
      e ∈ es ++ [e] := List.mem_append_right _ (List.mem_singleton_self _)
  refine ⟨_, _, returned, ⟨true, .close, ?_⟩, _, _, hret, List.mem_cons_self, ?_⟩
  · exact List.mem_append_left _ (List.mem_append_left _ (List.mem_append_left _
      (List.mem_append_right _ hstore)))
  · refine (close_atomic smallPlatform constantSource _ returned).2.2.2.1 false c _ _ hret
      List.mem_cons_self _ _ _ alone ?_ false _ _ hret fun _ h => nomatch h
    rintro ⟨i, c', h⟩
    rcases List.mem_append.mp h with h | h
    · rcases List.mem_append.mp h with h | h
      · simp at h
      · exact hopen i c' h
    · simp at h

end Runs

end MaxminddbRust
