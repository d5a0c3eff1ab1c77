import MaxminddbRust.ReaderSystem

/-!
The length that an iterable of addresses reports for itself.

* `getMany_of_reserves`, `getManyPath_of_reserves`: a length for whose pointers room can be
  reserved makes no difference to the program of a batch, and so to no run of it among others.
* `lengthHint_ignored_iff`: the runs with a length and without one are the same exactly then;
  otherwise the batch panics, or the process is aborted, before it asks for the first item.
-/

namespace MaxminddbRust

open Concurrent
open Concurrent.Prog

section Batch

variable {cfg : Config} {single : IpAddr → Method PyObj} {iter : Iteration}

/-- The length of an iterable makes no difference to a batch made alone in a state. -/
def LengthIgnored (cfg : Config) (method : BatchArg cfg.toPlatform → Method (List PyObj))
    (s : ReaderState) (len : ℕ) (iter : Iteration) : Prop :=
  (method (.iterable (some len) iter)).exec s = (method (.iterable none iter)).exec s

/-- The loop asks for an item first. -/
lemma labels_iteratorLoop (raises : Option PyErr) (objects items : List PyObj) (s : ReaderState) :
    ∃ tr, (iteratorLoop cfg single raises objects items).labels s = .pull :: tr := by
  cases items <;> exact ⟨_, rfl⟩

/-- Without a length, the vector of the results starts without capacity. -/
lemma batch_of_none :
    batch cfg single (.iterable none iter) = iteratorLoop cfg single iter.raises [] iter.items := by
  rw [batch, Option.getD_none, withCapacity_of_reserves (reserves_zero _)]

/-- A length for whose pointers there is room makes no difference. -/
lemma batch_of_reserves {len : ℕ} (h : cfg.toPlatform.Reserves len) :
    batch cfg single (.iterable (some len) iter) = batch cfg single (.iterable none iter) := by
  rw [batch_of_none, batch, Option.getD_some, withCapacity_of_reserves h]

/-- Where there is none, the vector cannot be made. -/
lemma withCapacity_of_not_reserves {platform : Platform} {n : ℕ} (h : ¬platform.Reserves n) :
    ∃ e, withCapacity platform n = .error e := by
  rw [withCapacity]
  by_cases hsize : platform.pointerBytes n < 2 ^ (platform.wordBits - 1)
  · rw [if_pos hsize, if_neg fun hroom => h ⟨hsize, hroom⟩]
    exact ⟨_, rfl⟩
  · rw [if_neg hsize]
    exact ⟨_, rfl⟩

lemma batch_lengthIgnored_iff {len : ℕ} {s : ReaderState} :
    LengthIgnored cfg (batch cfg single) s len iter ↔ cfg.toPlatform.Reserves len := by
  constructor
  · intro h
    by_contra hnot
    obtain ⟨e, he⟩ := withCapacity_of_not_reserves hnot
    have hbatch : batch cfg single (.iterable (some len) iter) = .ret (.error e) := by
      rw [batch, Option.getD_some, he]
    rw [LengthIgnored, hbatch, batch_of_none] at h
    -- the batch ends at once, before the iterator is asked for anything
    obtain ⟨tr, htr⟩ := labels_iteratorLoop iter.raises [] iter.items s
    have hlabels : [] = .pull :: tr := (congrArg Prod.fst h).trans htr
    cases hlabels
  · intro h
    rw [LengthIgnored, batch_of_reserves h]

end Batch

/-! ### The methods -/

section Methods

variable {cfg : Config} {len : ℕ}

/-- `get_many` of an iterable. -/
lemma getMany_iterable (thread : ℕ) (len : Option ℕ) (iter : Iteration) :
    getMany cfg thread (.iterable len iter) = (load errClosed).andThen fun reader =>
      batch cfg (lookupStep thread reader) (.iterable len iter) := rfl

/-- `get_many_path` of an iterable. -/
lemma getManyPath_iterable (thread : ℕ) (len : Option ℕ) (iter : Iteration) (path : PathArg) :
    getManyPath cfg thread (.iterable len iter) path = (load errClosed).andThen fun reader =>
      (pathStep cfg path).andThen fun ownedPath =>
        batch cfg (lookupPathStep thread reader (pathElementsFromOwnedPath ownedPath))
          (.iterable len iter) := rfl

/-- A length for whose pointers there is room makes no difference to `get_many`. -/
theorem getMany_of_reserves (h : cfg.toPlatform.Reserves len) (thread : ℕ) (iter : Iteration) :
    getMany cfg thread (.iterable (some len) iter) = getMany cfg thread (.iterable none iter) := by
  simp only [getMany_iterable, batch_of_reserves h]

/-- A length for whose pointers there is room makes no difference to `get_many_path`. -/
theorem getManyPath_of_reserves (h : cfg.toPlatform.Reserves len) (thread : ℕ) (iter : Iteration)
    (path : PathArg) :
    getManyPath cfg thread (.iterable (some len) iter) path
      = getManyPath cfg thread (.iterable none iter) path := by
  simp only [getManyPath_iterable, batch_of_reserves h]

end Methods

section Open

variable {platform : Platform} {src : ReaderSource} {s : ReaderState}

/-- What a method loads from the slot of an open reader. -/
lemma value_load (hs : s.Open platform src) (err : PyErr) : (load err).value s = .ok src := by
  rw [load, value_atom, hs.slot]
  rfl

lemma final_load (err : PyErr) (s : ReaderState) : (load err).final s = s := rfl

/-- A path that the parser accepts is resolved, whatever the cache holds. -/
lemma value_pathStep (hs : s.Open platform src) {path : PathArg} {p : OwnedPath}
    (hp : parsePath platform.wordBits path = .ok p) (alive : path.Alive s.pathCache) :
    ∃ ownedPath, (pathStep (createConfig platform src) path).value s = .ok ownedPath := by
  obtain ⟨⟨ls, -, -, -, herr⟩, -⟩ := exec_post hs.reachable.inv ⟨hs.slot, alive⟩ (fun _ h => h.1)
    (pathStep_honours (stable_open_alive _ src path) fun _ h => h.2)
  cases hr : (pathStep (createConfig platform src) path).value s with
  | ok ownedPath => exact ⟨ownedPath, rfl⟩
  | error e =>
      have hreject : parsePath platform.wordBits path = .error e := herr e hr
      rw [hp] at hreject
      cases hreject

end Open

end MaxminddbRust
