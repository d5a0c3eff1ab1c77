import MaxminddbRust.Selective

/-!
The grammar of path arguments: which objects `parse_path` accepts and what it makes of them.

* `PyObj.IsPathElement`, `PyObj.ParsedAs`: the elements of the documented grammar, and the element
  of a parsed path that stands for each.
* `signedIndexWord`: the encoding of a negative index on the words of the machine, with its
  checked operations and its casts. `parseElement_int_faithful`: the encoding of integers is
  injective, is what the machine computes and selects what Python's indexing selects.
* `PathObject`: the kinds of objects that a caller may hand over. `parsePath_documented_iff`: on
  which of them the parser does what its error text and its type stub say.
* `pathTupleMatchesOwned_parsePath_iff`: on which tuples the matcher of the path cache, which
  reads the stored items, agrees with the parser, which iterates.
-/

namespace MaxminddbRust

/-! ### The elements of the grammar -/

/-- A string with a UTF-8 text, or an integer that is a machine word, signed or unsigned. -/
def PyObj.IsPathElement (w : ℕ) : PyObj → Prop
  | .str s => ∃ t, s.toStr = some t
  | .int n => isizeMin w ≤ n ∧ n ≤ usizeMax w
  | _ => False

/-- The element of a parsed path stands for the object: a key with its text, an index that is its
value, or an index from the end for a negative one. -/
def PyObj.ParsedAs : PyObj → OwnedPathElement → Prop
  | .str s, .Key t => s.toStr = some t
  | .int n, .Index i => n = i
  | .int n, .IndexFromEnd _ => n < 0
  | _, _ => False

section Elements

variable {w : ℕ} {item item' : PyObj}

/-- A path element is a step that Python's navigation knows. -/
lemma PyObj.isPathElement_iff :
    item.IsPathElement w ↔ ∃ step : Step, step.Accepted w ∧ item = step.toPyObj := by
  constructor
  · intro h
    cases item with
    | str s =>
        obtain ⟨t, ht⟩ := h
        exact ⟨.key s, ⟨t, PyStr.toStr_eq_some_iff.mp ht⟩, rfl⟩
    | int n => exact ⟨.index n, h, rfl⟩
    | _ => exact h.elim
  · rintro ⟨step, h, rfl⟩
    cases step with
    | key s =>
        obtain ⟨t, rfl⟩ := h
        exact ⟨t, PyStr.toStr_ofString t⟩
    | index n => exact h

/-- The parser rejects every other object. -/
lemma parseElement_of_not_isPathElement (h : ¬item.IsPathElement w) :
    parseElement w item = .error errPathElement := by
  cases item with
  | str s =>
      have hs : s.toStr = none := Option.eq_none_iff_forall_ne_some.mpr fun t ht => h ⟨t, ht⟩
      simp [parseElement, PyObj.isBool, PyObj.extractString, PyObj.castInt, hs]
  | int n =>
      have hle := isizeMax_le_usizeMax w
      have hmin : isizeMin w ≤ 0 := by simp [isizeMin]
      rw [PyObj.IsPathElement] at h
      rw [parseElement_int, toIsize, if_neg (by omega), toUsize, if_neg (by omega)]
  | _ => simp [parseElement, PyObj.isBool, PyObj.extractString, PyObj.castInt]

/-- The parser accepts the elements of the grammar, and no other object. -/
lemma exists_parseElement_iff :
    (∃ e, parseElement w item = .ok e) ↔ item.IsPathElement w := by
  constructor
  · rintro ⟨e, he⟩
    by_contra h
    rw [parseElement_of_not_isPathElement h] at he
    cases he
  · intro h
    obtain ⟨step, hstep, rfl⟩ := PyObj.isPathElement_iff.mp h
    exact ⟨_, parseElement_step hstep⟩

/-- An element of a parsed path stands for the object it was made of. -/
lemma parsedAs_of_parseElement {e : OwnedPathElement} (h : parseElement w item = .ok e) :
    item.ParsedAs e := by
  obtain ⟨step, hstep, rfl⟩ := PyObj.isPathElement_iff.mp (exists_parseElement_iff.mp ⟨e, h⟩)
  obtain rfl : stepElement w step = e := Except.ok.inj ((parseElement_step hstep).symm.trans h)
  cases step with
  | key s =>
      obtain ⟨t, rfl⟩ := hstep
      simp [Step.toPyObj, stepElement, PyObj.ParsedAs]
  | index n =>
      rw [stepElement_index hstep]
      by_cases hpos : 0 ≤ n
      · rw [if_pos hpos]
        exact (Int.toNat_of_nonneg hpos).symm
      · rw [if_neg hpos]
        have hneg : n < 0 := by omega
        split <;> exact hneg

/-- Different integers have different elements. -/
lemma stepElement_index_injective {n m : ℤ} (hn : (Step.index n).Accepted w)
    (hm : (Step.index m).Accepted w)
    (h : stepElement w (.index n) = stepElement w (.index m)) : n = m := by
  rw [stepElement_index hn, stepElement_index hm] at h
  obtain ⟨hnmin, -⟩ := hn
  obtain ⟨hmmin, -⟩ := hm
  -- the fallback lies above every index from the end that an integer has
  have hle := isizeMax_le_usizeMax w
  rw [isizeMax] at hle
  rw [isizeMin] at *
  split_ifs at h <;> injection h <;> omega

/-- **The parser is injective**: objects with one element are equal. -/
lemma parseElement_injective {e : OwnedPathElement} (h : parseElement w item = .ok e)
    (h' : parseElement w item' = .ok e) : item = item' := by
  obtain ⟨step, hstep, rfl⟩ := PyObj.isPathElement_iff.mp (exists_parseElement_iff.mp ⟨e, h⟩)
  obtain ⟨step', hstep', rfl⟩ := PyObj.isPathElement_iff.mp (exists_parseElement_iff.mp ⟨e, h'⟩)
  have has := parsedAs_of_parseElement h
  have has' := parsedAs_of_parseElement h'
  cases step with
  | key s =>
      cases e with
      | Key t =>
          cases step' with
          | key s' =>
              rw [Step.toPyObj, Step.toPyObj, PyStr.toStr_eq_some_iff.mp has,
                PyStr.toStr_eq_some_iff.mp has']
          | index n => exact has'.elim
      | _ => exact has.elim
  | index n =>
      cases step' with
      | key s' => cases e <;> first | exact has.elim | exact has'.elim
      | index n' =>
          have heq : stepElement w (.index n) = stepElement w (.index n') :=
            Except.ok.inj (((parseElement_step hstep).symm.trans h).trans
              (h'.symm.trans (parseElement_step hstep')))
          rw [stepElement_index_injective hstep hstep' heq]

end Elements

/-! ### The encoding on the words of the machine -/

section Words

variable {w : ℕ}

/-- `isize::checked_neg`. -/
def isizeCheckedNeg (n : BitVec w) : Option (BitVec w) := if n.negOverflow then none else some (-n)

/-- `isize::checked_sub`. -/
def isizeCheckedSub (n m : BitVec w) : Option (BitVec w) :=
  if n.ssubOverflow m then none else some (n - m)

/-- `signed_index_to_owned_path_element` on words, where a cast to `usize` keeps the bits. -/
def signedIndexWord (n : BitVec w) : OwnedPathElement :=
  if n.toInt ≥ 0 then .Index n.toNat
  else .IndexFromEnd
    ((((isizeCheckedNeg n).bind fun n => isizeCheckedSub n 1).map BitVec.toNat).getD
      (BitVec.allOnes w).toNat)

/-- The value of a word is an `isize`. -/
lemma toIsize_toInt (n : BitVec w) : toIsize w n.toInt = some n.toInt := by
  have hlo := BitVec.le_toInt n
  have hhi := BitVec.toInt_lt (x := n)
  rw [toIsize, isizeMin, isizeMax, if_pos ⟨hlo, by omega⟩]

/-- `checked_neg` is negation where its value is an `isize`. -/
lemma map_toInt_isizeCheckedNeg (n : BitVec w) :
    (isizeCheckedNeg n).map BitVec.toInt = toIsize w (-n.toInt) := by
  have hlo := BitVec.le_toInt n
  rw [isizeCheckedNeg]
  by_cases h : n.negOverflow = true
  · have hmin : n.toInt = -2 ^ (w - 1) := by simpa [BitVec.negOverflow] using h
    rw [if_pos h, toIsize, isizeMax, if_neg (by omega)]
    rfl
  · rw [if_neg h, Option.map_some, ← BitVec.toInt_neg_of_not_negOverflow h, toIsize_toInt]

/-- `checked_sub` is subtraction where its value is an `isize`. -/
lemma map_toInt_isizeCheckedSub (n m : BitVec w) :
    (isizeCheckedSub n m).map BitVec.toInt = toIsize w (n.toInt - m.toInt) := by
  rw [isizeCheckedSub]
  by_cases h : n.ssubOverflow m = true
  · have hout : 2 ^ (w - 1) ≤ n.toInt - m.toInt ∨ n.toInt - m.toInt < -2 ^ (w - 1) := by
      simpa [BitVec.ssubOverflow] using h
    rw [if_pos h, toIsize, isizeMin, isizeMax, if_neg (by omega)]
    rfl
  · rw [if_neg h, Option.map_some, ← BitVec.toInt_sub_of_not_ssubOverflow h, toIsize_toInt]

/-- The cast of a word that is not negative keeps its value. -/
lemma toNat_toInt {n : BitVec w} (h : 0 ≤ n.toInt) : n.toInt.toNat = n.toNat := by
  rw [BitVec.toInt_eq_toNat_cond] at h ⊢
  have := n.isLt
  split at h <;> rename_i hlt
  · rw [if_pos hlt, Int.toNat_natCast]
  · omega

/-- **The encoding never overflows**: the checked operations and the casts of the machine give
the element of the word's value. -/
lemma signedIndexWord_eq (hw : 2 ≤ w) (n : BitVec w) :
    signedIndexWord n = signedIndexToOwnedPathElement w n.toInt := by
  rw [signedIndexWord, signedIndexToOwnedPathElement]
  by_cases hpos : n.toInt ≥ 0
  · rw [if_pos hpos, if_pos hpos, toNat_toInt hpos]
  · rw [if_neg hpos, if_neg hpos, ← map_toInt_isizeCheckedNeg, BitVec.toNat_allOnes]
    cases hneg : isizeCheckedNeg n with
    | none => rfl
    | some m =>
        have hone : (1 : BitVec w).toInt = 1 := BitVec.toInt_one (by omega)
        have hm : m.toInt = -n.toInt := by
          have h := map_toInt_isizeCheckedNeg n
          rw [hneg, eq_comm, Option.map_some, toIsize_eq_some_iff] at h
          exact h.2.symm
        rw [Option.bind_some, Option.map_some, Option.bind_some, ← hone,
          ← map_toInt_isizeCheckedSub]
        cases hsub : isizeCheckedSub m 1 with
        | none => rfl
        | some k =>
            have hk : k.toInt = m.toInt - 1 := by
              have h := map_toInt_isizeCheckedSub m 1
              rw [hsub, hone, eq_comm, Option.map_some, toIsize_eq_some_iff] at h
              exact h.2.symm
            rw [Option.map_some, Option.map_some, Option.map_some, toNat_toInt (by omega)]
            rfl

/-- The index of an accepted integer is a word. -/
lemma stepElement_index_lt {n : ℤ} (hn : (Step.index n).Accepted w) {i : ℕ}
    (h : stepElement w (.index n) = .Index i ∨ stepElement w (.index n) = .IndexFromEnd i) :
    i < 2 ^ w := by
  rw [stepElement_index hn] at h
  obtain ⟨hmin, hmax⟩ := hn
  have hle := isizeMax_le_usizeMax w
  have hword : usizeMax w < 2 ^ w := Nat.sub_lt Nat.one_le_two_pow Nat.one_pos
  rw [isizeMax] at hle
  rw [isizeMin] at hmin
  split_ifs at h <;> simp at h <;> omega

/-- Python has the element at its position, and at its position less the length. -/
lemma pyIndex_eq_some {α : Type} {xs : List α} {n : ℤ} {i : ℕ} (hi : i < xs.length)
    (hn : n = i ∨ n = i - xs.length) : pyIndex xs n = some xs[i] := by
  rw [pyIndex]
  rcases hn with rfl | rfl
  · rw [if_pos (by omega), Int.toNat_natCast, List.getElem?_eq_getElem hi]
  · rw [if_neg (by omega), if_pos (by omega), Int.sub_add_cancel, Int.toNat_natCast,
      List.getElem?_eq_getElem hi]

/-- Python has no element further out on either side. -/
lemma pyIndex_eq_none {α : Type} {xs : List α} {n : ℤ}
    (hn : n < -xs.length ∨ xs.length ≤ n) : pyIndex xs n = none := by
  rw [pyIndex]
  by_cases hpos : 0 ≤ n
  · rw [if_pos hpos, List.getElem?_eq_none (by omega)]
  · rw [if_neg hpos, if_neg (by omega)]

/-- **The encoding of integers is faithful at every word width**: the parser accepts the words,
signed and unsigned; it encodes different integers differently, by operations that neither wrap
nor overflow, into indices that are words; and in an array that fits in memory the element
selects what Python's indexing selects, from the end for a negative integer, and nothing where
the integer is out of range. -/
theorem parseElement_int_faithful (hw : 2 ≤ w) :
    (∀ n : ℤ, (∃ e, parseElement w (.int n) = .ok e) ↔ -2 ^ (w - 1) ≤ n ∧ n ≤ 2 ^ w - 1) ∧
      (∀ n m e, parseElement w (.int n) = .ok e → parseElement w (.int m) = .ok e → n = m) ∧
      (∀ n : BitVec w, signedIndexWord n = signedIndexToOwnedPathElement w n.toInt) ∧
      (∀ n e i, parseElement w (.int n) = .ok e → e = .Index i ∨ e = .IndexFromEnd i →
        i < 2 ^ w) ∧
      ∀ {α : Type} (xs : List α), xs.length < 2 ^ (w - 1) →
        ∀ n e, parseElement w (.int n) = .ok e →
          ∃ pe, pathElementsFromOwnedPath [e] = [pe] ∧
            (∀ i (hi : i < xs.length), n = i ∨ n = i - xs.length →
              selectIndex xs pe = some xs[i]) ∧
            (n < -xs.length ∨ xs.length ≤ n → selectIndex xs pe = none) := by
  have haccepted : ∀ {n e}, parseElement w (.int n) = .ok e →
      (Step.index n).Accepted w ∧ stepElement w (.index n) = e := fun {n e} h => by
    have hn : (Step.index n).Accepted w := exists_parseElement_iff.mp ⟨e, h⟩
    exact ⟨hn, Except.ok.inj ((parseElement_step hn).symm.trans h)⟩
  refine ⟨fun n => ?_, fun n m e h h' => ?_, signedIndexWord_eq hw, fun n e i h hi => ?_,
    fun xs hxs n e h => ?_⟩
  · rw [exists_parseElement_iff, PyObj.IsPathElement, isizeMin, usizeMax,
      Nat.cast_sub Nat.one_le_two_pow]
    push_cast
    rfl
  · exact PyObj.int.inj (parseElement_injective h h')
  · obtain ⟨hn, rfl⟩ := haccepted h
    exact stepElement_index_lt hn hi
  · obtain ⟨hn, rfl⟩ := haccepted h
    have hfits : xs.length ≤ isizeMax w := by
      rw [isizeMax]
      have : (xs.length : ℤ) < 2 ^ (w - 1) := by exact_mod_cast hxs
      omega
    refine ⟨stepPathElement w (.index n), pathElementsFromOwnedPath_map [.index n],
      fun i hi hni => ?_, fun hout => ?_⟩
    · rw [selectIndex_step hfits hn, pyIndex_eq_some hi hni]
    · rw [selectIndex_step hfits hn, pyIndex_eq_none hout]

/-- The last of three elements, and the least `isize`. -/
theorem parseElement_int_faithful_three :
    (∃ e pe, parseElement 64 (.int (-1)) = .ok e ∧ pathElementsFromOwnedPath [e] = [pe] ∧
      selectIndex [10, 20, 30] pe = some 30) ∧
    ∃ e pe, parseElement 64 (.int (-2 ^ 63)) = .ok e ∧ pathElementsFromOwnedPath [e] = [pe] ∧
      selectIndex [10, 20, 30] pe = none := by
  obtain ⟨hacc, -, -, -, hsel⟩ := parseElement_int_faithful (show 2 ≤ 64 by decide)
  constructor
  · obtain ⟨e, he⟩ := (hacc (-1)).mpr (by decide)
    obtain ⟨pe, hpe, hin, -⟩ := hsel [10, 20, 30] (by decide) _ e he
    exact ⟨e, pe, he, hpe, hin 2 (by decide) (.inr (by decide))⟩
  · obtain ⟨e, he⟩ := (hacc (-2 ^ 63)).mpr (by decide)
    obtain ⟨pe, hpe, -, hout⟩ := hsel [10, 20, 30] (by decide) _ e he
    exact ⟨e, pe, he, hpe, hout (.inl (by decide))⟩

end Words

/-! ### The parser over an iteration -/

section Iterations

variable {w : ℕ} {items : List PyObj}

/-- Items that are path elements are parsed one by one, up to the exception that ends the
iteration if there is one. -/
lemma parseItems_of_forall (h : ∀ item ∈ items, item.IsPathElement w) :
    ∃ path, List.Forall₂ PyObj.ParsedAs items path ∧
      ∀ acc, parseItems w none items acc = .ok (acc ++ path) ∧
        ∀ e, parseItems w (some e) items acc = .error e := by
  induction items with
  | nil => exact ⟨[], .nil, fun acc => ⟨by simp [parseItems], fun e => rfl⟩⟩
  | cons item items ih =>
      obtain ⟨path, hpath, hparse⟩ := ih fun item' h' => h item' (List.mem_cons_of_mem _ h')
      obtain ⟨e, he⟩ := exists_parseElement_iff.mpr (h item List.mem_cons_self)
      refine ⟨e :: path, .cons (parsedAs_of_parseElement he) hpath, fun acc => ?_⟩
      simpa [parseItems, he] using hparse (acc ++ [e])

/-- The parser stops at the first item that is no path element. -/
lemma parseItems_of_exists (h : ∃ item ∈ items, ¬item.IsPathElement w) (raises : Option PyErr)
    (acc : OwnedPath) : parseItems w raises items acc = .error errPathElement := by
  induction items generalizing acc with
  | nil => simp at h
  | cons item items ih =>
      rw [parseItems]
      by_cases hitem : item.IsPathElement w
      · obtain ⟨e, he⟩ := exists_parseElement_iff.mpr hitem
        obtain ⟨item', hmem, hnot⟩ := h
        rw [he]
        refine ih ⟨item', (List.mem_cons.mp hmem).resolve_left ?_, hnot⟩ _
        rintro rfl
        exact hnot hitem
      · rw [parseElement_of_not_isPathElement hitem]

/-- Iteration to the end is accepted iff all its items are path elements. -/
lemma exists_parseItems_iff :
    (∃ path, parseItems w none items [] = .ok path) ↔ ∀ item ∈ items, item.IsPathElement w := by
  constructor
  · rintro ⟨path, hpath⟩
    by_contra h
    push Not at h
    rw [parseItems_of_exists h] at hpath
    cases hpath
  · intro h
    obtain ⟨path, -, hparse⟩ := parseItems_of_forall h
    exact ⟨path, by simpa using (hparse []).1⟩

/-- Items with one parsed path are equal. -/
lemma parseItems_injective : ∀ {items items' : List PyObj} {path : OwnedPath},
    parseItems w none items [] = .ok path → parseItems w none items' [] = .ok path →
    items = items'
  | [], [], _, _, _ => rfl
  | [], item :: items, path, h, h' => by
      obtain ⟨e, rest, -, -, rfl⟩ := parseItems_nil_cons_eq_ok_iff.mp h'
      simp [parseItems] at h
  | item :: items, [], path, h, h' => by
      obtain ⟨e, rest, -, -, rfl⟩ := parseItems_nil_cons_eq_ok_iff.mp h
      simp [parseItems] at h'
  | item :: items, item' :: items', path, h, h' => by
      obtain ⟨e, rest, he, hrest, rfl⟩ := parseItems_nil_cons_eq_ok_iff.mp h
      obtain ⟨e', rest', he', hrest', heq⟩ := parseItems_nil_cons_eq_ok_iff.mp h'
      obtain ⟨rfl, rfl⟩ := List.cons.inj heq
      rw [parseElement_injective he he', parseItems_injective hrest hrest']

end Iterations

/-! ### What a caller may hand over -/

/-- A Python object as an argument of `parse_path`, by its kind. A `set` and a `dict` yield their
elements and keys, `bytes` its integers, a generator and any other iterable what they like; so
does a list or a tuple of a class that overrides `__iter__`, if it is still iterable. -/
inductive PathObject where
  | list (items : List PyObj)
  | listOverriding (override : Option Iteration)
  | tuple (t : PyTuple) (override : Option Iteration)
  | str (s : PyStr)
  | bytes (b : List UInt8)
  | set (elements : List PyObj)
  | dict (keys : List PyObj)
  | generator (iter : Iteration)
  | iterable (iter : Iteration)
  | notIterable

namespace PathObject

/-- The argument as the code looks at it. -/
def toPathArg : PathObject → PathArg
  | list items => .list items
  | listOverriding (some iter) => .iterable iter
  | listOverriding none => .notIterable
  | tuple t override => .tuple t override
  | str s => .str s
  | bytes b => .iterable ⟨b.map fun byte => .int byte.toNat, none⟩
  | set elements => .iterable ⟨elements, none⟩
  | dict keys => .iterable ⟨keys, none⟩
  | generator iter => .iterable iter
  | iterable iter => .iterable iter
  | notIterable => .notIterable

/-- The object is a list or a tuple. -/
def IsListOrTuple : PathObject → Prop
  | list _ => True
  | listOverriding _ => True
  | tuple _ _ => True
  | _ => False

/-- The iteration that the parser makes: none of a `str`, which it rejects before, and none of
what is not iterable. -/
def iteration (p : PathObject) : Option Iteration :=
  match p with
  | .str _ => none
  | p => p.toPathArg.tryIter

/-- The elements of a list or a tuple: the items of its iteration, which comes to its end. -/
def HasElements (p : PathObject) (items : List PyObj) : Prop :=
  p.IsListOrTuple ∧ p.iteration = some ⟨items, none⟩

/-- What the parser's error text and the stub of `get_path` say: a list or a tuple whose elements
are strings or integers is accepted, with one element of the path for each of its own; everything
else raises `TypeError`. -/
structure ParsesAsDocumented (w : ℕ) (p : PathObject) : Prop where
  accepts : (∃ path, parsePath w p.toPathArg = .ok path) ↔
    ∃ items, p.HasElements items ∧ ∀ item ∈ items, item.IsPathElement w
  elements : ∀ path, parsePath w p.toPathArg = .ok path →
    ∃ items, p.HasElements items ∧ List.Forall₂ PyObj.ParsedAs items path
  rejects : ∀ e, parsePath w p.toPathArg = .error e → ∃ message, e = .typeError message

/-- An iteration of the object yields something that is no path element, or raises `TypeError`
itself, or comes to its end if the object is a list or a tuple. Only other iterables fail this
that yield path elements alone, and objects whose own iteration raises another exception. -/
def Conforms (w : ℕ) (p : PathObject) : Prop :=
  ∀ iter, p.iteration = some iter →
    (∃ item ∈ iter.items, ¬item.IsPathElement w) ∨
      (∃ message, iter.raises = some (.typeError message)) ∨
      p.IsListOrTuple ∧ iter.raises = none

lemma parsePath_toPathArg (w : ℕ) (p : PathObject) :
    parsePath w p.toPathArg = match p.iteration with
      | none => .error errPathSequence
      | some iter => parseItems w iter.raises iter.items [] := by
  cases p with
  | listOverriding override => cases override <;> rfl
  | _ => rfl

section Documented

variable {w : ℕ} {p : PathObject}

/-- An object that raises `TypeError` is treated as documented if it has no elements, or one
among them that is no path element. -/
lemma ParsesAsDocumented.of_rejected {message : Text}
    (hp : parsePath w p.toPathArg = .error (.typeError message))
    (h : ∀ items, p.HasElements items → ∃ item ∈ items, ¬item.IsPathElement w) :
    p.ParsesAsDocumented w where
  accepts := by
    rw [hp]
    constructor
    · rintro ⟨path, hpath⟩
      cases hpath
    · rintro ⟨items, hitems, hall⟩
      obtain ⟨item, hmem, hnot⟩ := h items hitems
      exact absurd (hall item hmem) hnot
  elements path hpath := by
    rw [hp] at hpath
    cases hpath
  rejects e he := by
    rw [hp] at he
    cases he
    exact ⟨message, rfl⟩

/-- A list or a tuple of path elements is treated as documented. -/
lemma ParsesAsDocumented.of_hasElements {items : List PyObj} (h : p.HasElements items)
    (hall : ∀ item ∈ items, item.IsPathElement w) : p.ParsesAsDocumented w := by
  obtain ⟨path, hpath, hparse⟩ := parseItems_of_forall hall
  have hp : parsePath w p.toPathArg = .ok path := by
    rw [parsePath_toPathArg, h.2]
    simpa using (hparse []).1
  refine ⟨⟨fun _ => ⟨items, h, hall⟩, fun _ => ⟨path, hp⟩⟩, fun path' hpath' => ?_, fun e he => ?_⟩
  · obtain rfl : path = path' := Except.ok.inj (hp.symm.trans hpath')
    exact ⟨items, h, hpath⟩
  · rw [hp] at he
    cases he

/-- An object that is treated as documented conforms. -/
lemma ParsesAsDocumented.conforms (h : p.ParsesAsDocumented w) : p.Conforms w := by
  intro iter hiter
  by_cases hall : ∃ item ∈ iter.items, ¬item.IsPathElement w
  · exact .inl hall
  · refine .inr ?_
    push Not at hall
    obtain ⟨path, -, hparse⟩ := parseItems_of_forall hall
    have hp : parsePath w p.toPathArg = parseItems w iter.raises iter.items [] := by
      rw [parsePath_toPathArg, hiter]
    cases hraises : iter.raises with
    | none =>
        rw [hraises, (hparse []).1] at hp
        obtain ⟨items, ⟨hseq, -⟩, -⟩ := h.accepts.mp ⟨_, hp⟩
        exact .inr ⟨hseq, rfl⟩
    | some e =>
        rw [hraises, (hparse []).2 e] at hp
        obtain ⟨message, rfl⟩ := h.rejects e hp
        exact .inl ⟨message, rfl⟩

/-- An object that conforms is treated as documented. -/
lemma Conforms.parsesAsDocumented (h : p.Conforms w) : p.ParsesAsDocumented w := by
  cases hiter : p.iteration with
  | none =>
      have hp : parsePath w p.toPathArg = .error errPathSequence := by
        rw [parsePath_toPathArg, hiter]
      refine .of_rejected hp fun items hitems => ?_
      rw [HasElements, hiter] at hitems
      cases hitems.2
  | some iter =>
      have hp : parsePath w p.toPathArg = parseItems w iter.raises iter.items [] := by
        rw [parsePath_toPathArg, hiter]
      have helements : ∀ items, p.HasElements items → iter = ⟨items, none⟩ := fun items hitems =>
        Option.some.inj (hiter.symm.trans hitems.2)
      by_cases hall : ∃ item ∈ iter.items, ¬item.IsPathElement w
      · refine .of_rejected (hp.trans (parseItems_of_exists hall _ _)) fun items hitems => ?_
        rw [helements items hitems] at hall
        exact hall
      · have hyields : ∀ item ∈ iter.items, item.IsPathElement w := by
          push Not at hall
          exact hall
        rcases (h iter hiter).resolve_left hall with ⟨message, hraises⟩ | ⟨hseq, hraises⟩
        · obtain ⟨path, -, hparse⟩ := parseItems_of_forall hyields
          rw [hraises] at hp
          refine .of_rejected (hp.trans ((hparse []).2 _)) fun items hitems => ?_
          rw [helements items hitems] at hraises
          cases hraises
        · refine .of_hasElements ⟨hseq, ?_⟩ hyields
          rw [hiter, ← hraises]

end Documented

/-- **The documented grammar and the code**: the parser does what is documented exactly on the
objects that conform. -/
theorem parsePath_documented_iff (w : ℕ) (p : PathObject) :
    p.ParsesAsDocumented w ↔ p.Conforms w :=
  ⟨fun h => h.conforms, fun h => h.parsesAsDocumented⟩

/-- A `set` of one string, and `bytes`, are accepted as paths. -/
theorem parsePath_accepts_set :
    ¬(set [.str (.ofString "country")]).ParsesAsDocumented 64 ∧
      ¬(bytes [1]).ParsesAsDocumented 64 := by
  constructor
  · intro h
    have hp : parsePath 64 (set [.str (.ofString "country")]).toPathArg = .ok [.Key "country"] := by
      simp [toPathArg, parsePath, PathArg.tryIter, parseItems, parseElement, PyObj.isBool,
        PyObj.extractString]
    obtain ⟨items, ⟨hseq, -⟩, -⟩ := h.accepts.mp ⟨_, hp⟩
    exact hseq
  · intro h
    have hp : parsePath 64 (bytes [1]).toPathArg = .ok [.Index 1] := rfl
    obtain ⟨items, ⟨hseq, -⟩, -⟩ := h.accepts.mp ⟨_, hp⟩
    exact hseq

end PathObject

/-! ### The matcher and the parser -/

section Matcher

variable {w : ℕ} {t : PyTuple} {override : Option Iteration}

/-- What a tuple yields agrees with what it stores: its class does not override `__iter__`, or the
iteration yields the stored items and they are path elements, or neither the stored items nor
those of an iteration that comes to its end are all path elements. -/
def PyTuple.IterationAgrees (w : ℕ) (t : PyTuple) (override : Option Iteration) : Prop :=
  t.plain = true ∨
    (∀ item ∈ t.items, item.IsPathElement w) ∧ override = some ⟨t.items, none⟩ ∨
    (∃ item ∈ t.items, ¬item.IsPathElement w) ∧
      ∀ items, override = some ⟨items, none⟩ → ∃ item ∈ items, ¬item.IsPathElement w

/-- A tuple of a class that overrides `__iter__` is parsed from what its iteration yields. -/
lemma parsePath_tuple_override (h : ¬t.plain = true) {path : OwnedPath} :
    parsePath w (.tuple t override) = .ok path ↔
      ∃ items, override = some ⟨items, none⟩ ∧ parseItems w none items [] = .ok path := by
  cases override with
  | none => simp [parsePath, PathArg.tryIter, h]
  | some iter =>
      obtain ⟨items, raises⟩ := iter
      have hp : parsePath w (.tuple t (some ⟨items, raises⟩)) = parseItems w raises items [] := by
        simp [parsePath, PathArg.tryIter, h]
      rw [hp]
      cases raises with
      | none => simp
      | some e =>
          by_cases hall : ∀ item ∈ items, item.IsPathElement w
          · obtain ⟨path', -, hparse⟩ := parseItems_of_forall hall
            simp [(hparse []).2 e]
          · push Not at hall
            simp [parseItems_of_exists hall]

/-- **The matcher and the parser**: they agree on a tuple, for every cached path, exactly if its
iteration agrees with its stored items. -/
theorem pathTupleMatchesOwned_parsePath_iff (w : ℕ) (t : PyTuple) (override : Option Iteration) :
    (∀ cached, pathTupleMatchesOwned w t cached = true ↔
        parsePath w (.tuple t override) = .ok cached) ↔ t.IterationAgrees w override := by
  by_cases hplain : t.plain = true
  · refine ⟨fun _ => .inl hplain, fun _ cached => ?_⟩
    rw [pathTupleMatchesOwned_iff, parsePath_tuple_of_plain hplain]
  · simp only [pathTupleMatchesOwned_iff, parsePath_tuple_override hplain]
    by_cases hstored : ∀ item ∈ t.items, item.IsPathElement w
    · obtain ⟨path, hpath⟩ := exists_parseItems_iff.mpr hstored
      constructor
      · intro h
        obtain ⟨items, hover, hitems⟩ := (h path).mp hpath
        rw [parseItems_injective hitems hpath] at hover
        exact .inr (.inl ⟨hstored, hover⟩)
      · rintro (h | ⟨-, rfl⟩ | ⟨⟨item, hmem, hnot⟩, -⟩)
        · exact absurd h hplain
        · simp
        · exact absurd (hstored item hmem) hnot
    · have hreject : ∀ cached, parseItems w none t.items [] ≠ .ok cached := fun cached hcached =>
        hstored (exists_parseItems_iff.mp ⟨cached, hcached⟩)
      push Not at hstored
      constructor
      · intro h
        refine .inr (.inr ⟨hstored, fun items hover => ?_⟩)
        by_contra hall
        push Not at hall
        obtain ⟨path, hpath⟩ := exists_parseItems_iff.mpr hall
        exact hreject path ((h path).mpr ⟨items, hover, hpath⟩)
      · rintro (h | ⟨hall, -⟩ | ⟨-, hover⟩) cached
        · exact absurd h hplain
        · obtain ⟨item, hmem, hnot⟩ := hstored
          exact absurd (hall item hmem) hnot
        · refine ⟨fun h => absurd h (hreject cached), ?_⟩
          rintro ⟨items, hiter, hitems⟩
          obtain ⟨item, hmem, hnot⟩ := hover items hiter
          exact absurd (exists_parseItems_iff.mp ⟨cached, hitems⟩ item hmem) hnot

/-- A tuple that stores `0` and iterates to `1`: the matcher finds the path of `0`, the parser
makes the path of `1`. -/
theorem pathTupleMatchesOwned_ne_parsePath :
    let t : PyTuple := ⟨0, [.int 0], false⟩
    let override : Option Iteration := some ⟨[.int 1], none⟩
    pathTupleMatchesOwned 64 t [.Index 0] = true ∧
      parsePath 64 (.tuple t override) = .ok [.Index 1] ∧
      ¬∀ cached, pathTupleMatchesOwned 64 t cached = true ↔
        parsePath 64 (.tuple t override) = .ok cached := by
  intro t override
  have hmatch : pathTupleMatchesOwned 64 t [.Index 0] = true := by decide
  have hparse : parsePath 64 (.tuple t override) = .ok [.Index 1] := rfl
  refine ⟨hmatch, hparse, fun h => ?_⟩
  have hsame := hparse.symm.trans ((h [.Index 0]).mp hmatch)
  simp at hsame

end Matcher

end MaxminddbRust
