import MaxminddbRust.Net
import Mathlib.Data.Int.Notation

/-!
The Python side of the binding: strings, errors and objects, as far as the code looks at them.

* `PyStr`: a `str` is a list of code points, lone surrogates included; `toStr` is
  `PyString::to_str`, which fails on them, and `fromBytes` is `PyString::from_bytes`, which
  decodes UTF-8. `toStr_eq_some_iff` and `fromBytes_eq_ok_iff` say when they succeed.
* `MaxMindDbError`, `PyErr`: the crate's errors and the exceptions the binding raises. A message
  is a list of pieces, so that `format!` keeps the value it was given.
* `PyObj`: an object. Decoded records use the first eight forms; `object` is any other object, a
  record of what the code reads off it.
-/

namespace MaxminddbRust

/-! ### Strings -/

/-- A code point, lone surrogates included. -/
abbrev CodePoint := Fin 0x110000

/-- A Python `str`. -/
structure PyStr where
  codePoints : List CodePoint
  deriving DecidableEq, Repr

/-- The code point of a character. -/
def CodePoint.ofChar (c : Char) : CodePoint := ⟨c.toNat, by
  have h := c.valid
  simp only [UInt32.isValidChar, Nat.isValidChar] at h
  show c.val.toNat < 0x110000
  omega⟩

/-- The character at a code point; a surrogate has none. -/
def CodePoint.toChar? (c : CodePoint) : Option Char :=
  if h : Nat.isValidChar c.val then some (Char.ofNatAux c.val h) else none

@[simp] lemma CodePoint.toChar?_ofChar (c : Char) : (CodePoint.ofChar c).toChar? = some c := by
  have h : Nat.isValidChar c.toNat := c.valid
  rw [toChar?, dif_pos (show Nat.isValidChar (CodePoint.ofChar c).val from h)]
  exact congrArg some (Char.ext (UInt32.toNat_inj.mp rfl))

lemma CodePoint.toChar?_eq_some_iff {p : CodePoint} {c : Char} :
    p.toChar? = some c ↔ p = CodePoint.ofChar c := by
  refine ⟨fun h => ?_, fun h => h ▸ toChar?_ofChar c⟩
  rw [toChar?] at h
  by_cases hp : Nat.isValidChar p.val
  · rw [dif_pos hp] at h
    cases h
    exact Fin.ext rfl
  · rw [dif_neg hp] at h
    cases h

namespace PyStr

/-- The `str` with the characters of a string. -/
def ofString (s : String) : PyStr := ⟨s.toList.map CodePoint.ofChar⟩

/-- `PyString::to_str`: the UTF-8 text of a `str`, which a lone surrogate does not have. -/
def toStr (s : PyStr) : Option String := (s.codePoints.mapM CodePoint.toChar?).map String.ofList

@[simp] lemma toStr_ofString (s : String) : (ofString s).toStr = some s := by
  have h : ∀ l : List Char, (l.map CodePoint.ofChar).mapM CodePoint.toChar? = some l := by
    intro l
    induction l with
    | nil => rfl
    | cons c l ih => simp [ih]
  simp [toStr, ofString, h]

/-- The characters at the code points determine them. -/
lemma eq_map_of_mapM_toChar? : ∀ (l : List CodePoint) (cs : List Char),
    l.mapM CodePoint.toChar? = some cs → l = cs.map CodePoint.ofChar
  | [], cs, h => by cases h; rfl
  | p :: l, cs, h => by
      simp only [List.mapM_cons, Option.pure_def, Option.bind_eq_bind,
        Option.bind_eq_some_iff, Option.some.injEq] at h
      obtain ⟨c, hc, cs', hcs', rfl⟩ := h
      rw [List.map_cons, CodePoint.toChar?_eq_some_iff.mp hc, ← eq_map_of_mapM_toChar? l cs' hcs']

/-- A `str` that has a UTF-8 text is the `str` of that text. -/
lemma toStr_eq_some_iff {p : PyStr} {s : String} : p.toStr = some s ↔ p = ofString s := by
  refine ⟨fun h => ?_, fun h => h ▸ toStr_ofString s⟩
  rw [toStr, Option.map_eq_some_iff] at h
  obtain ⟨cs, hcs, rfl⟩ := h
  rw [ofString, String.toList_ofList, ← eq_map_of_mapM_toChar? _ _ hcs]

lemma ofString_injective : Function.Injective ofString := fun s t h => by
  have hs := toStr_ofString s
  rw [h, toStr_ofString] at hs
  exact (Option.some.inj hs).symm

end PyStr

/-- The UTF-8 bytes of a string, `str::as_bytes`. -/
def utf8Bytes (s : String) : List UInt8 := s.toByteArray.data.toList

/-! ### Errors -/

/-- The `UnicodeDecodeError` that decoding the bytes raises. -/
structure UnicodeDecodeError where
  bytes : List UInt8
  deriving DecidableEq, Repr

/-- The text of an error of the maxminddb crate: a message, or the text of an exception that a
visitor turned into an error of the crate. -/
inductive Message where
  | text (s : String)
  | pyErr (e : UnicodeDecodeError)
  deriving DecidableEq, Repr

/-- `maxminddb::MaxMindDbError`: the variants the binding tells apart, and the others. -/
inductive MaxMindDbError where
  | InvalidDatabase (message : Message)
  | Decoding (message : Message)
  | ResourceLimit (message : Message)
  | Other (message : Message)
  deriving DecidableEq, Repr

/-- A piece of a formatted text. -/
inductive Piece where
  | str (s : String)
  | err (e : MaxMindDbError)
  | ip (a : IpAddr)
  deriving DecidableEq, Repr

/-- A formatted text. -/
abbrev Text := List Piece

/-- A Python exception: those the binding makes, those its conversions raise, a Rust panic and
whatever Python code it calls raises. The last one is none: the process is aborted, so that the
call neither returns nor raises. -/
inductive PyErr where
  | typeError (message : Text)
  | valueError (message : Text)
  | osError (message : Text)
  | invalidDatabaseError (message : Text)
  | unicodeEncodeError (s : PyStr)
  | panicException (message : String)
  | raised (id : ℕ)
  | aborted
  deriving DecidableEq, Repr

/-- `PyResult`. -/
abbrev PyResult (α : Type) := Except PyErr α

namespace PyStr

/-- `PyString::from_bytes`: the `str` that the bytes encode in UTF-8. -/
def fromBytes (bytes : List UInt8) : Except UnicodeDecodeError PyStr :=
  match String.fromUTF8? bytes.toByteArray with
  | some s => .ok (ofString s)
  | none => .error ⟨bytes⟩

/-- The bytes encode a text in UTF-8. -/
def ValidUtf8 (bytes : List UInt8) : Prop := bytes.toByteArray.IsValidUTF8

instance (bytes : List UInt8) : Decidable (ValidUtf8 bytes) :=
  inferInstanceAs (Decidable bytes.toByteArray.IsValidUTF8)

lemma fromUTF8?_eq_some_iff {b : ByteArray} {s : String} :
    String.fromUTF8? b = some s ↔ s.toByteArray = b := by
  refine ⟨fun h => ?_, fun h => ?_⟩
  · rw [String.fromUTF8?] at h
    split at h
    · cases h; rfl
    · cases h
  · subst h
    rw [String.fromUTF8?, dif_pos s.isValidUTF8]
    rfl

/-- `from_bytes` succeeds with the `str` whose UTF-8 encoding the bytes are. -/
lemma fromBytes_eq_ok_iff {bytes : List UInt8} {p : PyStr} :
    fromBytes bytes = .ok p ↔ ∃ s, utf8Bytes s = bytes ∧ p = ofString s := by
  refine ⟨fun h => ?_, ?_⟩
  · rw [fromBytes] at h
    split at h
    · rename_i s hs
      cases h
      refine ⟨s, ?_, rfl⟩
      rw [utf8Bytes, fromUTF8?_eq_some_iff.mp hs, List.toList_data_toByteArray]
    · cases h
  · rintro ⟨s, rfl, rfl⟩
    have hs : String.fromUTF8? (utf8Bytes s).toByteArray = some s := by
      refine fromUTF8?_eq_some_iff.mpr (ByteArray.ext (Array.toList_inj.mp ?_))
      rw [List.toList_data_toByteArray]
      rfl
    rw [fromBytes, hs]

lemma fromBytes_utf8Bytes (s : String) : fromBytes (utf8Bytes s) = .ok (ofString s) :=
  fromBytes_eq_ok_iff.mpr ⟨s, rfl, rfl⟩

/-- `from_bytes` fails exactly on what is not UTF-8. -/
lemma fromBytes_eq_error_iff {bytes : List UInt8} {e : UnicodeDecodeError} :
    fromBytes bytes = .error e ↔ ¬ValidUtf8 bytes ∧ e = ⟨bytes⟩ := by
  rw [fromBytes, String.fromUTF8?, ValidUtf8]
  by_cases h : bytes.toByteArray.IsValidUTF8
  · simp [h]
  · simp [h, eq_comm]

end PyStr

/-! ### Objects -/

/-- An object that is not one of the built-in values: the name of its class, its attribute `_ip`
as an integer (none where it is missing or no integer), and what PyO3's conversion to an
address makes of it. -/
structure PyInstance where
  typeName : PyResult String
  ip : Option ℤ
  extractIp : PyResult IpAddr

/-- A Python object. Instances of subclasses of `str` and `int` are `str` and `int`. -/
inductive PyObj where
  | none
  | bool (b : Bool)
  | int (n : ℤ)
  | float (x : Float)
  | str (s : PyStr)
  | bytes (b : List UInt8)
  | list (items : List PyObj)
  | dict (items : List (PyStr × PyObj))
  | object (o : PyInstance)

end MaxminddbRust
