import MaxminddbRust.Reader

/-!
Objects of the module `ipaddress` and their texts.

* `ipv4Text`: the text of an IPv4 address; `utf8Bytes_ipv4Text`: it is dotted decimal.
* `IpAddressObject`: an address object, as an object that the binding looks at (`toPyObj`) and as
  its text (`text`). How Python writes an IPv6 address is a parameter, with `ReadsIpv6` saying
  that std reads it.
* `SameAddress`: an object and its text, or an object and itself;
  `SameAddress.parseLookupIp_eq`: they are parsed alike.
* `address_eq_text`: an address object and its text are interchangeable in every method;
  `address_ne_text_scoped`: not so with a scope id or under another class name.
-/

namespace MaxminddbRust

open Concurrent

/-! ### The text of an IPv4 address -/

/-- The octets of an IPv4 address. -/
def ipv4Octets (ip : BitVec 32) : Vector UInt8 4 :=
  #v[⟨ip.extractLsb' 24 8⟩, ⟨ip.extractLsb' 16 8⟩, ⟨ip.extractLsb' 8 8⟩, ⟨ip.extractLsb' 0 8⟩]

lemma ipv4OfOctets_ipv4Octets (ip : BitVec 32) : ipv4OfOctets (ipv4Octets ip) = ip := by
  show ip.extractLsb' 24 8 ++ ip.extractLsb' 16 8 ++ ip.extractLsb' 8 8 ++ ip.extractLsb' 0 8 = ip
  rw [BitVec.extractLsb'_append_extractLsb'_eq_extractLsb' (by omega),
    BitVec.extractLsb'_append_extractLsb'_eq_extractLsb' (by omega),
    BitVec.extractLsb'_append_extractLsb'_eq_extractLsb' (by omega)]
  exact BitVec.extractLsb'_eq_self

/-- `str` of an `IPv4Address`: its octets in decimal, with dots between them. -/
def ipv4Text (ip : BitVec 32) : String :=
  let octets := ipv4Octets ip
  (octets.get 0).toNat.repr ++ "." ++ (octets.get 1).toNat.repr ++ "." ++
    (octets.get 2).toNat.repr ++ "." ++ (octets.get 3).toNat.repr

lemma utf8Bytes_append (s t : String) : utf8Bytes (s ++ t) = utf8Bytes s ++ utf8Bytes t := by
  simp [utf8Bytes, String.toByteArray_append]

lemma utf8Bytes_eq_flatMap (s : String) : utf8Bytes s = s.toList.flatMap String.utf8EncodeChar := by
  rw [utf8Bytes, ← String.utf8Encode_toList, List.utf8Encode, List.toList_data_toByteArray]

/-- The bytes of a numeral are its digits. -/
lemma utf8Bytes_repr (n : ℕ) : utf8Bytes n.repr = Decimal.digits n := by
  have hchar : ∀ c ∈ Nat.toDigits 10 n, String.utf8EncodeChar c = [Decimal.charByte c] := by
    intro c hc
    have hdigit :=
      Char.isDigit_iff_toNat.mp (Nat.isDigit_of_mem_toDigits (by omega) (by omega) hc)
    have h57 : c.toNat ≤ 57 := hdigit.2
    have hsize : c.utf8Size = 1 :=
      Char.utf8Size_eq_one_iff.mpr (UInt32.le_iff_toNat_le.mpr (Nat.le_trans h57 (by decide)))
    rw [String.utf8EncodeChar_eq_singleton hsize]
    rfl
  calc utf8Bytes n.repr = (Nat.toDigits 10 n).flatMap String.utf8EncodeChar := by
        rw [utf8Bytes_eq_flatMap, Nat.toList_repr]
    _ = (Nat.toDigits 10 n).flatMap fun c => [Decimal.charByte c] := List.flatMap_congr hchar
    _ = Decimal.digits n := List.map_eq_flatMap.symm

/-- The text of an IPv4 address is its dotted decimal text. -/
lemma utf8Bytes_ipv4Text (ip : BitVec 32) :
    utf8Bytes (ipv4Text ip) = dottedDecimal (ipv4Octets ip) := by
  have hdot : utf8Bytes "." = [dot] := by decide
  simp only [ipv4Text, utf8Bytes_append, utf8Bytes_repr, hdot, dottedDecimal, List.append_assoc,
    List.cons_append, List.nil_append]
  rfl

/-! ### Texts that are no IPv4 address -/

/-- Dotted decimal texts consist of digits and dots. -/
lemma mem_dottedDecimal {octets : Vector UInt8 4} {b : UInt8} (h : b ∈ dottedDecimal octets) :
    b = dot ∨ 48 ≤ b.toNat ∧ b.toNat ≤ 57 := by
  simp only [dottedDecimal, List.mem_append, List.mem_cons] at h
  rcases h with h | h | h | h | h | h | h
  · exact Or.inr (Decimal.mem_digits h)
  · exact Or.inl h
  · exact Or.inr (Decimal.mem_digits h)
  · exact Or.inl h
  · exact Or.inr (Decimal.mem_digits h)
  · exact Or.inl h
  · exact Or.inr (Decimal.mem_digits h)

lemma mem_utf8Bytes {s : String} {c : Char} (hc : c ∈ s.toList) {b : UInt8}
    (hb : b ∈ String.utf8EncodeChar c) : b ∈ utf8Bytes s := by
  rw [utf8Bytes_eq_flatMap]
  exact List.mem_flatMap.mpr ⟨c, hc, hb⟩

/-- A text with a colon or a percent sign is no IPv4 address. -/
lemma StdParser.StrictV4.eq_none {std : StdParser} (hstd : std.StrictV4) {s : String}
    (h : ':' ∈ s.toList ∨ '%' ∈ s.toList) : std.v4 s = none := by
  cases hv4 : std.v4 s with
  | none => rfl
  | some ip =>
      obtain ⟨octets, hbytes, -⟩ := (hstd s ip).mp hv4
      have hbyte : ∃ b ∈ utf8Bytes s, b = 58 ∨ b = 37 := by
        rcases h with h | h
        · exact ⟨58, mem_utf8Bytes h (by decide), Or.inl rfl⟩
        · exact ⟨37, mem_utf8Bytes h (by decide), Or.inr rfl⟩
      obtain ⟨b, hb, hcases⟩ := hbyte
      rw [hbytes] at hb
      rcases hcases with rfl | rfl <;> exact absurd (mem_dottedDecimal hb) (by decide)

/-! ### Address objects -/

/-- Python's text of an unscoped IPv6 address, as far as the parser of std is concerned: it reads
the address back, the text has a colon, and what has a percent sign is no IPv6 address. -/
structure StdParser.ReadsIpv6 (std : StdParser) (ipv6Text : BitVec 128 → String) : Prop where
  text : ∀ ip, std.v6 (ipv6Text ip) = some ip
  colon : ∀ ip, ':' ∈ (ipv6Text ip).toList
  percent : ∀ s, '%' ∈ s.toList → std.v6 s = none

/-- An instance of `ipaddress.IPv4Address` or `ipaddress.IPv6Address` that inherits its text
form: the name of its class, its numeric value, the scope id of an IPv6 address, and what PyO3's
conversion to an address makes of it. -/
inductive IpAddressObject where
  | ipv4 (className : String) (ip : BitVec 32) (extractIp : PyResult IpAddr)
  | ipv6 (className : String) (ip : BitVec 128) (scopeId : Option String)
      (extractIp : PyResult IpAddr)

namespace IpAddressObject

/-- The name of its class is that of the class in the module `ipaddress`. -/
def Named : IpAddressObject → Prop
  | ipv4 className _ _ => className = "IPv4Address"
  | ipv6 className _ _ _ => className = "IPv6Address"

/-- The address. -/
def value : IpAddressObject → IpAddr
  | ipv4 _ ip _ => .V4 ip
  | ipv6 _ ip _ _ => .V6 ip

def scopeId : IpAddressObject → Option String
  | ipv4 _ _ _ => none
  | ipv6 _ _ scopeId _ => scopeId

/-- The object as the binding looks at it. Its attribute `_ip` is its numeric value. -/
def toPyObj : IpAddressObject → PyObj
  | ipv4 className ip extractIp => .object ⟨.ok className, some ip.toNat, extractIp⟩
  | ipv6 className ip _ extractIp => .object ⟨.ok className, some ip.toNat, extractIp⟩

/-- `str` of the object. -/
def text (ipv6Text : BitVec 128 → String) : IpAddressObject → String
  | ipv4 _ ip _ => ipv4Text ip
  | ipv6 _ ip none _ => ipv6Text ip
  | ipv6 _ ip (some scopeId) _ => ipv6Text ip ++ "%" ++ scopeId

end IpAddressObject

lemma extractUInt_toNat {n : ℕ} (x : BitVec n) : extractUInt n (some x.toNat) = some x := by
  show (if x.toNat < 2 ^ n then some (BitVec.ofNat n x.toNat) else none) = some x
  rw [if_pos x.isLt, BitVec.ofNat_toNat, BitVec.setWidth_eq]

/-- The object branch reads the address off the object. -/
lemma parseIpAddress_toPyObj (std : StdParser) {a : IpAddressObject} (ha : a.Named) :
    parseIpAddress std a.toPyObj = .ok a.value := by
  cases a with
  | ipv4 className ip extractIp =>
      obtain rfl : className = "IPv4Address" := ha
      simp [parseIpAddress, IpAddressObject.toPyObj, IpAddressObject.value, extractUInt_toNat]
  | ipv6 className ip scopeId extractIp =>
      obtain rfl : className = "IPv6Address" := ha
      simp [parseIpAddress, IpAddressObject.toPyObj, IpAddressObject.value, extractUInt_toNat]

lemma parseIpAddress_ofString (std : StdParser) (s : String) :
    parseIpAddress std (.str (.ofString s)) = parseIpString std s := by
  rw [parseIpAddress, PyStr.toStr_ofString]

section Text

variable {std : StdParser} {ipv6Text : BitVec 128 → String}

/-- The string branch reads the address off the text. -/
lemma parseIpString_text (hstd : std.StrictV4) (h6 : std.ReadsIpv6 ipv6Text)
    {a : IpAddressObject} (ha : a.scopeId = none) :
    parseIpString std (a.text ipv6Text) = .ok a.value := by
  cases a with
  | ipv4 className ip extractIp =>
      show parseIpString std (ipv4Text ip) = .ok (.V4 ip)
      rw [parseIpString, utf8Bytes_ipv4Text, parseIpv4String_dottedDecimal,
        ipv4OfOctets_ipv4Octets]
  | ipv6 className ip scopeId extractIp =>
      obtain rfl : scopeId = none := ha
      show parseIpString std (ipv6Text ip) = .ok (.V6 ip)
      rw [parseIpString_eq hstd, StdParser.parse, hstd.eq_none (Or.inl (h6.colon ip)), h6.text]
      rfl

/-- The string branch rejects the text of an address with a scope id. -/
lemma parseIpString_text_scoped (hstd : std.StrictV4) (h6 : std.ReadsIpv6 ipv6Text)
    {a : IpAddressObject} {scopeId : String} (ha : a.scopeId = some scopeId) :
    parseIpString std (a.text ipv6Text) = .error (errNotAnAddress (a.text ipv6Text)) := by
  cases a with
  | ipv4 className ip extractIp => cases ha
  | ipv6 className ip scopeId' extractIp =>
      obtain rfl : scopeId' = some scopeId := ha
      have hpercent : '%' ∈ (ipv6Text ip ++ "%" ++ scopeId).toList := by
        rw [String.toList_append, String.toList_append]
        exact List.mem_append_left _ (List.mem_append_right _ (by decide))
      show parseIpString std (ipv6Text ip ++ "%" ++ scopeId)
        = .error (errNotAnAddress (ipv6Text ip ++ "%" ++ scopeId))
      rw [parseIpString_eq hstd, StdParser.parse, hstd.eq_none (Or.inr hpercent),
        h6.percent _ hpercent]
      rfl

end Text

/-! ### The methods -/

/-- Two lists of items, an array of them and a container of them, related item by item. -/
def BatchArg.Related {platform : Platform} (R : PyObj → PyObj → Prop) :
    BatchArg platform → BatchArg platform → Prop
  | list a, list b => List.Forall₂ R a.items b.items
  | tuple a, tuple b => List.Forall₂ R a.items b.items
  | iterable len iter, iterable len' iter' =>
      len = len' ∧ iter.raises = iter'.raises ∧ List.Forall₂ R iter.items iter'.items
  | bytesLike, bytesLike => True
  | notIterable, notIterable => True
  | _, _ => False

section Methods

variable {cfg : Config} {R : PyObj → PyObj → Prop}

lemma fromItemsLoop_congr (hR : ∀ x y, R x y → parseLookupIp cfg x = parseLookupIp cfg y)
    (single : IpAddr → Method PyObj) {xs ys : List PyObj} (h : List.Forall₂ R xs ys) :
    ∀ objects, fromItemsLoop cfg single objects xs = fromItemsLoop cfg single objects ys := by
  induction h with
  | nil => exact fun _ => rfl
  | @cons x y xs ys hxy _ ih =>
      intro objects
      simp only [fromItemsLoop, hR x y hxy, ih]

lemma iteratorLoop_congr (hR : ∀ x y, R x y → parseLookupIp cfg x = parseLookupIp cfg y)
    (single : IpAddr → Method PyObj) (raises : Option PyErr) {xs ys : List PyObj}
    (h : List.Forall₂ R xs ys) :
    ∀ objects,
      iteratorLoop cfg single raises objects xs = iteratorLoop cfg single raises objects ys := by
  induction h with
  | nil => exact fun _ => rfl
  | @cons x y xs ys hxy _ ih =>
      intro objects
      simp only [iteratorLoop, hR x y hxy, ih]

/-- A batch looks at its items through `parse_lookup_ip` alone. -/
lemma batch_congr (hR : ∀ x y, R x y → parseLookupIp cfg x = parseLookupIp cfg y)
    (single : IpAddr → Method PyObj) {ips ips' : BatchArg cfg.toPlatform} (h : ips.Related R ips') :
    batch cfg single ips = batch cfg single ips' ∧
      ips.isBytesLikeOrString = ips'.isBytesLikeOrString := by
  have hitems : ∀ a b : ItemArray cfg.toPlatform, List.Forall₂ R a.items b.items →
      fromItems cfg single a = fromItems cfg single b := by
    intro a b hab
    rw [fromItems, fromItems, hab.length_eq, fromItemsLoop_congr hR single hab]
  cases ips <;> cases ips' <;> try exact h.elim
  case list.list a b => exact ⟨hitems a b h, rfl⟩
  case tuple.tuple a b => exact ⟨hitems a b h, rfl⟩
  case iterable.iterable len iter len' iter' =>
      obtain ⟨rfl, hraises, hab⟩ := h
      refine ⟨?_, rfl⟩
      rw [batch, batch, hraises, iteratorLoop_congr hR single _ hab]
  case bytesLike.bytesLike => exact ⟨rfl, rfl⟩
  case notIterable.notIterable => exact ⟨rfl, rfl⟩

end Methods

section Interchange

variable {std : StdParser} {ipv6Text : BitVec 128 → String}

/-- `y` is `x`, or `x` is an address object without a scope id and `y` is its text. -/
inductive SameAddress (ipv6Text : BitVec 128 → String) : PyObj → PyObj → Prop
  | refl (x : PyObj) : SameAddress ipv6Text x x
  | text {a : IpAddressObject} (named : a.Named) (unscoped : a.scopeId = none) :
      SameAddress ipv6Text a.toPyObj (.str (.ofString (a.text ipv6Text)))

/-- An address object and its text are parsed alike. -/
lemma SameAddress.parseLookupIp_eq (hstd : std.StrictV4) (h6 : std.ReadsIpv6 ipv6Text)
    {cfg : Config} (hcfg : cfg.std = std) {x y : PyObj} (h : SameAddress ipv6Text x y) :
    parseLookupIp cfg x = parseLookupIp cfg y := by
  cases h with
  | refl => rfl
  | text named unscoped =>
      rw [parseLookupIp, parseLookupIp, hcfg, parseIpAddress_toPyObj std named,
        parseIpAddress_ofString, parseIpString_text hstd h6 unscoped]

/-- **An address object and its text are interchangeable**, where the class of the object has
the name of its family's class. The object is parsed to its address whether it has a scope id or
not; a text with a scope id is rejected. Without one, the text is parsed to the same address, so
that the two make the same program of every method, wherever they stand in a batch. -/
theorem address_eq_text (hstd : std.StrictV4) (h6 : std.ReadsIpv6 ipv6Text) {a : IpAddressObject}
    (ha : a.Named) :
    parseIpAddress std a.toPyObj = .ok a.value ∧
      (∀ scopeId, a.scopeId = some scopeId →
        parseIpAddress std (.str (.ofString (a.text ipv6Text)))
          = .error (errNotAnAddress (a.text ipv6Text))) ∧
      (a.scopeId = none → parseIpAddress std (.str (.ofString (a.text ipv6Text))) = .ok a.value ∧
        ∀ cfg : Config, cfg.std = std → ∀ thread,
          get cfg thread a.toPyObj = get cfg thread (.str (.ofString (a.text ipv6Text))) ∧
          (∀ path, getPath cfg thread a.toPyObj path
            = getPath cfg thread (.str (.ofString (a.text ipv6Text))) path) ∧
          getWithPrefixLen cfg thread a.toPyObj
            = getWithPrefixLen cfg thread (.str (.ofString (a.text ipv6Text)))) ∧
      ∀ cfg : Config, cfg.std = std → ∀ thread ips ips',
        BatchArg.Related (SameAddress ipv6Text) ips ips' →
          getMany cfg thread ips = getMany cfg thread ips' ∧
            ∀ path, getManyPath cfg thread ips path = getManyPath cfg thread ips' path := by
  refine ⟨parseIpAddress_toPyObj std ha, fun scopeId hscope => ?_, fun hscope => ⟨?_, ?_⟩, ?_⟩
  · rw [parseIpAddress_ofString, parseIpString_text_scoped hstd h6 hscope]
  · rw [parseIpAddress_ofString, parseIpString_text hstd h6 hscope]
  · intro cfg hcfg thread
    have hparse := (SameAddress.text ha hscope).parseLookupIp_eq hstd h6 hcfg
    refine ⟨?_, fun path => ?_, ?_⟩
    · rw [get, get, hparse]
    · rw [getPath, getPath, hparse]
    · rw [getWithPrefixLen, getWithPrefixLen, hparse]
  · intro cfg hcfg thread ips ips' hips
    have hR : ∀ x y, SameAddress ipv6Text x y → parseLookupIp cfg x = parseLookupIp cfg y :=
      fun _ _ h => h.parseLookupIp_eq hstd h6 hcfg
    have hbatch := fun single => batch_congr hR single hips
    refine ⟨?_, fun path => ?_⟩
    · simp only [getMany, (hbatch _).1, (hbatch fun _ => .ret (.ok .none)).2]
    · simp only [getManyPath, (hbatch _).1, (hbatch fun _ => .ret (.ok .none)).2]

/-- The text of the addresses below `::a`, in decimal. -/
def smallIpv6Text (ip : BitVec 128) : String := "::" ++ ip.toNat.repr

/-- A parser that reads these texts. -/
def smallStd : StdParser := .strict fun s =>
  if '%' ∈ s.toList then none
  else match s.toList with
    | ':' :: ':' :: cs => some (BitVec.ofNat 128 (Nat.ofDigitChars 10 cs 0))
    | _ => none

lemma smallStd_readsIpv6 : smallStd.ReadsIpv6 smallIpv6Text where
  text ip := by
    have hlist : (smallIpv6Text ip).toList = ':' :: ':' :: ip.toNat.repr.toList := by
      rw [smallIpv6Text, String.toList_append]
      rfl
    have hpercent : '%' ∉ (smallIpv6Text ip).toList := by
      rw [hlist, Nat.toList_repr]
      intro h
      have hdigit : '%' ∈ Nat.toDigits 10 ip.toNat := by simpa using h
      exact absurd (Nat.isDigit_of_mem_toDigits (by omega) (by omega) hdigit) (by decide)
    show (if '%' ∈ (smallIpv6Text ip).toList then none else _) = some ip
    rw [if_neg hpercent, hlist]
    simp only [Nat.toList_repr, Nat.ofDigitChars_ten_toDigits, BitVec.ofNat_toNat,
      BitVec.setWidth_eq]
  colon ip := by
    rw [smallIpv6Text, String.toList_append]
    exact List.mem_append_left _ (by decide)
  percent s h := if_pos h

/-- The object and the text of the address `::1`. -/
theorem address_eq_text_loopback :
    parseIpAddress smallStd (.str (.ofString "::1")) = .ok (.V6 1) :=
  ((address_eq_text (StdParser.strictV4_strict _) smallStd_readsIpv6
    (a := .ipv6 "IPv6Address" 1 none (.ok (.V6 1))) rfl).2.2.1 rfl).1

/-- An object of the address `::1` with the scope id `eth0` is parsed and its text is not; an
object of a subclass under another name is not parsed and its text is. -/
theorem address_ne_text_scoped :
    let loopback : IpAddressObject := .ipv6 "IPv6Address" 1 (some "eth0") (.ok (.V6 1))
    let host : IpAddressObject := .ipv4 "Host" 0xC0000201 (.ok (.V4 0xC0000201))
    (smallStd.StrictV4 ∧ smallStd.ReadsIpv6 smallIpv6Text) ∧
      (loopback.text smallIpv6Text = "::1%eth0" ∧
        parseIpAddress smallStd loopback.toPyObj = .ok (.V6 1) ∧
        parseIpAddress smallStd (.str (.ofString "::1%eth0"))
          = .error (errNotAnAddress "::1%eth0")) ∧
      (host.text smallIpv6Text = "192.0.2.1" ∧
        parseIpAddress smallStd host.toPyObj = .error errAddressType ∧
        parseIpAddress smallStd (.str (.ofString "192.0.2.1")) = .ok (.V4 0xC0000201)) :=
  ⟨⟨StdParser.strictV4_strict _, smallStd_readsIpv6⟩, ⟨rfl, rfl, rfl⟩, ⟨rfl, rfl, rfl⟩⟩

end Interchange

end MaxminddbRust
