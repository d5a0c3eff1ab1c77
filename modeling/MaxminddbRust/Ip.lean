import MaxminddbRust.Python
import MaxminddbRust.Data.Decimal

/-!
`ip.rs`: addresses from strings and from `ipaddress` objects.

* `scanByte`, `scanLoop`, `parseIpv4String`: the one-pass IPv4 scanner, with every checked
  operation of the source (`octets[octet_index]`, the `u16` and `u8` arithmetic) failing where
  the source would panic.
* `Scanned`: the loop invariant, what has been read and what the four variables say about it.
* `parseIpv4String_eq_some_iff`: the scanner accepts exactly the dotted decimal texts;
  `scanLoop_bounds`: it never panics, and its variables stay within their bounds.
* `StdParser`, `parseIpString`, `parseIpAddress`: the rest of the module, over the parser of std.
-/

namespace MaxminddbRust

/-! ### The IPv4 scanner -/

/-- Where Rust panics. -/
inductive Panic where
  | overflow
  | indexOutOfBounds
  deriving DecidableEq, Repr

/-- The arithmetic of an unsigned integer type with the given maximum. -/
def checkedUInt (max : ℕ) (n : ℕ) : Except Panic ℕ := if n ≤ max then .ok n else .error .overflow

/-- Subtraction of unsigned integers. -/
def checkedSub (a b : ℕ) : Except Panic ℕ := if b ≤ a then .ok (a - b) else .error .overflow

/-- The variables of the loop of `parse_ipv4_string`. -/
structure ScanState where
  octets : Vector UInt8 4
  octetIndex : ℕ
  value : ℕ
  digits : ℕ
  deriving DecidableEq, Repr

/-- `octets[octet_index] = value as u8`. -/
def ScanState.storeOctet (st : ScanState) : Except Panic (Vector UInt8 4) :=
  if h : st.octetIndex < 4 then .ok (st.octets.set st.octetIndex (UInt8.ofNat st.value) h)
  else .error .indexOutOfBounds

/-- The byte `b'.'`. -/
def dot : UInt8 := 46

/-- The body of the loop; `none` is an early `return None`. -/
def scanByte (st : ScanState) (byte : UInt8) : Except Panic (Option ScanState) :=
  if byte = dot then
    if st.digits = 0 ∨ st.octetIndex = 3 then .ok none
    else do
      let octets ← st.storeOctet
      return some ⟨octets, st.octetIndex + 1, 0, 0⟩
  else if ¬(48 ≤ byte ∧ byte ≤ 57) then .ok none
  else if st.digits = 1 ∧ st.value = 0 then .ok none
  else do
    let digits ← checkedUInt 2147483647 (st.digits + 1)
    if digits > 3 then return none
    let tens ← checkedUInt 65535 (st.value * 10)
    let digit ← checkedSub byte.toNat 48
    let value ← checkedUInt 65535 (tens + digit)
    if value > 255 then return none
    return some ⟨st.octets, st.octetIndex, value, digits⟩

/-- The loop over the bytes. -/
def scanLoop (st : ScanState) : List UInt8 → Except Panic (Option ScanState)
  | [] => .ok (some st)
  | byte :: bytes => match scanByte st byte with
      | .error p => .error p
      | .ok none => .ok none
      | .ok (some st) => scanLoop st bytes

/-- The variables before the loop. -/
def ScanState.init : ScanState := ⟨Vector.replicate 4 0, 0, 0, 0⟩

/-- `Ipv4Addr::from([u8; 4])`. -/
def ipv4OfOctets (octets : Vector UInt8 4) : BitVec 32 :=
  octets[0].toBitVec ++ octets[1].toBitVec ++ octets[2].toBitVec ++ octets[3].toBitVec

/-- `parse_ipv4_string`. -/
def parseIpv4String (bytes : List UInt8) : Except Panic (Option (BitVec 32)) :=
  match scanLoop ScanState.init bytes with
  | .error p => .error p
  | .ok none => .ok none
  | .ok (some st) =>
      if st.octetIndex ≠ 3 ∨ st.digits = 0 then .ok none
      else match st.storeOctet with
        | .error p => .error p
        | .ok octets => .ok (some (ipv4OfOctets octets))

/-! ### The loop invariant -/

/-- The bytes of the octets `os`, each with the dot behind it. -/
def dotted (os : List UInt8) : List UInt8 := os.flatMap fun o => Decimal.digits o.toNat ++ [dot]

/-- **The loop invariant**: `read` is the octets stored so far, each with the dot behind it, and
then the digits of the current octet, of which there are none or the numeral of the value. -/
structure Scanned (read : List UInt8) (st : ScanState) : Prop where
  index : st.octetIndex ≤ 3
  value : st.value ≤ 255
  digits : st.digits ≤ 3
  stored : ∃ current, read = dotted (st.octets.toList.take st.octetIndex) ++ current ∧
    st.digits = current.length ∧
    (current = [] ∧ st.value = 0 ∨ current = Decimal.digits st.value)

lemma scanned_init : Scanned [] ScanState.init :=
  ⟨by decide, by decide, by decide, [], rfl, rfl, Or.inl ⟨rfl, rfl⟩⟩

lemma ScanState.storeOctet_eq {st : ScanState} (h : st.octetIndex ≤ 3) :
    st.storeOctet
      = .ok (st.octets.set st.octetIndex (UInt8.ofNat st.value) (by omega)) := by
  rw [storeOctet, dif_pos (by omega)]

/-- Storing an octet extends the stored ones by it. -/
lemma take_set_succ (octets : Vector UInt8 4) {i : ℕ} (h : i < 4) (o : UInt8) :
    (octets.set i o h).toList.take (i + 1) = octets.toList.take i ++ [o] := by
  have hlen : octets.toList.length = 4 := by simp
  rw [Vector.toList_set, List.take_add_one, List.take_set_of_le (Nat.le_refl i)]
  simp [hlen, h]

lemma dotted_concat (os : List UInt8) (o : UInt8) :
    dotted (os ++ [o]) = dotted os ++ Decimal.digits o.toNat ++ [dot] := by
  simp [dotted]

/-- A dot ends the current octet. -/
lemma Scanned.dot {read : List UInt8} {st : ScanState} (h : Scanned read st) (hd : st.digits ≠ 0)
    (hi : st.octetIndex < 3) :
    Scanned (read ++ [dot])
      ⟨st.octets.set st.octetIndex (UInt8.ofNat st.value) (by omega), st.octetIndex + 1, 0, 0⟩ := by
  obtain ⟨-, hv, -, current, rfl, hlen, hcur⟩ := h
  have hc : current = Decimal.digits st.value := by
    rcases hcur with ⟨rfl, -⟩ | hcur
    · exact absurd hlen hd
    · exact hcur
  have hval : (UInt8.ofNat st.value).toNat = st.value :=
    UInt8.toNat_ofNat_of_lt' (show st.value < 256 by omega)
  refine ⟨hi, Nat.zero_le _, Nat.zero_le _, [], ?_, rfl, Or.inl ⟨rfl, rfl⟩⟩
  rw [take_set_succ, dotted_concat, hval, hc, List.append_nil, List.append_assoc]

/-- A digit extends the current octet. -/
lemma Scanned.digit {read : List UInt8} {st : ScanState} (h : Scanned read st) {byte : UInt8}
    (h48 : 48 ≤ byte.toNat) (h57 : byte.toNat ≤ 57) (hzero : ¬(st.digits = 1 ∧ st.value = 0))
    (hdigits : st.digits + 1 ≤ 3) (hvalue : st.value * 10 + (byte.toNat - 48) ≤ 255) :
    Scanned (read ++ [byte])
      ⟨st.octets, st.octetIndex, st.value * 10 + (byte.toNat - 48), st.digits + 1⟩ := by
  obtain ⟨hi, -, -, current, rfl, hlen, hcur⟩ := h
  have hbyte : byte = Decimal.digitByte (byte.toNat - 48) := by
    rw [Decimal.digitByte, show 48 + (byte.toNat - 48) = byte.toNat by omega, UInt8.ofNat_toNat]
  have hlow : byte.toNat - 48 < 10 := by omega
  refine ⟨hi, hvalue, hdigits, current ++ [byte], by simp, by simp [hlen], Or.inr ?_⟩
  rcases hcur with ⟨rfl, h0⟩ | rfl
  · rw [h0, Nat.zero_mul, Nat.zero_add, Decimal.digits_of_lt hlow, ← hbyte]
    rfl
  · have hpos : 0 < st.value := by
      by_contra h0
      have h0 : st.value = 0 := by omega
      rw [h0, Decimal.digits_of_lt (by omega)] at hlen
      exact hzero ⟨hlen, h0⟩
    rw [Decimal.digits_snoc hpos hlow, ← hbyte]

/-- **The step lemma**: one byte keeps the invariant or returns early, and never panics. -/
lemma scanByte_spec {read : List UInt8} {st : ScanState} (h : Scanned read st) (byte : UInt8) :
    ∃ r, scanByte st byte = .ok r ∧ ∀ st', r = some st' → Scanned (read ++ [byte]) st' := by
  have hi := h.index
  have hv := h.value
  have hd := h.digits
  rw [scanByte]
  by_cases hdot : byte = dot
  · subst hdot
    rw [if_pos rfl]
    by_cases hstop : st.digits = 0 ∨ st.octetIndex = 3
    · rw [if_pos hstop]
      exact ⟨none, rfl, by simp⟩
    · rw [if_neg hstop, ScanState.storeOctet_eq hi]
      rw [not_or] at hstop
      refine ⟨_, rfl, fun st' hst' => ?_⟩
      cases hst'
      exact h.dot hstop.1 (by omega)
  · rw [if_neg hdot]
    by_cases hdigit : 48 ≤ byte ∧ byte ≤ 57
    · rw [if_neg (not_not_intro hdigit)]
      have h48 : 48 ≤ byte.toNat := UInt8.le_iff_toNat_le.mp hdigit.1
      have h57 : byte.toNat ≤ 57 := UInt8.le_iff_toNat_le.mp hdigit.2
      by_cases hzero : st.digits = 1 ∧ st.value = 0
      · rw [if_pos hzero]
        exact ⟨none, rfl, by simp⟩
      · rw [if_neg hzero]
        -- none of the checked operations overflows
        have hdigits : checkedUInt 2147483647 (st.digits + 1) = .ok (st.digits + 1) :=
          if_pos (by omega)
        have htens : checkedUInt 65535 (st.value * 10) = .ok (st.value * 10) := if_pos (by omega)
        have hunit : checkedSub byte.toNat 48 = .ok (byte.toNat - 48) := if_pos h48
        have hsum : checkedUInt 65535 (st.value * 10 + (byte.toNat - 48))
            = .ok (st.value * 10 + (byte.toNat - 48)) := if_pos (by omega)
        rw [hdigits, htens, hunit]
        simp only [bind, Except.bind, hsum]
        by_cases hfour : st.digits + 1 > 3
        · rw [if_pos hfour]
          exact ⟨none, rfl, by simp⟩
        · rw [if_neg hfour]
          by_cases hbig : st.value * 10 + (byte.toNat - 48) > 255
          · simp only [if_pos hbig]
            exact ⟨none, rfl, by simp⟩
          · simp only [if_neg hbig]
            refine ⟨_, rfl, fun st' hst' => ?_⟩
            cases hst'
            exact h.digit h48 h57 hzero (Nat.le_of_not_lt hfour) (Nat.le_of_not_lt hbig)
    · rw [if_pos hdigit]
      exact ⟨none, rfl, by simp⟩

/-- **The run lemma**: the loop keeps the invariant over all it reads, and never panics. -/
lemma scanLoop_spec : ∀ (bytes : List UInt8) {read : List UInt8} {st : ScanState},
    Scanned read st →
    ∃ r, scanLoop st bytes = .ok r ∧ ∀ st', r = some st' → Scanned (read ++ bytes) st'
  | [], _, st, h => ⟨some st, rfl, fun st' hst' => by cases hst'; simpa using h⟩
  | byte :: bytes, _, _, h => by
      obtain ⟨r, hr, hspec⟩ := scanByte_spec h byte
      rw [scanLoop, hr]
      cases r with
      | none => exact ⟨none, rfl, by simp⟩
      | some st' =>
          obtain ⟨r', hr', hspec'⟩ := scanLoop_spec bytes (hspec st' rfl)
          exact ⟨r', hr', fun st'' h'' => by simpa using hspec' st'' h''⟩

/-- Every state of the loop, whatever it has read, has its variables within their bounds, so
that narrowing the value keeps it. -/
lemma scanLoop_bounds {bytes : List UInt8} {st : ScanState}
    (h : scanLoop ScanState.init bytes = .ok (some st)) :
    st.octetIndex ≤ 3 ∧ st.value ≤ 255 ∧ (UInt8.ofNat st.value).toNat = st.value := by
  obtain ⟨r, hr, hspec⟩ := scanLoop_spec bytes scanned_init
  rw [h] at hr
  cases hr
  obtain ⟨hi, hv, -⟩ := hspec st rfl
  exact ⟨hi, hv, UInt8.toNat_ofNat_of_lt' (show st.value < 256 by omega)⟩

/-! ### What the scanner accepts -/

/-- The dotted decimal text of an address. -/
def dottedDecimal (octets : Vector UInt8 4) : List UInt8 :=
  Decimal.digits octets[0].toNat ++ dot :: (Decimal.digits octets[1].toNat ++
    dot :: (Decimal.digits octets[2].toNat ++ dot :: Decimal.digits octets[3].toNat))

lemma dottedDecimal_eq (octets : Vector UInt8 4) :
    dottedDecimal octets
      = dotted (octets.toList.take 3) ++ Decimal.digits octets[3].toNat := by
  obtain ⟨⟨l⟩, hl⟩ := octets
  match l, hl with
  | [a, b, c, d], _ => simp [dottedDecimal, dotted, Vector.toList]

/-- One more digit of the current octet. -/
lemma scanByte_digit (st : ScanState) {d : ℕ} (hd : d < 10) (hdigits : st.digits ≤ 2)
    (hzero : st.digits = 1 → st.value ≠ 0) (hv : st.value * 10 + d ≤ 255) :
    scanByte st (Decimal.digitByte d)
      = .ok (some ⟨st.octets, st.octetIndex, st.value * 10 + d, st.digits + 1⟩) := by
  have hbyte : (Decimal.digitByte d).toNat = 48 + d := Decimal.toNat_digitByte hd
  have hdot : Decimal.digitByte d ≠ dot := fun h => by
    have h46 := congrArg UInt8.toNat h
    rw [hbyte] at h46
    have : dot.toNat = 46 := rfl
    omega
  have hrange : 48 ≤ Decimal.digitByte d ∧ Decimal.digitByte d ≤ 57 := by
    rw [UInt8.le_iff_toNat_le, UInt8.le_iff_toNat_le, hbyte]
    exact ⟨Nat.le_add_right 48 d, show 48 + d ≤ 57 by omega⟩
  have hlead : ¬(st.digits = 1 ∧ st.value = 0) := fun h => hzero h.1 h.2
  have hsub : 48 + d - 48 = d := by omega
  have h1 : st.digits + 1 ≤ 2147483647 := by omega
  have h2 : ¬st.digits + 1 > 3 := by omega
  have h3 : st.value * 10 ≤ 65535 := by omega
  have h4 : st.value * 10 + d ≤ 65535 := by omega
  have h5 : ¬st.value * 10 + d > 255 := by omega
  rw [scanByte, if_neg hdot, if_neg (not_not_intro hrange), if_neg hlead]
  simp [checkedUInt, checkedSub, hbyte, hsub, h1, h2, h3, h4, h5, bind, Except.bind, pure,
    Except.pure]

/-- The numeral of an octet, read from the start of the octet. -/
lemma scanLoop_digits (octets : Vector UInt8 4) (i : ℕ) (bytes : List UInt8) (v : ℕ)
    (hv : v ≤ 255) :
    scanLoop ⟨octets, i, 0, 0⟩ (Decimal.digits v ++ bytes)
      = scanLoop ⟨octets, i, v, (Decimal.digits v).length⟩ bytes := by
  induction v using Nat.strongRecOn generalizing bytes with
  | _ v ih =>
      rcases Decimal.digits_cases v with ⟨h10, hdig⟩ | ⟨h10, hdig⟩
      · have hstep := scanByte_digit ⟨octets, i, 0, 0⟩ h10 (by simp) (by simp) (by simpa)
        rw [hdig, List.singleton_append, scanLoop, hstep]
        simp
      · have hlen : (Decimal.digits (v / 10)).length ≤ 2 :=
          Decimal.length_digits_le (by omega) (show v / 10 < 10 ^ 2 by omega)
        have hval : v / 10 * 10 + v % 10 = v := by omega
        have hpos : v / 10 ≠ 0 := by omega
        have hstep := scanByte_digit ⟨octets, i, v / 10, (Decimal.digits (v / 10)).length⟩
          (Nat.mod_lt v (by omega)) hlen (fun _ => hpos) (Nat.le_trans (Nat.le_of_eq hval) hv)
        rw [hdig, List.append_assoc, List.singleton_append, ih (v / 10) (by omega) _ (by omega),
          scanLoop, hstep]
        simp only [hval, List.length_append, List.length_singleton]

/-- The dot behind an octet stores it. -/
lemma scanLoop_dot {octets : Vector UInt8 4} {i : ℕ} (hi : i < 3) (o : UInt8)
    (bytes : List UInt8) :
    scanLoop ⟨octets, i, 0, 0⟩ (Decimal.digits o.toNat ++ dot :: bytes)
      = scanLoop ⟨octets.set i o (by omega), i + 1, 0, 0⟩ bytes := by
  have hpos := Decimal.length_digits_pos o.toNat
  have hstop : ¬((Decimal.digits o.toNat).length = 0 ∨ i = 3) := by omega
  have ho : o.toNat ≤ 255 := Nat.le_of_lt_succ o.toNat_lt
  have hstore : (ScanState.mk octets i o.toNat (Decimal.digits o.toNat).length).storeOctet
      = .ok (octets.set i o (by omega)) := by
    rw [ScanState.storeOctet_eq (show i ≤ 3 by omega)]
    simp only [UInt8.ofNat_toNat]
  have hstep : scanByte ⟨octets, i, o.toNat, (Decimal.digits o.toNat).length⟩ dot
      = .ok (some ⟨octets.set i o (by omega), i + 1, 0, 0⟩) := by
    rw [scanByte, if_pos rfl, if_neg hstop, hstore]
    rfl
  rw [scanLoop_digits octets i _ _ ho, scanLoop, hstep]

/-- The scanner accepts every dotted decimal text. -/
lemma parseIpv4String_dottedDecimal (octets : Vector UInt8 4) :
    parseIpv4String (dottedDecimal octets) = .ok (some (ipv4OfOctets octets)) := by
  have hlen := Decimal.length_digits_pos octets[3].toNat
  have ho : octets[3].toNat ≤ 255 := Nat.le_of_lt_succ octets[3].toNat_lt
  have hrun : scanLoop ScanState.init (dottedDecimal octets)
      = .ok (some ⟨(((Vector.replicate 4 (0 : UInt8)).set 0 octets[0]).set 1 octets[1]).set 2
          octets[2], 3, octets[3].toNat, (Decimal.digits octets[3].toNat).length⟩) := by
    rw [dottedDecimal, ScanState.init, scanLoop_dot (by omega), scanLoop_dot (by omega),
      scanLoop_dot (by omega), ← List.append_nil (Decimal.digits octets[3].toNat),
      scanLoop_digits _ _ _ _ ho, List.append_nil, scanLoop]
  have hstop : ¬(3 ≠ 3 ∨ (Decimal.digits octets[3].toNat).length = 0) := by omega
  rw [parseIpv4String, hrun]
  simp only [if_neg hstop]
  rw [ScanState.storeOctet_eq (by simp)]
  simp [ipv4OfOctets]

/-- The scanner never panics. -/
lemma parseIpv4String_ok (bytes : List UInt8) : ∃ r, parseIpv4String bytes = .ok r := by
  obtain ⟨r, hr, hspec⟩ := scanLoop_spec bytes scanned_init
  rw [parseIpv4String, hr]
  cases r with
  | none => exact ⟨none, rfl⟩
  | some st =>
      simp only [ScanState.storeOctet_eq (hspec st rfl).index]
      split
      · exact ⟨none, rfl⟩
      · exact ⟨_, rfl⟩

/-- What the scanner accepts is a dotted decimal text. -/
lemma eq_dottedDecimal_of_parseIpv4String {bytes : List UInt8} {ip : BitVec 32}
    (h : parseIpv4String bytes = .ok (some ip)) :
    ∃ octets, bytes = dottedDecimal octets ∧ ip = ipv4OfOctets octets := by
  obtain ⟨r, hr, hspec⟩ := scanLoop_spec bytes scanned_init
  rw [parseIpv4String, hr] at h
  cases r with
  | none => cases h
  | some st =>
      obtain ⟨hi, hv, -, current, hread, hd, hcur⟩ := hspec st rfl
      by_cases hstop : st.octetIndex ≠ 3 ∨ st.digits = 0
      · simp only [if_pos hstop] at h
        cases h
      · simp only [if_neg hstop, ScanState.storeOctet_eq hi] at h
        cases h
        obtain ⟨h3, hne⟩ : st.octetIndex = 3 ∧ st.digits ≠ 0 := by
          rwa [not_or, not_not] at hstop
        have hc : current = Decimal.digits st.value := by
          rcases hcur with ⟨rfl, -⟩ | hcur
          · exact absurd hd hne
          · exact hcur
        have hval : (UInt8.ofNat st.value).toNat = st.value :=
          UInt8.toNat_ofNat_of_lt' (show st.value < 256 by omega)
        refine ⟨_, ?_, rfl⟩
        rw [← List.nil_append bytes, hread, hc, dottedDecimal_eq, Vector.toList_set]
        simp only [h3]
        rw [List.take_set_of_le (Nat.le_refl 3), Vector.getElem_set_self, hval]

/-- **What the scanner accepts**: exactly the dotted decimal texts, with their octets. -/
lemma parseIpv4String_eq_some_iff {bytes : List UInt8} {ip : BitVec 32} :
    parseIpv4String bytes = .ok (some ip) ↔
      ∃ octets, bytes = dottedDecimal octets ∧ ip = ipv4OfOctets octets := by
  refine ⟨eq_dottedDecimal_of_parseIpv4String, ?_⟩
  rintro ⟨octets, rfl, rfl⟩
  exact parseIpv4String_dottedDecimal octets

/-! ### The parser of std and the rest of the module -/

/-- The parser of std for addresses, which the repository does not contain: its IPv4 and its IPv6
grammar. -/
structure StdParser where
  v4 : String → Option (BitVec 32)
  v6 : String → Option (BitVec 128)

namespace StdParser

/-- `str::parse::<IpAddr>`: IPv6 is tried only for text that is not IPv4. -/
def parse (std : StdParser) (s : String) : Option IpAddr :=
  match std.v4 s with
  | some ip => some (.V4 ip)
  | none => (std.v6 s).map .V6

/-- The documented IPv4 grammar of std: four decimal octets without leading zeros. -/
def StrictV4 (std : StdParser) : Prop :=
  ∀ s ip, std.v4 s = some ip ↔
    ∃ octets, utf8Bytes s = dottedDecimal octets ∧ ip = ipv4OfOctets octets

end StdParser

/-- The parser with the strict IPv4 grammar and the given IPv6 grammar. -/
def StdParser.strict (v6 : String → Option (BitVec 128)) : StdParser where
  v4 s := match parseIpv4String (utf8Bytes s) with
    | .ok r => r
    | .error _ => none
  v6 := v6

lemma StdParser.strictV4_strict (v6 : String → Option (BitVec 128)) :
    (StdParser.strict v6).StrictV4 := by
  intro s ip
  rw [← parseIpv4String_eq_some_iff]
  obtain ⟨r, hr⟩ := parseIpv4String_ok (utf8Bytes s)
  simp only [strict, hr, Except.ok.injEq]

/-- The exception that a panic reaches Python as. -/
def Panic.toPyErr : Panic → PyErr
  | overflow => .panicException "attempt to compute with overflow"
  | indexOutOfBounds => .panicException "index out of bounds"

/-- `PyValueError` of `parse_ip_string`. -/
def errNotAnAddress (s : String) : PyErr :=
  .valueError [.str s!"'{s}' does not appear to be an IPv4 or IPv6 address"]

/-- `parse_ip_string`. -/
def parseIpString (std : StdParser) (s : String) : PyResult IpAddr :=
  match parseIpv4String (utf8Bytes s) with
  | .error p => .error p.toPyErr
  | .ok (some ip) => .ok (.V4 ip)
  | .ok none => match std.parse s with
      | some ip => .ok ip
      | none => .error (errNotAnAddress s)

/-- `PyTypeError` of `parse_ip_address`. -/
def errAddressType : PyErr := .typeError [.str "argument 1 must be a string or ipaddress object"]

/-- `extract::<u32>` and `extract::<u128>` of the attribute `_ip`, where it is an integer. -/
def extractUInt (n : ℕ) : Option ℤ → Option (BitVec n)
  | some (.ofNat i) => if i < 2 ^ n then some (BitVec.ofNat n i) else none
  | _ => none

/-- `parse_ip_address`. Every object that is no `str` is looked at through its class name. -/
def parseIpAddress (std : StdParser) : PyObj → PyResult IpAddr
  | .str s => match s.toStr with
      | some text => parseIpString std text
      | none => .error (.unicodeEncodeError s)
  | .object o => match o.typeName with
      | .error e => .error e
      | .ok typeName =>
          if typeName = "IPv4Address" then
            match extractUInt 32 o.ip with
            | some value => .ok (.V4 value)
            | none => o.extractIp
          else if typeName = "IPv6Address" then
            match extractUInt 128 o.ip with
            | some value => .ok (.V6 value)
            | none => o.extractIp
          else .error errAddressType
  | _ => .error errAddressType

/-- `ipv6_in_ipv4_error`. -/
def ipv6InIpv4Error (ip : IpAddr) : Text :=
  [.str "Error looking up ", .ip ip,
    .str ". You attempted to look up an IPv6 address in an IPv4-only database"]

/-- **The fast path changes nothing**: over a strict parser of std, `parse_ip_string` is that
parser alone. -/
lemma parseIpString_eq {std : StdParser} (hstd : std.StrictV4) (s : String) :
    parseIpString std s = match std.parse s with
      | some ip => .ok ip
      | none => .error (errNotAnAddress s) := by
  rw [parseIpString]
  obtain ⟨r, hr⟩ := parseIpv4String_ok (utf8Bytes s)
  cases r with
  | none => rw [hr]
  | some ip =>
      have hv4 : std.v4 s = some ip := (hstd s ip).mpr (parseIpv4String_eq_some_iff.mp hr)
      rw [hr, StdParser.parse, hv4]

/-- **The address scanner is std's IPv4 grammar**: it never panics and keeps its variables within
their bounds on every text, accepts exactly the dotted decimal texts with their octets in order,
and leaves `parse_ip_string` with the results of the parser of std. -/
theorem parseIpString_strict (std : StdParser) (hstd : std.StrictV4) :
    (∀ bytes, ∃ r, parseIpv4String bytes = .ok r) ∧
      (∀ bytes ip, parseIpv4String bytes = .ok (some ip) ↔
        ∃ octets, bytes = dottedDecimal octets ∧ ip = ipv4OfOctets octets) ∧
      (∀ bytes read st, read <+: bytes → scanLoop ScanState.init read = .ok (some st) →
        st.octetIndex ≤ 3 ∧ st.value ≤ 255 ∧ (UInt8.ofNat st.value).toNat = st.value) ∧
      ∀ s, parseIpString std s = match std.parse s with
        | some ip => .ok ip
        | none => .error (errNotAnAddress s) :=
  ⟨parseIpv4String_ok, fun _ _ => parseIpv4String_eq_some_iff,
    fun _ _ _ _ h => scanLoop_bounds h, parseIpString_eq hstd⟩

/-- The theorem at a text that is an address and at one that only nearly is. -/
theorem parseIpString_strict_twoTexts :
    parseIpString (.strict fun _ => none) "192.0.2.255" = .ok (.V4 0xC00002FF#32) ∧
      parseIpString (.strict fun _ => none) "192.0.02.1"
        = .error (errNotAnAddress "192.0.02.1") := by
  have h := (parseIpString_strict (.strict fun _ => none) (StdParser.strictV4_strict _)).2.2.2
  exact ⟨(h "192.0.2.255").trans rfl, (h "192.0.02.1").trans rfl⟩

end MaxminddbRust
