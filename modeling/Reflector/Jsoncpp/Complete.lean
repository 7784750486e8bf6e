/-
# Every JSON text is read as what it means

`readValue_text`: a text of the grammar (`Base/Grammar.lean`) whose values lie inside of fewer
values than the stack has room for is read as its value, with any white space in front of it and
anything behind it that a value can be followed by.  Strings come out in UTF-8, whichever way
their characters are spelled; of the members of one name the last one counts, and they come out
in the order of their names (`ofValue`).  `parse_text` is the whole document.

A number without a point and an exponent is its integer, if that has 64 bits, signed or not
(`ofNumber`, and `decodeNumber_eq`).  Nothing is assumed of the doubles: any other number is
whatever `sscanf` makes of it, and where it makes nothing of it the text has no value here.
-/
import Reflector.Base.Grammar
import Reflector.Jsoncpp.Safety

namespace Reflector.Jsoncpp

open Base Base.Grammar Signaling

/-! ## 1. What a value is to the reader -/

section

variable (sscanf : Bytes → Option (Bytes × ℚ))

/-- The integer that the text spells, if it fits, or else the double. -/
def ofNumber (text : Bytes) : Option Json :=
  match (integerOf text).filter fun z => -2 ^ 63 ≤ z ∧ z < 2 ^ 64 with
  | some z => some (.int z)
  | none => (sscanf text).map fun d => .real d.1 d.2

mutual

def ofValue : Value → Option Json
  | .null => some .null
  | .bool b => some (.bool b)
  | .num text => ofNumber sscanf text
  | .str s => some (.str (s.flatMap utf8))
  | .arr values => (ofValues values).map .arr
  | .obj members => (ofMembers members []).map .obj

def ofValues : List Value → Option (List Json)
  | [] => some []
  | value :: values => do
    let j ← ofValue value
    let js ← ofValues values
    some (j :: js)

/-- Into the members there are already. -/
def ofMembers : List (List ℕ × Value) → List (Bytes × Json) → Option (List (Bytes × Json))
  | [], members => some members
  | (name, value) :: rest, members => do
    let j ← ofValue value
    ofMembers rest (setMember (name.flatMap utf8) j members)

end

end

theorem ofValues_cons {sscanf : Bytes → Option (Bytes × ℚ)} {v : Value} {vs : List Value}
    {js : List Json} (h : ofValues sscanf (v :: vs) = some js) :
    ∃ j js', ofValue sscanf v = some j ∧ ofValues sscanf vs = some js' ∧ js = j :: js' := by
  rw [ofValues] at h
  obtain ⟨j, hj, h⟩ := Option.bind_eq_some_iff.mp h
  obtain ⟨js', hjs', h⟩ := Option.bind_eq_some_iff.mp h
  exact ⟨j, js', hj, hjs', (Option.some.inj h).symm⟩

theorem ofMembers_cons {sscanf : Bytes → Option (Bytes × ℚ)} {name : List ℕ} {v : Value}
    {ms : List (List ℕ × Value)} {members members' : List (Bytes × Json)}
    (h : ofMembers sscanf ((name, v) :: ms) members = some members') :
    ∃ j, ofValue sscanf v = some j ∧
      ofMembers sscanf ms (setMember (name.flatMap utf8) j members) = some members' := by
  rw [ofMembers] at h
  exact Option.bind_eq_some_iff.mp h

/-! ## 2. Bytes -/

theorem codePointToUTF8_eq {cp : ℕ} (h : cp < 0x110000) : codePointToUTF8 cp = utf8 cp := by
  unfold codePointToUTF8 utf8
  split
  · rw [if_pos (by omega)]
    rfl
  split
  · rw [if_neg (by omega), if_pos (by omega)]
    simp only [List.map_cons, List.map_nil]
    rw [Nat.mod_eq_of_lt (by omega : cp / 64 < 32)]
  split
  · rw [if_neg (by omega), if_neg (by omega), if_pos (by omega)]
    simp only [List.map_cons, List.map_nil]
    rw [Nat.mod_eq_of_lt (by omega : cp / 4096 < 16)]
  · rw [if_pos (by omega), if_neg (by omega), if_neg (by omega), if_neg (by omega)]
    rfl

/-- Bytes that a string holds as they are. -/
def Verbatim (s : Bytes) : Prop := ∀ b ∈ s, b ≠ 0x22 ∧ b ≠ 0x5C

theorem toNat_ofNat {n : ℕ} (h : n < 256) : (UInt8.ofNat n).toNat = n := by
  rw [UInt8.toNat_ofNat']
  exact Nat.mod_eq_of_lt h

theorem verbatim_utf8 {cp : ℕ} (hcp : cp < 0x110000) (h : cp ≠ 0x22 ∧ cp ≠ 0x5C) :
    Verbatim (utf8 cp) := by
  have hne : ∀ n < 256, n ≠ 0x22 ∧ n ≠ 0x5C → UInt8.ofNat n ≠ 0x22 ∧ UInt8.ofNat n ≠ 0x5C := by
    intro n hn hne
    constructor <;> intro heq
    · exact hne.1 (by simpa [toNat_ofNat hn] using congrArg UInt8.toNat heq)
    · exact hne.2 (by simpa [toNat_ofNat hn] using congrArg UInt8.toNat heq)
  intro b hb
  unfold utf8 at hb
  obtain ⟨n, hn, rfl⟩ := List.mem_map.mp hb
  -- past ASCII every byte has its high bit set
  have hbyte : n < 256 ∧ n ≠ 0x22 ∧ n ≠ 0x5C := by
    split at hn
    · simp only [List.mem_singleton] at hn
      omega
    split at hn
    · simp only [List.mem_cons, List.not_mem_nil, or_false] at hn
      omega
    split at hn
    · simp only [List.mem_cons, List.not_mem_nil, or_false] at hn
      omega
    · simp only [List.mem_cons, List.not_mem_nil, or_false] at hn
      omega
  exact hne n hbyte.1 hbyte.2

/-! ## 3. Strings -/

theorem readString_plain {c : UInt8} (hc : c ≠ 0x22 ∧ c ≠ 0x5C) (rest : Bytes) :
    readString (c :: rest) = readString rest := by
  conv_lhs => unfold readString
  rw [if_neg hc.2, if_neg hc.1]

theorem readString_escape (b : UInt8) (rest : Bytes) :
    readString (0x5C :: b :: rest) = readString rest := by
  conv_lhs => unfold readString
  rw [if_pos rfl]

@[simp] theorem readString_quote (rest : Bytes) : readString (0x22 :: rest) = (true, rest) := by
  conv_lhs => unfold readString
  rw [if_neg (by decide), if_pos rfl]

theorem readString_verbatim {s : Bytes} (hs : Verbatim s) (rest : Bytes) :
    readString (s ++ rest) = readString rest := by
  induction s with
  | nil => rfl
  | cons b s ih =>
    obtain ⟨hb, hs⟩ := List.forall_mem_cons.mp hs
    rw [List.cons_append, readString_plain hb, ih hs]

theorem verbatim_hex {t : Bytes} {n : ℕ} (h : Hex4 t n) : Verbatim t := by
  have hdigit : ∀ d < 16, ∀ upper, digitChar upper d ≠ 0x22 ∧ digitChar upper d ≠ 0x5C := by decide
  obtain ⟨⟨hi, u₁, rfl⟩, ⟨hj, u₂, rfl⟩, ⟨hk, u₃, rfl⟩, ⟨hl, u₄, rfl⟩⟩ := h
  intro b hb
  simp only [List.mem_cons, List.not_mem_nil, or_false] at hb
  rcases hb with rfl | rfl | rfl | rfl
  · exact hdigit _ hi _
  · exact hdigit _ hj _
  · exact hdigit _ hk _
  · exact hdigit _ hl _

/-- The scanner passes over the characters of a string. -/
theorem readString_chars {t : Bytes} {s : List ℕ} (h : Chars utf8 t s) (rest : Bytes) :
    readString (t ++ rest) = readString rest := by
  induction h with
  | nil => rfl
  | plain c hc _ ih =>
    rw [List.append_assoc, readString_verbatim (verbatim_utf8 hc.1.lt hc.2.2), ih]
  | escape b c _ _ ih => rw [List.cons_append, List.cons_append, readString_escape, ih]
  | unicode c hx _ _ ih =>
    simp only [List.append_assoc, List.cons_append]
    rw [readString_escape, readString_verbatim (verbatim_hex hx), ih]
  | pair high low hx hy _ _ _ ih =>
    simp only [List.append_assoc, List.cons_append]
    rw [readString_escape, readString_verbatim (verbatim_hex hx), readString_escape,
      readString_verbatim (verbatim_hex hy), ih]

theorem hexDigit_eq {b : UInt8} {d : ℕ} (h : HexDigit b d) : hexDigit b = some d := by
  obtain ⟨hd, upper, rfl⟩ := h
  have hall : ∀ d < 16, ∀ upper, hexDigit (digitChar upper d) = some d := by decide
  exact hall d hd upper

/-- Four digits are read as their number. -/
theorem decodeUnicodeEscapeSequence_hex {t : Bytes} {n : ℕ} (h : Hex4 t n) (rest : Bytes) :
    decodeUnicodeEscapeSequence (t ++ rest) = .ok (some (n, rest)) := by
  obtain ⟨ha, hb, hc, hd⟩ := h
  rw [decodeUnicodeEscapeSequence, if_neg (by simp)]
  simp only [hexLoop, List.cons_append, List.nil_append, deref, bind, Except.bind, hexDigit_eq ha,
    hexDigit_eq hb, hexDigit_eq hc, hexDigit_eq hd, zero_mul, zero_add]

theorem decodeUnicodeCodePoint_scalar {x : Bytes} {c : ℕ} (hx : Hex4 x c) (hc : Scalar c)
    (rest : Bytes) : decodeUnicodeCodePoint (x ++ rest) = .ok (some (c, rest)) := by
  have hno : ¬(0xD800 ≤ c ∧ c ≤ 0xDBFF) := by
    rcases hc with hc | hc <;> omega
  rw [decodeUnicodeCodePoint, decodeUnicodeEscapeSequence_hex hx]
  show (if 0xD800 ≤ c ∧ c ≤ 0xDBFF then _ else Except.ok (some (c, rest))) = _
  rw [if_neg hno]

theorem decodeUnicodeCodePoint_pair {x y : Bytes} {high low : ℕ} (hx : Hex4 x high)
    (hy : Hex4 y low) (hhigh : 0xD800 ≤ high ∧ high < 0xDC00) (hlow : 0xDC00 ≤ low ∧ low < 0xE000)
    (rest : Bytes) : decodeUnicodeCodePoint (x ++ 0x5C :: 0x75 :: y ++ rest)
      = .ok (some (0x10000 + (high - 0xD800) * 0x400 + (low - 0xDC00), rest)) := by
  have hlen := hy.length
  rw [decodeUnicodeCodePoint, List.append_assoc, decodeUnicodeEscapeSequence_hex hx]
  show (if 0xD800 ≤ high ∧ high ≤ 0xDBFF then _ else _) = _
  rw [if_pos (by omega), if_neg (by simp [hlen])]
  simp only [List.cons_append, deref, bind, Except.bind, if_true,
    decodeUnicodeEscapeSequence_hex hy]
  have hhigh : high % 0x400 = high - 0xD800 := by omega
  have hlow : low % 0x400 = low - 0xDC00 := by omega
  rw [hhigh, hlow]

theorem decodeStringLoop_plain {c : UInt8} (hc : c ≠ 0x22 ∧ c ≠ 0x5C) (n : ℕ)
    (decoded current : Bytes) : decodeStringLoop (n + 1) decoded (c :: current)
      = decodeStringLoop n (decoded ++ [c]) current := by
  conv_lhs => unfold decodeStringLoop
  dsimp only
  rw [if_neg hc.1, if_neg hc.2]

theorem decodeStringLoop_escape {b : UInt8} {c : ℕ} (h : (b, c) ∈ shortEscapes) (n : ℕ)
    (decoded current : Bytes) : decodeStringLoop (n + 1) decoded (0x5C :: b :: current)
      = decodeStringLoop n (decoded ++ utf8 c) current := by
  have hall : ∀ e ∈ shortEscapes, shortUnescape e.1 = some (UInt8.ofNat e.2) ∧
      utf8 e.2 = [UInt8.ofNat e.2] := by decide
  obtain ⟨hb, hc⟩ := hall _ h
  conv_lhs => unfold decodeStringLoop
  dsimp only at hb hc ⊢
  rw [if_neg (by decide), if_pos rfl, hb, hc]

theorem decodeStringLoop_unicode {current rest : Bytes} {c : ℕ} (hc : c < 0x110000)
    (h : decodeUnicodeCodePoint current = .ok (some (c, rest))) (n : ℕ) (decoded : Bytes) :
    decodeStringLoop (n + 1) decoded (0x5C :: 0x75 :: current)
      = decodeStringLoop n (decoded ++ utf8 c) rest := by
  conv_lhs => unfold decodeStringLoop
  dsimp only
  have hshort : shortUnescape 0x75 = none := rfl
  rw [if_neg (by decide), if_pos rfl, hshort]
  dsimp only
  rw [if_pos rfl, h, ← codePointToUTF8_eq hc]
  rfl

theorem decodeStringLoop_verbatim {p : Bytes} (hp : Verbatim p) (rest : Bytes) :
    ∀ (n : ℕ) (decoded : Bytes), decodeStringLoop (n + p.length) decoded (p ++ rest)
      = decodeStringLoop n (decoded ++ p) rest := by
  induction p with
  | nil =>
    intro n decoded
    rw [List.append_nil]
    rfl
  | cons b p ih =>
    intro n decoded
    obtain ⟨hb, hp⟩ := List.forall_mem_cons.mp hp
    rw [List.length_cons, ← Nat.add_assoc, List.cons_append, decodeStringLoop_plain hb, ih hp,
      List.append_assoc, List.singleton_append]

/-- The decoder makes the characters of a string of what stands between its quotes. -/
theorem decodeStringLoop_chars {t : Bytes} {s : List ℕ} (h : Chars utf8 t s) :
    ∀ (n : ℕ) (decoded : Bytes), t.length < n →
      decodeStringLoop n decoded t = .ok (some (decoded ++ s.flatMap utf8)) := by
  induction h with
  | nil =>
    intro n decoded hn
    obtain ⟨n, rfl⟩ := Nat.exists_eq_add_of_lt hn
    simp [decodeStringLoop]
  | @plain t s c hc _ ih =>
    intro n decoded hn
    rw [List.length_append] at hn
    obtain ⟨m, rfl⟩ := Nat.exists_eq_add_of_le' (by omega : (utf8 c).length ≤ n)
    rw [decodeStringLoop_verbatim (verbatim_utf8 hc.1.lt hc.2.2), ih m _ (by omega),
      List.flatMap_cons, List.append_assoc]
  | escape b c hbc _ ih =>
    intro n decoded hn
    obtain ⟨m, rfl⟩ := Nat.exists_eq_add_of_lt (Nat.lt_of_le_of_lt (Nat.zero_le _) hn)
    rw [List.length_cons, List.length_cons] at hn
    rw [zero_add, decodeStringLoop_escape hbc, ih m _ (by omega), List.flatMap_cons,
      List.append_assoc]
  | unicode c hx hc _ ih =>
    intro n decoded hn
    obtain ⟨m, rfl⟩ := Nat.exists_eq_add_of_lt (Nat.lt_of_le_of_lt (Nat.zero_le _) hn)
    simp only [List.length_append, List.length_cons] at hn
    rw [zero_add, List.cons_append, List.cons_append,
      decodeStringLoop_unicode hc.lt (decodeUnicodeCodePoint_scalar hx hc _), ih m _ (by omega),
      List.flatMap_cons, List.append_assoc]
  | pair high low hx hy hhigh hlow _ ih =>
    intro n decoded hn
    obtain ⟨m, rfl⟩ := Nat.exists_eq_add_of_lt (Nat.lt_of_le_of_lt (Nat.zero_le _) hn)
    simp only [List.length_append, List.length_cons] at hn
    rw [zero_add, List.cons_append, List.cons_append, List.cons_append, List.cons_append,
      decodeStringLoop_unicode (by omega)
        (decodeUnicodeCodePoint_pair hx hy hhigh hlow _),
      ih m _ (by omega), List.flatMap_cons, List.append_assoc]

theorem decodeString_text {t : Bytes} {s : List ℕ} (h : StringText utf8 t s) :
    decodeString t = .ok (some (s.flatMap utf8)) := by
  obtain ⟨chars, hchars, rfl⟩ := h
  rw [decodeString, if_neg (by simp)]
  have hbody : ((0x22 :: chars ++ [0x22]).drop 1).dropLast = chars := by simp
  rw [hbody, decodeStringLoop_chars hchars _ _ (Nat.lt_succ_self _), List.nil_append]

/-! ## 4. Numbers -/

/-- What can stand behind a value. -/
def Stops (rest : Bytes) : Prop :=
  ∀ c, rest.head? = some c → isBlank c = true ∨ c = 0x2C ∨ c = 0x5D ∨ c = 0x7D

theorem stops_cons {c : UInt8} {rest : Bytes}
    (h : isBlank c = true ∨ c = 0x2C ∨ c = 0x5D ∨ c = 0x7D) : Stops (c :: rest) := by
  intro d hd
  obtain rfl : c = d := by simpa using hd
  exact h

/-- No part of a number goes on there. -/
theorem Stops.not_number {rest : Bytes} (h : Stops rest) {c : UInt8} (hc : rest.head? = some c) :
    isDigit c = false ∧ c ≠ 0x2E ∧ c ≠ 0x65 ∧ c ≠ 0x45 := by
  have hblank : ∀ c : UInt8, isBlank c = true → c = 0x20 ∨ c = 0x09 ∨ c = 0x0D ∨ c = 0x0A := by
    intro c hc
    simpa [isBlank, or_assoc] using hc
  rcases h c hc with h | rfl | rfl | rfl
  · rcases hblank c h with rfl | rfl | rfl | rfl <;> decide
  all_goals decide

theorem skipDigits_append {d : Bytes} (hd : ∀ b ∈ d, isDigit b = true) {rest : Bytes}
    (hrest : ∀ c, rest.head? = some c → isDigit c = false) : skipDigits (d ++ rest) = rest := by
  rw [skipDigits, List.dropWhile_append_of_pos hd]
  cases rest with
  | nil => rfl
  | cons c rest => rw [List.dropWhile_cons_of_neg (by simp [hrest c rfl])]

/-- The scanner takes the digits, the fraction and the exponent, and stops where the number does. -/
theorem readNumber_append {d f e rest : Bytes} (hd : ∀ b ∈ d, isDigit b = true) (hf : Fraction f)
    (he : Exponent e) (hrest : Stops rest) : readNumber (d ++ f ++ e ++ rest) = rest := by
  -- what the exponent begins with is no digit and no point
  have hehead : ∀ c, (e ++ rest).head? = some c → isDigit c = false ∧ c ≠ 0x2E := by
    intro c hc
    rcases he with rfl | ⟨m, sign, digits, hm, -, -, rfl⟩
    · exact ⟨(hrest.not_number hc).1, (hrest.not_number hc).2.1⟩
    · obtain rfl : m = c := by simpa using hc
      rcases hm with rfl | rfl <;> decide
  have hfhead : ∀ c, (f ++ (e ++ rest)).head? = some c → isDigit c = false := by
    intro c hc
    rcases hf with rfl | ⟨digits, -, rfl⟩
    · exact (hehead c hc).1
    · obtain rfl : 0x2E = c := by simpa using hc
      decide
  have hfraction : skipFraction (f ++ (e ++ rest)) = e ++ rest := by
    rcases hf with rfl | ⟨digits, hdigits, rfl⟩
    · rw [List.nil_append]
      cases her : e ++ rest with
      | nil => rfl
      | cons c rest' =>
        rw [skipFraction, if_neg (hehead c (by rw [her]; rfl)).2]
    · rw [List.cons_append, skipFraction, if_pos rfl]
      exact skipDigits_append hdigits.2 fun c hc => (hehead c hc).1
  have hexponent : skipExponent (e ++ rest) = rest := by
    have hstop : ∀ c, rest.head? = some c → isDigit c = false := fun c hc => (hrest.not_number hc).1
    rcases he with rfl | ⟨m, sign, digits, hm, hsign, hdigits, rfl⟩
    · rw [List.nil_append]
      cases hr : rest with
      | nil => rfl
      | cons c rest' =>
        have := hrest.not_number (c := c) (by rw [hr]; rfl)
        rw [skipExponent, if_neg (by simp [this.2.2])]
    · have hskip : skipSign (sign ++ (digits ++ rest)) = digits ++ rest := by
        rcases hsign with rfl | rfl | rfl
        · obtain ⟨b, bs, rfl⟩ := List.exists_cons_of_ne_nil hdigits.1
          have hb := hdigits.2 b (by simp)
          have hne : ∀ b : UInt8, isDigit b = true → ¬(b = 0x2B ∨ b = 0x2D) := by
            rintro b hb (rfl | rfl) <;> exact absurd hb (by decide)
          simp only [List.nil_append, List.cons_append, skipSign, if_neg (hne b hb)]
        · rfl
        · rfl
      rw [List.cons_append, List.cons_append, skipExponent, if_pos hm, List.append_assoc, hskip]
      exact skipDigits_append hdigits.2 hstop
  rw [readNumber, List.append_assoc, List.append_assoc, skipDigits_append hd hfhead, hfraction,
    hexponent]

theorem le_digitsFrom : ∀ (digits : Bytes) (value : ℕ), value ≤ digitsFrom value digits
  | [], _ => Nat.le_refl _
  | d :: digits, value => by
    have := le_digitsFrom digits (10 * value + (d.toNat - 48))
    rw [digitsFrom, List.foldl_cons]
    unfold digitsFrom at this
    omega

theorem digitsFrom_cons (value : ℕ) (d : UInt8) (digits : Bytes) :
    digitsFrom value (d :: digits) = digitsFrom (value * 10 + (d.toNat - 48)) digits := by
  rw [digitsFrom, List.foldl_cons, Nat.mul_comm 10 value]
  rfl

/-- The test that the loop of `decodeNumber` makes in front of a digit: behind it the value is over
the bound, or will be. -/
theorem over_iff {threshold lastDigit value : ℕ} {d : UInt8} {digits : Bytes}
    (hthreshold : 0 < threshold) (hlast : lastDigit < 10) (hd : d.toNat - 48 ≤ 9)
    (h : threshold ≤ value ∧ (threshold < value ∨ digits ≠ [] ∨ lastDigit < d.toNat - 48)) :
    threshold * 10 + lastDigit < digitsFrom value (d :: digits) := by
  rw [digitsFrom_cons]
  have hge := le_digitsFrom digits (value * 10 + (d.toNat - 48))
  rcases h with ⟨hfull, hover | hmore | hbig⟩
  · omega
  · -- one more digit, and the value is ten times the threshold
    obtain ⟨e, rest, rfl⟩ := List.exists_cons_of_ne_nil hmore
    have := le_digitsFrom rest ((value * 10 + (d.toNat - 48)) * 10 + (e.toNat - 48))
    rw [digitsFrom_cons]
    omega
  · omega

/-- **The loop of `decodeNumber`** gives the value of the digits, unless there is another byte among
them or the value is over the bound. -/
theorem decodeDigits_eq {threshold lastDigit : ℕ} (hthreshold : 0 < threshold)
    (hlast : lastDigit < 10) : ∀ (digits : Bytes) (value : ℕ), value ≤ threshold * 10 + lastDigit →
    decodeDigits threshold lastDigit value digits
      = if digits.all isDigit ∧ digitsFrom value digits ≤ threshold * 10 + lastDigit then
          some (digitsFrom value digits)
        else none
  | [], value, hvalue => (if_pos ⟨rfl, hvalue⟩).symm
  | d :: digits, value, hvalue => by
    rw [decodeDigits]
    split
    case isFalse hd => rw [if_neg (by simp [hd])]
    case isTrue hd =>
      have hnine : d.toNat - 48 ≤ 9 := by
        simp only [isDigit, Bool.and_eq_true, decide_eq_true_eq, UInt8.le_iff_toNat_le] at hd
        have : d.toNat ≤ 57 := hd.2
        omega
      dsimp only
      split
      case isTrue hover =>
        rw [if_neg]
        rintro ⟨-, hle⟩
        exact absurd (over_iff hthreshold hlast hnine hover) (Nat.not_lt.mpr hle)
      case isFalse hroom =>
        have hstep : value * 10 + (d.toNat - 48) ≤ threshold * 10 + lastDigit := by
          by_contra hbig
          exact hroom ⟨by omega, by omega⟩
        rw [decodeDigits_eq hthreshold hlast digits _ hstep, digitsFrom_cons, List.all_cons, hd,
          Bool.true_and]

theorem integerOf_minus (digits : Bytes) : integerOf (0x2D :: digits)
    = if digits.all isDigit then some (-(digitsFrom 0 digits : ℤ)) else none := rfl

theorem integerOf_cons {c : UInt8} (h : c ≠ 0x2D) (digits : Bytes) : integerOf (c :: digits)
    = if (c :: digits).all isDigit then some (digitsFrom 0 (c :: digits) : ℤ) else none := by
  have hnegative : ¬ isNegative (c :: digits) = true := fun hminus =>
    h (Option.some.inj (of_decide_eq_true hminus))
  rw [integerOf, unsigned, signed, if_neg hnegative, if_neg hnegative]
  split
  case isFalse => rfl
  case isTrue hall =>
    rw [if_neg]
    intro hplus
    exact absurd (List.all_eq_true.mp hall _ (List.mem_of_mem_head? hplus)) (by decide)

/-- The bound of the loop, for the integer that the digits come to. -/
theorem filter_fits {digits : Bool} {n bound : ℕ} {z : ℤ}
    (hfits : n ≤ bound ↔ -2 ^ 63 ≤ z ∧ z < 2 ^ 64) :
    ((if digits then some z else none).filter fun z => -2 ^ 63 ≤ z ∧ z < 2 ^ 64)
      = if digits ∧ n ≤ bound then some z else none := by
  cases digits with
  | false => simp
  | true =>
    rw [if_pos rfl, Option.filter_some]
    by_cases hle : n ≤ bound
    · rw [if_pos (decide_eq_true (hfits.mp hle)), if_pos ⟨rfl, hle⟩]
    · rw [if_neg fun h => hle (hfits.mpr (of_decide_eq_true h)), if_neg fun h => hle h.2]

/-- **A number is read as `ofNumber` says.** -/
theorem decodeNumber_eq (sscanf : Bytes → Option (Bytes × ℚ)) {text : Bytes} (h : text ≠ []) :
    decodeNumber sscanf text = .ok (ofNumber sscanf text) := by
  obtain ⟨c, rest, rfl⟩ := List.exists_cons_of_ne_nil h
  unfold decodeNumber ofNumber
  dsimp only [deref, bind, Except.bind]
  by_cases hminus : c = 0x2D
  · subst hminus
    have hfits : digitsFrom 0 rest ≤ 2 ^ 63 / 10 * 10 + 2 ^ 63 % 10 ↔
        -2 ^ 63 ≤ -(digitsFrom 0 rest : ℤ) ∧ -(digitsFrom 0 rest : ℤ) < 2 ^ 64 := by omega
    rw [if_pos rfl, decodeDigits_eq (by decide) (by decide) rest 0 (Nat.zero_le _),
      integerOf_minus, filter_fits hfits]
    by_cases hread : rest.all isDigit ∧ digitsFrom 0 rest ≤ 2 ^ 63 / 10 * 10 + 2 ^ 63 % 10
    · rw [if_pos hread, if_pos hread]
    · rw [if_neg hread, if_neg hread]
  · have hfits : digitsFrom 0 (c :: rest) ≤ (2 ^ 64 - 1) / 10 * 10 + (2 ^ 64 - 1) % 10 ↔
        -2 ^ 63 ≤ (digitsFrom 0 (c :: rest) : ℤ) ∧ (digitsFrom 0 (c :: rest) : ℤ) < 2 ^ 64 := by
      omega
    rw [if_neg hminus, decodeDigits_eq (by decide) (by decide) (c :: rest) 0 (Nat.zero_le _),
      integerOf_cons hminus, filter_fits hfits]
    by_cases hread : (c :: rest).all isDigit ∧
        digitsFrom 0 (c :: rest) ≤ (2 ^ 64 - 1) / 10 * 10 + (2 ^ 64 - 1) % 10
    · rw [if_pos hread, if_pos hread]
    · rw [if_neg hread, if_neg hread]

/-! ## 5. Tokens -/

theorem jsonSpace_nil : JsonSpace [] := by simp [JsonSpace]

theorem isBlank_of_space {w : Bytes} (hw : JsonSpace w) : ∀ b ∈ w, isBlank b = true := by
  intro b hb
  rcases hw b hb with rfl | rfl | rfl | rfl <;> decide

theorem skipSpaces_append {w : Bytes} (hw : JsonSpace w) {c : UInt8} (hc : isBlank c = false)
    (rest : Bytes) : skipSpaces (w ++ c :: rest) = c :: rest := by
  rw [skipSpaces, List.dropWhile_append_of_pos (isBlank_of_space hw),
    List.dropWhile_cons_of_neg (by simp [hc])]

/-- A byte that begins a token, and no comment. -/
def Begins (c : UInt8) : Prop := isBlank c = false ∧ c ≠ 0x27 ∧ c ≠ 0x2F

instance (c : UInt8) : Decidable (Begins c) := inferInstanceAs (Decidable (_ ∧ _ ∧ _))

/-- White space, and then a token. -/
theorem readToken_scan {w : Bytes} (hw : JsonSpace w) {c : UInt8} (hc : Begins c) {rest : Bytes}
    {type : TokenType} {finish : Bytes} (hscan : scanToken c rest = (type, finish))
    (last : Option Bytes) (before : Bytes) :
    OurReader.readToken ⟨w ++ c :: rest, last, before⟩
      = .ok (⟨type, between (c :: rest) finish⟩, ⟨finish, last, before⟩) := by
  unfold OurReader.readToken
  dsimp only
  rw [skipSpaces_append hw hc.1]
  dsimp only
  rw [if_neg (by simp [hc.2]), hscan]

/-- The first token that is no comment is the first one. -/
theorem skipCommentTokens_of_readToken {r r' : OurReader} {token : Token}
    (h : r.readToken = .ok (token, r')) (htype : token.type ≠ .comment) :
    r.skipCommentTokens = .ok (token, r') := by
  rw [OurReader.skipCommentTokens, OurReader.skipCommentTokensLoop, h]
  exact if_neg htype

theorem skipCommentTokens_scan {w : Bytes} (hw : JsonSpace w) {c : UInt8} (hc : Begins c)
    {rest : Bytes} {type : TokenType} {finish : Bytes} (hscan : scanToken c rest = (type, finish))
    (htype : type ≠ .comment) (last : Option Bytes) (before : Bytes) :
    OurReader.skipCommentTokens ⟨w ++ c :: rest, last, before⟩
      = .ok (⟨type, between (c :: rest) finish⟩, ⟨finish, last, before⟩) :=
  skipCommentTokens_of_readToken (readToken_scan hw hc hscan last before) htype

theorem scanToken_objectBegin (rest : Bytes) : scanToken 0x7B rest = (.objectBegin, rest) := rfl

theorem scanToken_objectEnd (rest : Bytes) : scanToken 0x7D rest = (.objectEnd, rest) := rfl

theorem scanToken_arrayBegin (rest : Bytes) : scanToken 0x5B rest = (.arrayBegin, rest) := rfl

theorem scanToken_arrayEnd (rest : Bytes) : scanToken 0x5D rest = (.arrayEnd, rest) := rfl

theorem scanToken_comma (rest : Bytes) : scanToken 0x2C rest = (.arraySeparator, rest) := rfl

theorem scanToken_colon (rest : Bytes) : scanToken 0x3A rest = (.memberSeparator, rest) := rfl

theorem scanToken_string {chars : Bytes} {s : List ℕ} (h : Chars utf8 chars s) (rest : Bytes) :
    scanToken 0x22 (chars ++ 0x22 :: rest) = (.string, rest) := by
  simp only [scanToken, readString_chars h, readString_quote]

/-- A string is one token. -/
theorem skipCommentTokens_name {w k : Bytes} {s : List ℕ} (hw : JsonSpace w)
    (hk : StringText utf8 k s) (rest : Bytes) (last : Option Bytes) :
    OurReader.skipCommentTokens ⟨w ++ k ++ rest, last, []⟩
      = .ok (⟨.string, k⟩, ⟨rest, last, []⟩) := by
  obtain ⟨chars, hchars, rfl⟩ := hk
  have htext : 0x22 :: (chars ++ 0x22 :: rest) = 0x22 :: chars ++ [0x22] ++ rest := by simp
  have := skipCommentTokens_scan hw (by decide) (scanToken_string hchars rest) (by decide) last []
  rw [htext, between_append] at this
  rw [List.append_assoc]
  exact this

theorem scanToken_digit {c : UInt8} (hc : isDigit c = true) (rest : Bytes) :
    scanToken c rest = (.number, readNumber rest) := by
  unfold scanToken
  split
  case h_13 => rw [if_pos hc]
  all_goals exact absurd hc (by decide)

/-- A number is one token. -/
theorem scanToken_number {t : Bytes} (ht : NumberText t) {rest : Bytes} (hrest : Stops rest) :
    ∃ c t', t = c :: t' ∧ Begins c ∧ scanToken c (t' ++ rest) = (.number, rest) := by
  obtain ⟨i, f, e, ⟨digits, hi, hne, hall, _⟩, hf, he, rfl⟩ := ht
  have hdigits : ∀ b ∈ digits, isDigit b = true := by
    intro b hb
    simpa [isDigit] using hall b hb
  obtain ⟨d, ds, rfl⟩ := List.exists_cons_of_ne_nil hne
  have hd := hdigits d (by simp)
  rcases hi with rfl | rfl
  · have hbegins : ∀ d : UInt8, isDigit d = true → Begins d := by
      intro d hd
      refine ⟨?_, ?_, ?_⟩
      · by_contra hblank
        simp only [Bool.not_eq_false, isBlank, Bool.or_eq_true, decide_eq_true_eq] at hblank
        rcases hblank with ((rfl | rfl) | rfl) | rfl <;> exact absurd hd (by decide)
      · rintro rfl
        exact absurd hd (by decide)
      · rintro rfl
        exact absurd hd (by decide)
    refine ⟨d, ds ++ f ++ e, by simp, hbegins d hd, ?_⟩
    rw [scanToken_digit hd, readNumber_append (fun b hb => hdigits b (by simp [hb])) hf he hrest]
  · refine ⟨0x2D, d :: ds ++ f ++ e, by simp, by decide, ?_⟩
    have hnot : (d :: ds ++ f ++ e ++ rest).head? ≠ some 0x49 := by
      intro hhead
      obtain rfl : d = 0x49 := by simpa using hhead
      exact absurd hd (by decide)
    simp only [scanToken, if_neg hnot, readNumber_append hdigits hf he hrest]

theorem scanToken_literal (rest : Bytes) :
    scanToken 0x74 (ascii "rue" ++ rest) = (.true, rest) ∧
      scanToken 0x66 (ascii "alse" ++ rest) = (.false, rest) ∧
      scanToken 0x6E (ascii "ull" ++ rest) = (.null, rest) := by
  have hmatch : ∀ pattern : Bytes,
      matchPattern pattern (pattern ++ rest) = (true, rest) := by
    intro pattern
    rw [matchPattern, if_pos (List.prefix_append _ _), List.drop_left]
  simp only [scanToken, hmatch, and_self]

/-! ## 6. Values -/

/-- `f` reads this text as this value, wherever it stands. -/
def Reads (f : ValueReader) (t : Bytes) (j : Json) : Prop :=
  ∀ w rest last, JsonSpace w → Stops rest → (w ++ t ++ rest).length < 2 ^ 30 →
    f ⟨w ++ t ++ rest, last, []⟩ = .ok (some j, ⟨rest, some rest, []⟩)

theorem stops_append {w : Bytes} (hw : JsonSpace w) {rest : Bytes} (h : Stops rest) :
    Stops (w ++ rest) := by
  cases w with
  | nil => exact h
  | cons b w => exact stops_cons (.inl (isBlank_of_space hw b (by simp)))

/-- A member behind its name: it is over with a bracket, and goes on with a comma. -/
theorem readMember_text {f : ValueReader} {w₂ w₃ t w₄ : Bytes} {j : Json} (h₂ : JsonSpace w₂)
    (h₃ : JsonSpace w₃) (ht : Reads f t j) (h₄ : JsonSpace w₄) {closer : UInt8}
    (hcloser : closer = 0x7D ∨ closer = 0x2C) (rest : Bytes) (last : Option Bytes)
    (hlen : (w₂ ++ 0x3A :: (w₃ ++ t ++ w₄) ++ closer :: rest).length < 2 ^ 30) :
    ∃ last', OurReader.readMember f ⟨w₂ ++ 0x3A :: (w₃ ++ t ++ w₄) ++ closer :: rest, last, []⟩
      = .ok (some (j, decide (closer = 0x7D)), ⟨rest, last', []⟩) := by
  have hcolon := readToken_scan h₂ (by decide) (scanToken_colon (w₃ ++ t ++ (w₄ ++ closer :: rest)))
    last []
  have hread := ht w₃ (w₄ ++ closer :: rest) last h₃
    (stops_append h₄ (stops_cons (by rcases hcloser with rfl | rfl <;> simp)))
    (by simp only [List.length_append, List.length_cons] at hlen ⊢; omega)
  refine ⟨some (w₄ ++ closer :: rest), ?_⟩
  have hassoc : w₂ ++ 0x3A :: (w₃ ++ t ++ w₄) ++ closer :: rest
      = w₂ ++ 0x3A :: (w₃ ++ t ++ (w₄ ++ closer :: rest)) := by simp
  rw [hassoc, OurReader.readMember, hcolon]
  dsimp only [bind, Except.bind]
  rw [if_neg (by decide), hread]
  dsimp only
  rcases hcloser with rfl | rfl
  · rw [readToken_scan h₄ (by decide) (scanToken_objectEnd rest)]
    rfl
  · rw [readToken_scan h₄ (by decide) (scanToken_comma rest)]
    rfl

/-- A turn of the loop of `readObject`. -/
theorem readMembers_turn {f : ValueReader} {t : Bytes} {name : List ℕ} {v : Value} {j : Json}
    (h : Member utf8 (fun t _ => Reads f t j) t (name, v)) {closer : UInt8}
    (hcloser : closer = 0x7D ∨ closer = 0x2C) (rest : Bytes) (last : Option Bytes)
    (hlen : (t ++ closer :: rest).length < 2 ^ 30) (n : ℕ) (before : Bytes)
    (members : List (Bytes × Json)) :
    ∃ last', OurReader.readMembers f (n + 1) before members ⟨t ++ closer :: rest, last, []⟩
      = if closer = 0x7D then
          .ok (some (.obj (setMember (name.flatMap utf8) j members)), ⟨rest, last', []⟩)
        else OurReader.readMembers f n (name.flatMap utf8)
          (setMember (name.flatMap utf8) j members) ⟨rest, last', []⟩ := by
  obtain @⟨w₁, k, w₂, w₃, t, w₄, _, _, h₁, hk, h₂, h₃, ht, h₄⟩ := h
  have hdecode := decodeString_text hk
  have htwo : 2 ≤ k.length := by
    obtain ⟨chars, -, rfl⟩ := hk
    simp
  have hname := (decodeString_ends htwo).of_ok hdecode _ rfl
  have hshort : ¬2 ^ 30 ≤ (name.flatMap utf8).length := by
    simp only [List.length_append] at hlen
    omega
  obtain ⟨last', hmember⟩ := readMember_text h₂ h₃ ht h₄ hcloser rest last
    (by simp only [List.length_append, List.length_cons] at hlen ⊢; omega)
  have htoken := skipCommentTokens_name h₁ hk (w₂ ++ 0x3A :: (w₃ ++ t ++ w₄) ++ closer :: rest) last
  refine ⟨last', ?_⟩
  have hassoc : w₁ ++ k ++ w₂ ++ 0x3A :: (w₃ ++ t ++ w₄) ++ closer :: rest
      = w₁ ++ k ++ (w₂ ++ 0x3A :: (w₃ ++ t ++ w₄) ++ closer :: rest) := by simp
  rw [hassoc, OurReader.readMembers,
    htoken]
  dsimp only [bind, Except.bind]
  rw [if_neg (by simp), if_pos rfl, hdecode]
  dsimp only
  rw [if_neg hshort, hmember]
  dsimp only
  rcases hcloser with rfl | rfl <;> rfl

/-- The white space in front of the first element can be left out. -/
theorem elements_skipSpaces {P : Bytes → Value → Prop}
    (hP : ∀ t v, P t v → Starts t) {ts : Bytes} {vs : List Value} (h : Elements P ts vs)
    (rest : Bytes) : ∃ ts', Elements P ts' vs ∧
      skipSpaces (ts ++ 0x5D :: rest) = ts' ++ 0x5D :: rest ∧
      (ts' ++ 0x5D :: rest).head? ≠ some 0x5D ∧ ts'.length ≤ ts.length := by
  have hstarts : ∀ (t' : Bytes) {t : Bytes}, Starts t → ∃ c rest', t ++ t' = c :: rest' ∧
      isBlank c = false ∧ c ≠ 0x5D := by
    rintro t' t ⟨c, rest', rfl, hc⟩
    refine ⟨c, rest' ++ t', rfl, ?_⟩
    have hall : ∀ c ∈ ascii "\x7b[\"-tfn", isBlank c = false ∧ c ≠ 0x5D := by
      decide +kernel
    rcases hc with hc | hc
    · exact hall c hc
    · refine ⟨?_, by rintro rfl; exact absurd hc (by decide)⟩
      by_contra hblank
      simp only [Bool.not_eq_false, isBlank, Bool.or_eq_true, decide_eq_true_eq] at hblank
      rcases hblank with ((rfl | rfl) | rfl) | rfl <;> exact absurd hc (by decide)
  cases h with
  | @last w t w' v hw ht hw' =>
    obtain ⟨c, rest', hcut, hblank, hne⟩ := hstarts (w' ++ 0x5D :: rest) (hP t v ht)
    refine ⟨t ++ w', .last (w := []) jsonSpace_nil ht hw', ?_, ?_, by simp⟩
    · rw [List.append_assoc, List.append_assoc, List.append_assoc, hcut,
        skipSpaces_append hw hblank]
    · rw [List.append_assoc, hcut]
      simpa using hne
  | @more w t w' ts v vs hw ht hw' hts =>
    obtain ⟨c, rest', hcut, hblank, hne⟩ :=
      hstarts (w' ++ 0x2C :: ts ++ 0x5D :: rest) (hP t v ht)
    refine ⟨t ++ w' ++ 0x2C :: ts, .more (w := []) jsonSpace_nil ht hw' hts, ?_, ?_,
      by simp⟩
    · have hassoc : w ++ t ++ w' ++ 0x2C :: ts ++ 0x5D :: rest
          = w ++ (t ++ (w' ++ 0x2C :: ts ++ 0x5D :: rest)) := by simp
      rw [hassoc, hcut,
        skipSpaces_append hw hblank, ← hcut]
      simp
    · have hassoc : t ++ w' ++ 0x2C :: ts ++ 0x5D :: rest
          = t ++ (w' ++ 0x2C :: ts ++ 0x5D :: rest) := by simp
      rw [hassoc, hcut]
      simpa using hne

section

variable {sscanf : Bytes → Option (Bytes × ℚ)} {f : ValueReader} {P : Bytes → Value → Prop}
  (hf : ∀ t v j, P t v → ofValue sscanf v = some j → Reads f t j)
include hf

theorem readElements_text {ts : Bytes} {vs : List Value} (h : Elements P ts vs) :
    ∀ (n : ℕ) (values js : List Json) (rest : Bytes) (last : Option Bytes),
      ofValues sscanf vs = some js → ts.length < n → (ts ++ 0x5D :: rest).length < 2 ^ 30 →
      ∃ last', OurReader.readElements f n values ⟨ts ++ 0x5D :: rest, last, []⟩
        = .ok (some (.arr (values ++ js)), ⟨rest, last', []⟩) := by
  induction h with
  | @last w t w' v hw ht hw' =>
    intro n values js rest last hjs hn hlen
    obtain ⟨m, rfl⟩ := Nat.exists_eq_add_of_lt (Nat.lt_of_le_of_lt (Nat.zero_le _) hn)
    obtain ⟨j, js', hj, hjs', rfl⟩ := ofValues_cons hjs
    obtain rfl : js' = [] := by simpa [ofValues] using hjs'.symm
    have hread := hf t v j ht hj w (w' ++ 0x5D :: rest) last hw
      (stops_append hw' (stops_cons (.inr (.inr (.inl rfl))))) (by simpa using hlen)
    have htoken := skipCommentTokens_scan hw' (by decide) (scanToken_arrayEnd rest)
      (by decide) (some (w' ++ 0x5D :: rest)) []
    refine ⟨some (w' ++ 0x5D :: rest), ?_⟩
    rw [zero_add, List.append_assoc, OurReader.readElements, hread]
    dsimp only [bind, Except.bind]
    rw [htoken]
    rfl
  | @more w t w' ts v vs hw ht hw' _ ih =>
    intro n values js rest last hjs hn hlen
    obtain ⟨m, rfl⟩ := Nat.exists_eq_add_of_lt (Nat.lt_of_le_of_lt (Nat.zero_le _) hn)
    obtain ⟨j, js', hj, hjs', rfl⟩ := ofValues_cons hjs
    simp only [List.length_append, List.length_cons] at hn hlen
    have hread := hf t v j ht hj w (w' ++ 0x2C :: (ts ++ 0x5D :: rest)) last hw
      (stops_append hw' (stops_cons (.inr (.inl rfl)))) (by simp; omega)
    have htoken := skipCommentTokens_scan hw' (by decide)
      (scanToken_comma (ts ++ 0x5D :: rest)) (by decide)
      (some (w' ++ 0x2C :: (ts ++ 0x5D :: rest))) []
    obtain ⟨last', hrest⟩ := ih m (values ++ [j]) js' rest
      (some (w' ++ 0x2C :: (ts ++ 0x5D :: rest))) hjs' (by omega) (by simp; omega)
    refine ⟨last', ?_⟩
    have hassoc : w ++ t ++ w' ++ 0x2C :: ts ++ 0x5D :: rest
        = w ++ t ++ (w' ++ 0x2C :: (ts ++ 0x5D :: rest)) := by simp
    rw [zero_add, hassoc, OurReader.readElements, hread]
    dsimp only [bind, Except.bind]
    rw [htoken]
    dsimp only
    rw [if_neg (by decide), if_pos rfl, hrest]
    simp

theorem readArray_text (hP : ∀ t v, P t v → Starts t) {ts : Bytes} {vs : List Value}
    (h : Elements P ts vs) {js : List Json} (hjs : ofValues sscanf vs = some js) (rest : Bytes)
    (last : Option Bytes) (hlen : (ts ++ 0x5D :: rest).length < 2 ^ 30) :
    ∃ last', OurReader.readArray f ⟨ts ++ 0x5D :: rest, last, []⟩
      = .ok (some (.arr js), ⟨rest, last', []⟩) := by
  obtain ⟨ts', h', hskip, hhead, hle⟩ := elements_skipSpaces hP h rest
  simp only [List.length_append, List.length_cons] at hlen
  obtain ⟨last', hread⟩ := readElements_text hf h' ((ts' ++ 0x5D :: rest).length + 1) [] js rest
    last hjs (by simp only [List.length_append]; omega) (by simp; omega)
  refine ⟨last', ?_⟩
  unfold OurReader.readArray
  dsimp only
  rw [hskip, if_neg hhead, hread, List.nil_append]

theorem readMembers_text {ts : Bytes} {ms : List (List ℕ × Value)} (h : Members utf8 P ts ms) :
    ∀ (n : ℕ) (before : Bytes) (members members' : List (Bytes × Json)) (rest : Bytes)
      (last : Option Bytes), ofMembers sscanf ms members = some members' → ts.length < n →
      (ts ++ 0x7D :: rest).length < 2 ^ 30 →
      ∃ last', OurReader.readMembers f n before members ⟨ts ++ 0x7D :: rest, last, []⟩
        = .ok (some (.obj members'), ⟨rest, last', []⟩) := by
  induction h with
  | @last t m ht =>
    intro n before members members' rest last hms hn hlen
    obtain ⟨n, rfl⟩ := Nat.exists_eq_add_of_lt (Nat.lt_of_le_of_lt (Nat.zero_le _) hn)
    obtain ⟨j, hj, hms⟩ := ofMembers_cons hms
    obtain rfl := Option.some.inj hms
    obtain ⟨last', hturn⟩ := readMembers_turn (ht.mono fun t h => hf t _ j h hj) (.inl rfl) rest
      last hlen (0 + n) before members
    exact ⟨last', hturn.trans (if_pos rfl)⟩
  | @more t ts m ms ht _ ih =>
    intro n before members members' rest last hms hn hlen
    obtain ⟨n, rfl⟩ := Nat.exists_eq_add_of_lt (Nat.lt_of_le_of_lt (Nat.zero_le _) hn)
    obtain ⟨j, hj, hms⟩ := ofMembers_cons hms
    simp only [List.length_append, List.length_cons] at hn hlen
    obtain ⟨last₁, hturn⟩ := readMembers_turn (ht.mono fun t h => hf t _ j h hj) (.inr rfl)
      (ts ++ 0x7D :: rest) last
      (by simp only [List.length_append, List.length_cons]; omega) (0 + n) before members
    obtain ⟨last₂, hrest⟩ := ih (0 + n) (m.1.flatMap utf8) _ members' rest last₁ hms (by omega)
      (by simp only [List.length_append, List.length_cons]; omega)
    refine ⟨last₂, ?_⟩
    have hassoc : t ++ 0x2C :: ts ++ 0x7D :: rest = t ++ 0x2C :: (ts ++ 0x7D :: rest) := by simp
    rw [hassoc, hturn,
      if_neg (by decide), hrest]

end

section

variable {sscanf : Bytes → Option (Bytes × ℚ)} {room : ℕ}

/-- `readValue` behind its first token, where no comment is kept. -/
theorem readValue_of_token {w : Bytes} (hw : JsonSpace w) {c : UInt8} (hc : Begins c)
    {rest : Bytes} {type : TokenType} {finish : Bytes} (hscan : scanToken c rest = (type, finish))
    (htype : type ≠ .comment) (last : Option Bytes) :
    readValue sscanf (room + 1) ⟨w ++ c :: rest, last, []⟩
      = OurReader.valueOf (readValue sscanf room) sscanf ⟨type, between (c :: rest) finish⟩
          ⟨finish, last, []⟩ := by
  rw [readValue, skipCommentTokens_scan hw hc hscan htype]
  rfl

/-- **A text whose parts are read is read.** -/
theorem node_reads {P : Bytes → Value → Prop}
    (hf : ∀ t v j, P t v → ofValue sscanf v = some j → Reads (readValue sscanf room) t j)
    (hP : ∀ t v, P t v → Starts t) {t : Bytes} {v : Value} (h : Node utf8 P t v)
    {j : Json} (hj : ofValue sscanf v = some j) : Reads (readValue sscanf (room + 1)) t j := by
  intro w rest last hw hrest hlen
  have hliteral := scanToken_literal rest
  cases h with
  | null =>
    obtain rfl : Json.null = j := by simpa [ofValue] using hj
    rw [List.append_assoc]
    exact readValue_of_token hw (by decide) hliteral.2.2 (by decide) last
  | true =>
    obtain rfl : Json.bool true = j := by simpa [ofValue] using hj
    rw [List.append_assoc]
    exact readValue_of_token hw (by decide) hliteral.1 (by decide) last
  | false =>
    obtain rfl : Json.bool false = j := by simpa [ofValue] using hj
    rw [List.append_assoc]
    exact readValue_of_token hw (by decide) hliteral.2.1 (by decide) last
  | num ht =>
    obtain ⟨c, t', rfl, hc, hscan⟩ := scanToken_number ht hrest
    have hdecode : decodeNumber sscanf (c :: t') = .ok (some j) :=
      (decodeNumber_eq sscanf (List.cons_ne_nil c t')).trans (congrArg Except.ok hj)
    rw [List.append_assoc, List.cons_append, readValue_of_token hw hc hscan (by decide) last,
      ← List.cons_append, between_append]
    dsimp only [OurReader.valueOf]
    rw [hdecode]
    rfl
  | str ht =>
    obtain rfl := Option.some.inj hj
    have hdecode := decodeString_text ht
    obtain ⟨chars, hchars, rfl⟩ := ht
    have hscan := scanToken_string hchars rest
    have hopen : w ++ (0x22 :: chars ++ [0x22]) ++ rest
        = w ++ 0x22 :: (chars ++ 0x22 :: rest) := by simp
    have hclose : 0x22 :: (chars ++ 0x22 :: rest) = 0x22 :: chars ++ [0x22] ++ rest := by simp
    rw [hopen, readValue_of_token hw (by decide) hscan (by decide) last, hclose, between_append]
    dsimp only [OurReader.valueOf]
    rw [hdecode]
    rfl
  | emptyArr hw' =>
    rename_i w'
    obtain rfl : Json.arr [] = j := by simpa [ofValue, ofValues] using hj
    have hassoc : w ++ (0x5B :: w' ++ [0x5D]) ++ rest = w ++ 0x5B :: (w' ++ 0x5D :: rest) := by simp
    rw [hassoc, readValue_of_token hw (by decide) (scanToken_arrayBegin _) (by decide) last]
    have hempty : OurReader.readArray (readValue sscanf room) ⟨w' ++ 0x5D :: rest, last, []⟩
        = .ok (some (.arr []), ⟨rest, last, []⟩) := by
      rw [OurReader.readArray]
      dsimp only
      rw [skipSpaces_append hw' (by decide)]
      exact if_pos rfl
    dsimp only [OurReader.valueOf]
    rw [hempty]
    rfl
  | arr hts =>
    rename_i ts vs
    obtain ⟨js, hjs, rfl⟩ : ∃ js, ofValues sscanf vs = some js ∧ Json.arr js = j := by
      simpa [ofValue] using hj
    obtain ⟨last', hread⟩ := readArray_text hf hP hts hjs rest last
      (by simp only [List.length_append, List.length_cons] at hlen ⊢; omega)
    have hassoc : w ++ (0x5B :: ts ++ [0x5D]) ++ rest = w ++ 0x5B :: (ts ++ 0x5D :: rest) := by simp
    rw [hassoc, readValue_of_token hw (by decide) (scanToken_arrayBegin _) (by decide) last]
    dsimp only [OurReader.valueOf]
    rw [hread]
    rfl
  | emptyObj hw' =>
    rename_i w'
    obtain rfl : Json.obj [] = j := by simpa [ofValue, ofMembers] using hj
    have hassoc : w ++ (0x7B :: w' ++ [0x7D]) ++ rest = w ++ 0x7B :: (w' ++ 0x7D :: rest) := by simp
    rw [hassoc, readValue_of_token hw (by decide) (scanToken_objectBegin _) (by decide) last]
    have hempty : OurReader.readObject (readValue sscanf room) ⟨w' ++ 0x7D :: rest, last, []⟩
        = .ok (some (.obj []), ⟨rest, last, []⟩) := by
      rw [OurReader.readObject, OurReader.readMembers,
        skipCommentTokens_scan hw' (by decide) (scanToken_objectEnd rest) (by decide)]
      rfl
    dsimp only [OurReader.valueOf]
    rw [hempty]
    rfl
  | obj hts =>
    rename_i ts ms
    obtain ⟨members, hms, rfl⟩ : ∃ members, ofMembers sscanf ms [] = some members ∧
        Json.obj members = j := by
      simpa [ofValue] using hj
    have hlen' : (ts ++ 0x7D :: rest).length < 2 ^ 30 := by
      simp only [List.length_append, List.length_cons] at hlen ⊢
      omega
    obtain ⟨last', hread⟩ := readMembers_text hf hts ((ts ++ 0x7D :: rest).length + 1) [] []
      members rest last hms (by simp only [List.length_append]; omega) hlen'
    have hassoc : w ++ (0x7B :: ts ++ [0x7D]) ++ rest = w ++ 0x7B :: (ts ++ 0x7D :: rest) := by simp
    rw [hassoc, readValue_of_token hw (by decide) (scanToken_objectBegin _) (by decide) last]
    dsimp only [OurReader.valueOf, OurReader.readObject]
    rw [hread]
    rfl

/-- **Every JSON text is read as what it means**, if there is room for its values. -/
theorem readValue_text : ∀ {d : ℕ} {t : Bytes} {v : Value} {j : Json}, Text utf8 d t v →
    ofValue sscanf v = some j → ∀ {room : ℕ}, d < room → Reads (readValue sscanf room) t j := by
  intro d
  induction d with
  | zero =>
    intro t v j ht hj room hroom
    obtain ⟨room, rfl⟩ := Nat.exists_eq_add_of_lt hroom
    exact node_reads (P := fun _ _ => False) (fun _ _ _ h => h.elim) (fun _ _ h => h.elim) ht hj
  | succ d ih =>
    intro t v j ht hj room hroom
    obtain ⟨room, rfl⟩ := Nat.exists_eq_add_of_lt hroom
    exact node_reads (fun t v j ht hj => ih ht hj (by omega)) (fun _ _ h => h.starts) ht hj

/-- **Every JSON document is read as what it means**, with white space around it. -/
theorem parse_text {d : ℕ} (hd : d < stackLimit) {t : Bytes} {v : Value} (ht : Text utf8 d t v)
    {j : Json} (hj : ofValue sscanf v = some j) {w w' : Bytes} (hw : JsonSpace w)
    (hw' : JsonSpace w') (hlen : (w ++ t ++ w').length < 2 ^ 30) :
    parse sscanf (w ++ t ++ w') = .ok (some j) := by
  have hstops : Stops w' := by
    intro c hc
    exact .inl (isBlank_of_space hw' c (List.mem_of_mem_head? hc))
  have hread := readValue_text ht hj hd w w' none hw hstops hlen
  have hend : OurReader.skipCommentTokens ⟨w', some w', []⟩
      = .ok (⟨.endOfStream, []⟩, ⟨[], some w', []⟩) := by
    have hspaces : skipSpaces w' = [] := List.dropWhile_eq_nil_iff.mpr (isBlank_of_space hw')
    refine skipCommentTokens_of_readToken ?_ (by decide)
    unfold OurReader.readToken
    dsimp only
    rw [hspaces]
  rw [parse, hread]
  dsimp only [bind, Except.bind]
  rw [hend]
  rfl

end

end Reflector.Jsoncpp
