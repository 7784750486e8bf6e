/-
# The JSON writer (`BuiltStyledStreamWriter`, `jsoncpp.cpp`), and reading back

`Json::writeString` with the settings `StreamWriterBuilder` is built with: a tab for each level,
every element and every member on a line of its own, a space on both sides of the colon.  With
the comment style `All` the single-line form of an array is never taken.

The values are those without comments, and the branches that write comments are left out: nobody
gives comments to the values that the server builds, and the reader none to what it reads from a
document without comments (`Uncommented.lean`).

`write_text` says what a written value means as JSON, whatever bytes its strings hold: the
characters `utf8ToCodepoint` sees in them.  `parse_write` is the round trip: what the reader
makes of the text is the value, for a value whose strings are UTF-8 and whose members are in the
order of their names.
-/
import Reflector.Jsoncpp.Complete

namespace Reflector.Jsoncpp

open Base Base.Grammar Signaling

/-! ## 1. The writer -/

/-- `writeIndent`. -/
def writeIndent (depth : ℕ) : Bytes := 0x0A :: List.replicate depth 0x09

mutual

/-- `writeValue`; `indented` says that the value starts where the writer stands. -/
def writeValue (depth : ℕ) (indented : Bool) : Json → Bytes
  | .null => ascii "null"
  | .bool b => if b then ascii "true" else ascii "false"
  | .int i => Json.intText i
  | .real text _ => text
  | .str s => valueToQuotedString s
  | .arr [] => ascii "[]"
  | .arr (value :: values) =>
    (if indented then [] else writeIndent depth) ++ 0x5B :: writeIndent (depth + 1) ++
      writeValue (depth + 1) true value ++ writeElements (depth + 1) values ++
      writeIndent depth ++ [0x5D]
  | .obj [] => ascii "\x7b\x7d"
  | .obj ((name, value) :: members) =>
    (if indented then [] else writeIndent depth) ++ 0x7B :: writeIndent (depth + 1) ++
      valueToQuotedString name ++ ascii " : " ++ writeValue (depth + 1) false value ++
      writeMembers (depth + 1) members ++ writeIndent depth ++ [0x7D]

/-- The elements behind the first one. -/
def writeElements (depth : ℕ) : List Json → Bytes
  | [] => []
  | value :: values =>
    0x2C :: writeIndent depth ++ writeValue depth true value ++ writeElements depth values

/-- The members behind the first one. -/
def writeMembers (depth : ℕ) : List (Bytes × Json) → Bytes
  | [] => []
  | (name, value) :: members =>
    0x2C :: writeIndent depth ++ valueToQuotedString name ++ ascii " : " ++
      writeValue depth false value ++ writeMembers depth members

end

/-- `writeString`. -/
def writeString (root : Json) : Bytes := writeValue 0 true root

/-! ## 2. What a written value means -/

/-- Every value inside satisfies `leaf`, every object has names that satisfy `names`, and no value
is inside of more than `d` others. -/
def Throughout (leaf : Json → Prop) (names : List Bytes → Prop) : ℕ → Json → Prop
  | 0, .arr values => values = []
  | d + 1, .arr values => ∀ value ∈ values, Throughout leaf names d value
  | 0, .obj members => members = []
  | d + 1, .obj members =>
    names (members.map Prod.fst) ∧ ∀ m ∈ members, Throughout leaf names d m.2
  | _, j => leaf j

theorem Throughout.mono {leaf leaf' : Json → Prop} {names names' : List Bytes → Prop}
    (hleaf : ∀ j, leaf j → leaf' j) (hnames : ∀ l, names l → names' l) : ∀ {d : ℕ} {j : Json},
    Throughout leaf names d j → Throughout leaf' names' d j := by
  intro d
  induction d with
  | zero =>
    intro j h
    cases j with
    | arr | obj => exact h
    | null | bool | int | real | str => exact hleaf _ h
  | succ d ih =>
    intro j h
    cases j with
    | arr => exact fun value hvalue => ih (h value hvalue)
    | obj => exact ⟨hnames _ h.1, fun m hm => ih (h.2 m hm)⟩
    | null | bool | int | real | str => exact hleaf _ h


/-- Neither an array nor an object. -/
def Plain : Json → Prop
  | .arr _ | .obj _ => False
  | _ => True

theorem Throughout.leaf {leaf : Json → Prop} {names : List Bytes → Prop} {d : ℕ} {j : Json}
    (h : Throughout leaf names d j) (hj : Plain j) : leaf j := by
  cases d <;> cases j <;> first | exact h | exact absurd hj id

/-- The writer sees characters in it, and no surrogates. -/
def Spellable (s : Bytes) : Prop := ∀ c ∈ codepoints s, Scalar c

/-- A value that the writer writes as JSON. -/
def Writable : ℕ → Json → Prop :=
  Throughout
    (fun
      | .real text _ => NumberText text
      | .str s => Spellable s
      | _ => True)
    (fun names => ∀ name ∈ names, Spellable name)

mutual

/-- The value as JSON: its strings are the characters that the writer sees. -/
def meaning : Json → Value
  | .null => .null
  | .bool b => .bool b
  | .int i => .num (Json.intText i)
  | .real text _ => .num text
  | .str s => .str (codepoints s)
  | .arr values => .arr (meanings values)
  | .obj members => .obj (memberMeanings members)

def meanings : List Json → List Value
  | [] => []
  | value :: values => meaning value :: meanings values

def memberMeanings : List (Bytes × Json) → List (List ℕ × Value)
  | [] => []
  | (name, value) :: members => (codepoints name, meaning value) :: memberMeanings members

end

theorem numberText_intText (i : ℤ) : NumberText (Json.intText i) := by
  obtain ⟨hdigits, hzero⟩ := jsonInt_decimal i.natAbs
  refine ⟨Json.intText i, [], [], ⟨decimal i.natAbs, ?_, decimal_ne_nil _, hdigits, hzero⟩,
    .inl rfl, .inl rfl, by simp⟩
  unfold Json.intText
  split
  · exact .inr rfl
  · exact .inl rfl

theorem hex4_toHex16Bit {x : ℕ} (h : x < 0x10000) : Hex4 (toHex16Bit x) x := by
  have hdigit : ∀ d < 16, HexDigit (digitChar false d) d := fun d hd => ⟨hd, false, rfl⟩
  have := Hex4.digits (hdigit (x / 4096 % 16) (by omega)) (hdigit (x / 256 % 16) (by omega))
    (hdigit (x / 16 % 16) (by omega)) (hdigit (x % 16) (by omega))
  have hvalue : ((x / 4096 % 16 * 16 + x / 256 % 16) * 16 + x / 16 % 16) * 16 + x % 16 = x := by
    omega
  rwa [hvalue] at this

theorem shortEscape_cases {c : ℕ} {e : Bytes} (h : shortEscape c = some e) :
    ∃ b, e = [0x5C, b] ∧ (b, c) ∈ shortEscapes := by
  unfold shortEscape at h
  split at h
  all_goals first
    | (obtain rfl := Option.some.inj h
       exact ⟨_, rfl, by decide⟩)
    | exact absurd h (by simp)

/-- A character as the writer spells it. -/
theorem chars_escapeChar {c : ℕ} (hc : Scalar c) {t : Bytes} {s : List ℕ} (ht : Chars utf8 t s) :
    Chars utf8 (escapeChar c ++ t) (c :: s) := by
  unfold escapeChar
  split
  case h_1 e he =>
    obtain ⟨b, rfl, hb⟩ := shortEscape_cases he
    exact .escape b c hb ht
  case h_2 hshort =>
    split
    case isTrue hplain =>
      have hne : c ≠ 0x22 ∧ c ≠ 0x5C := by
        constructor <;> rintro rfl <;> exact absurd hshort (by decide)
      have hencode : utf8 c = [UInt8.ofNat c] := by
        rw [utf8, if_pos hplain.1]
        rfl
      rw [← hencode]
      exact .plain c ⟨hc, hplain.2, hne⟩ ht
    case isFalse =>
      split
      case isTrue hsmall => exact .unicode c (hex4_toHex16Bit hsmall) hc ht
      case isFalse hlarge =>
        have hlt := hc.lt
        have := Chars.pair ((c - 0x10000) / 1024 + 0xD800) ((c - 0x10000) % 1024 + 0xDC00)
          (hex4_toHex16Bit (by omega)) (hex4_toHex16Bit (by omega)) (by omega) (by omega) ht
        have hpair : 0x10000 + ((c - 0x10000) / 1024 + 0xD800 - 0xD800) * 0x400
            + ((c - 0x10000) % 1024 + 0xDC00 - 0xDC00) = c := by omega
        have hescape : ascii "\\u" = [0x5C, 0x75] := rfl
        rw [hpair] at this
        rw [hescape]
        simpa using this

theorem stringText_quoted {s : Bytes} (h : Spellable s) :
    StringText utf8 (valueToQuotedString s) (codepoints s) := by
  have hall : ∀ cs : List ℕ, (∀ c ∈ cs, Scalar c) → Chars utf8 (cs.flatMap escapeChar) cs := by
    intro cs hcs
    induction cs with
    | nil => exact .nil
    | cons c cs ih =>
      obtain ⟨hc, hcs⟩ := List.forall_mem_cons.mp hcs
      exact chars_escapeChar hc (ih hcs)
  exact ⟨_, hall _ h, rfl⟩

theorem jsonSpace_writeIndent (depth : ℕ) : JsonSpace (writeIndent depth) := by
  intro b hb
  rcases List.mem_cons.mp hb with rfl | hb
  · decide
  · rw [List.eq_of_mem_replicate hb]
    decide

theorem jsonSpace_append {w w' : Bytes} (hw : JsonSpace w) (hw' : JsonSpace w') :
    JsonSpace (w ++ w') := by
  intro b hb
  exact (List.mem_append.mp hb).elim (hw b) (hw' b)

/-- What `writeValue` writes, behind white space of its own. -/
def Written (P : Bytes → Value → Prop) (depth : ℕ) (indented : Bool) (j : Json) : Prop :=
  ∃ w t, writeValue depth indented j = w ++ t ∧ JsonSpace w ∧ P t (meaning j)

theorem elements_written {P : Bytes → Value → Prop} (depth : ℕ) {w' : Bytes} (hw' : JsonSpace w') :
    ∀ {value : Json} {values : List Json},
      (∀ v ∈ value :: values, Written P depth true v) →
      Elements P (writeIndent depth ++ writeValue depth true value ++ writeElements depth values
        ++ w') (meaning value :: meanings values) := by
  intro value values
  have hindent := jsonSpace_writeIndent depth
  induction values generalizing value with
  | nil =>
    intro h
    obtain ⟨w, t, heq, hw, ht⟩ := h value (by simp)
    rw [heq, writeElements, List.append_nil, ← List.append_assoc]
    exact .last (jsonSpace_append hindent hw) ht hw'
  | cons value' values ih =>
    intro h
    obtain ⟨w, t, heq, hw, ht⟩ := h value (by simp)
    have hrest := ih fun v hv => h v (List.mem_cons_of_mem _ hv)
    have := Elements.more (jsonSpace_append hindent hw) ht jsonSpace_nil hrest
    rw [heq, writeElements, meanings]
    simpa using this

theorem members_written {P : Bytes → Value → Prop} (depth : ℕ) {w' : Bytes} (hw' : JsonSpace w') :
    ∀ {name : Bytes} {value : Json} {members : List (Bytes × Json)},
      (∀ m ∈ (name, value) :: members, Spellable m.1 ∧ Written P depth false m.2) →
      Members utf8 P (writeIndent depth ++ valueToQuotedString name ++ ascii " : " ++
        writeValue depth false value ++ writeMembers depth members ++ w')
        ((codepoints name, meaning value) :: memberMeanings members) := by
  intro name value members
  have hindent := jsonSpace_writeIndent depth
  have hblank : JsonSpace [0x20] := by decide
  have hcolon : ascii " : " = [0x20, 0x3A, 0x20] := rfl
  induction members generalizing name value with
  | nil =>
    intro h
    obtain ⟨hname, w, t, heq, hw, ht⟩ := h (name, value) (by simp)
    have := Members.last (Member.mk hindent (stringText_quoted hname) hblank
      (jsonSpace_append hblank hw) ht hw')
    dsimp only at heq
    rw [heq, writeMembers, memberMeanings, hcolon]
    simpa using this
  | cons m members ih =>
    intro h
    obtain ⟨name', value'⟩ := m
    obtain ⟨hname, w, t, heq, hw, ht⟩ := h (name, value) (by simp)
    have hrest := ih fun m hm => h m (List.mem_cons_of_mem _ hm)
    have := Members.more (Member.mk hindent (stringText_quoted hname) hblank
      (jsonSpace_append hblank hw) ht jsonSpace_nil) hrest
    dsimp only at heq
    rw [heq, writeMembers, memberMeanings, hcolon]
    rw [hcolon] at this
    simpa using this

/-- **A written value is a JSON text**, and means the value. -/
theorem written_of_writable : ∀ {d : ℕ} {j : Json}, Writable d j →
    ∀ (depth : ℕ) (indented : Bool), Written (Text utf8 d) depth indented j := by
  have hspace : ∀ (depth : ℕ) (indented : Bool),
      JsonSpace (if indented then [] else writeIndent depth) := by
    intro depth indented
    split
    · exact jsonSpace_nil
    · exact jsonSpace_writeIndent depth
  -- a text that holds no other value is one at every depth
  have hclosed : ∀ {d : ℕ} {j : Json} {depth : ℕ} {indented : Bool},
      Node utf8 (fun _ _ => False) (writeValue depth indented j) (meaning j) →
      Written (Text utf8 d) depth indented j :=
    fun h => ⟨[], _, rfl, jsonSpace_nil, .of_node h⟩
  have hscalar : ∀ {d : ℕ} {j : Json}, Writable d j → Plain j →
      ∀ (depth : ℕ) (indented : Bool), Written (Text utf8 d) depth indented j := by
    intro d j h hj depth indented
    have hleaf := h.leaf hj
    cases j with
    | null => exact hclosed .null
    | bool b =>
      cases b with
      | false => exact hclosed .false
      | true => exact hclosed .true
    | int i => exact hclosed (.num (numberText_intText i))
    | real text q => exact hclosed (.num hleaf)
    | str s => exact hclosed (.str (stringText_quoted hleaf))
    | arr | obj => exact absurd hj id
  intro d
  induction d with
  | zero =>
    intro j h depth indented
    cases j with
    | arr values =>
      obtain rfl : values = [] := h
      exact hclosed (.emptyArr jsonSpace_nil)
    | obj members =>
      obtain rfl : members = [] := h
      exact hclosed (.emptyObj jsonSpace_nil)
    | null | bool | int | real | str => exact hscalar h trivial depth indented
  | succ d ih =>
    intro j h depth indented
    cases j with
    | arr values =>
      cases values with
      | nil => exact hclosed (.emptyArr jsonSpace_nil)
      | cons value values =>
        refine ⟨_, _, ?_, hspace depth indented, .arr (elements_written
          (depth + 1) (jsonSpace_writeIndent depth)
          fun v hv => ih (h v hv) (depth + 1) true)⟩
        rw [writeValue]
        simp
    | obj members =>
      cases members with
      | nil => exact hclosed (.emptyObj jsonSpace_nil)
      | cons m members =>
        obtain ⟨name, value⟩ := m
        refine ⟨_, _, ?_, hspace depth indented, .obj (members_written
          (depth + 1) (jsonSpace_writeIndent depth)
          fun m hm => ⟨h.1 m.1 (List.mem_map_of_mem hm), ih (h.2 m hm) (depth + 1) false⟩)⟩
        rw [writeValue]
        simp
    | null | bool | int | real | str => exact hscalar h trivial depth indented

/-- **What `writeString` writes is a JSON document**, and means the value. -/
theorem writeString_means {d : ℕ} {j : Json} (h : Writable d j) :
    ∃ w t, writeString j = w ++ t ∧ JsonSpace w ∧ Text utf8 d t (meaning j) :=
  written_of_writable h 0 true

/-! ## 3. The characters of a string -/

/-- Well-formed UTF-8. -/
def Utf8 (s : Bytes) : Prop := ∃ cs : List ℕ, (∀ c ∈ cs, Scalar c) ∧ s = cs.flatMap utf8

/-- The writer decodes what UTF-8 encodes. -/
theorem utf8ToCodepoint_utf8 {c : ℕ} (hc : Scalar c) : ∃ b bs, utf8 c = b :: bs ∧
    ∀ rest, utf8ToCodepoint b (bs ++ rest) = (c, bs.length) := by
  have hlt := hc.lt
  have hsurrogate : ¬(0xD800 ≤ c ∧ c ≤ 0xDFFF) := by
    rcases hc with hc | hc <;> omega
  unfold utf8
  by_cases h₁ : c < 0x80
  · rw [if_pos h₁]
    refine ⟨_, _, rfl, fun rest => ?_⟩
    simp only [utf8ToCodepoint, toNat_ofNat (by omega : c < 256), if_pos h₁]
    rfl
  by_cases h₂ : c < 0x800
  · rw [if_neg h₁, if_pos h₂]
    refine ⟨_, _, rfl, fun rest => ?_⟩
    simp only [List.map_cons, List.map_nil, List.cons_append, List.nil_append, utf8ToCodepoint,
      toNat_ofNat (by omega : 0xC0 + c / 64 < 256), List.getD_cons_zero,
      toNat_ofNat (by omega : 0x80 + c % 64 < 256), List.length_cons]
    rw [if_neg (by omega), if_pos (by omega), if_neg (by omega), if_neg (by omega)]
    simp only [List.length_nil, Prod.mk.injEq, and_true]
    omega
  by_cases h₃ : c < 0x10000
  · rw [if_neg h₁, if_neg h₂, if_pos h₃]
    refine ⟨_, _, rfl, fun rest => ?_⟩
    simp only [List.map_cons, List.map_nil, List.cons_append, List.nil_append, utf8ToCodepoint,
      toNat_ofNat (by omega : 0xE0 + c / 4096 < 256), List.getD_cons_zero, List.getD_cons_succ,
      toNat_ofNat (by omega : 0x80 + c / 64 % 64 < 256),
      toNat_ofNat (by omega : 0x80 + c % 64 < 256), List.length_cons]
    rw [if_neg (by omega), if_neg (by omega), if_pos (by omega), if_neg (by omega),
      if_neg (by omega), if_neg (by omega)]
    simp only [List.length_nil, Prod.mk.injEq, and_true]
    omega
  · rw [if_neg h₁, if_neg h₂, if_neg h₃]
    refine ⟨_, _, rfl, fun rest => ?_⟩
    simp only [List.map_cons, List.map_nil, List.cons_append, List.nil_append, utf8ToCodepoint,
      toNat_ofNat (by omega : 0xF0 + c / 262144 % 8 < 256), List.getD_cons_zero,
      List.getD_cons_succ, toNat_ofNat (by omega : 0x80 + c / 4096 % 64 < 256),
      toNat_ofNat (by omega : 0x80 + c / 64 % 64 < 256),
      toNat_ofNat (by omega : 0x80 + c % 64 < 256), List.length_cons]
    rw [if_neg (by omega), if_neg (by omega), if_neg (by omega), if_pos (by omega),
      if_neg (by omega), if_neg (by omega)]
    simp only [List.length_nil, Prod.mk.injEq, and_true]
    omega

theorem codepointsAux_utf8 {cs : List ℕ} (hcs : ∀ c ∈ cs, Scalar c) :
    ∀ n, (cs.flatMap utf8).length ≤ n → codepointsAux n (cs.flatMap utf8) = cs := by
  induction cs with
  | nil =>
    intro n _
    cases n <;> rfl
  | cons c cs ih =>
    intro n hn
    obtain ⟨hc, hcs⟩ := List.forall_mem_cons.mp hcs
    obtain ⟨b, bs, heq, hdecode⟩ := utf8ToCodepoint_utf8 hc
    rw [List.flatMap_cons, heq] at hn ⊢
    simp only [List.cons_append, List.length_cons, List.length_append] at hn
    obtain ⟨m, rfl⟩ := Nat.exists_eq_add_of_le' (by omega : 1 ≤ n)
    rw [List.cons_append, codepointsAux, hdecode]
    dsimp only
    rw [List.drop_left, ih hcs m (by omega)]

/-- **Decoding inverts encoding.** -/
theorem codepoints_utf8 {cs : List ℕ} (hcs : ∀ c ∈ cs, Scalar c) :
    codepoints (cs.flatMap utf8) = cs :=
  codepointsAux_utf8 hcs _ (Nat.le_refl _)

theorem Utf8.spellable {s : Bytes} (h : Utf8 s) : Spellable s := by
  obtain ⟨cs, hcs, rfl⟩ := h
  rw [Spellable, codepoints_utf8 hcs]
  exact hcs

theorem Utf8.codepoints {s : Bytes} (h : Utf8 s) : (codepoints s).flatMap utf8 = s := by
  obtain ⟨cs, hcs, rfl⟩ := h
  rw [codepoints_utf8 hcs]

/-! ## 4. Integers -/

theorem digitsFrom_decimal (n : ℕ) : digitsFrom 0 (decimal n) = n := by
  have := digitsValue_decimal n
  rw [digitsValue, List.takeWhile_eq_self_iff.mpr fun b hb => isDigit_of_mem_decimal hb] at this
  exact this

theorem integerOf_intText (i : ℤ) : integerOf (Json.intText i) = some i := by
  have hdigits : (decimal i.natAbs).all isDigit = true :=
    List.all_eq_true.mpr fun _ => isDigit_of_mem_decimal
  have hvalue := digitsFrom_decimal i.natAbs
  unfold Json.intText
  split
  case isTrue hneg =>
    rw [integerOf_minus, if_pos hdigits, hvalue]
    exact congrArg some (by omega)
  case isFalse hneg =>
    obtain ⟨d, ds, hcut⟩ := List.exists_cons_of_ne_nil (decimal_ne_nil i.natAbs)
    have hd : d ≠ 0x2D := by
      rintro rfl
      exact absurd (List.all_eq_true.mp hdigits 0x2D (by rw [hcut]; simp)) (by decide)
    rw [hcut] at hdigits hvalue ⊢
    rw [integerOf_cons hd, if_pos hdigits, hvalue]
    exact congrArg some (by omega)

/-- **An integer of 64 bits, signed or not, is read as it was written.** -/
theorem ofNumber_intText (sscanf : Bytes → Option (Bytes × ℚ)) {i : ℤ}
    (hmin : -2 ^ 63 ≤ i) (hmax : i < 2 ^ 64) :
    ofNumber sscanf (Json.intText i) = some (.int i) := by
  rw [ofNumber, integerOf_intText, Option.filter_some, if_pos (decide_eq_true ⟨hmin, hmax⟩)]

/-! ## 5. Members in order -/

theorem keyLess_irrefl : ∀ s : Bytes, keyLess s s = false
  | [] => rfl
  | a :: s => by simp [keyLess, keyLess_irrefl s]

theorem keyLess_trans : ∀ {s t u : Bytes}, keyLess s t = true → keyLess t u = true →
    keyLess s u = true
  | [], [], _, h, _ => absurd h (by decide)
  | [], _ :: _, [], _, h => absurd h (by simp [keyLess])
  | [], _ :: _, _ :: _, _, _ => rfl
  | _ :: _, [], _, h, _ => absurd h (by simp [keyLess])
  | _ :: _, _ :: _, [], _, h => absurd h (by simp [keyLess])
  | a :: s, b :: t, c :: u, h, h' => by
    simp only [keyLess, Bool.or_eq_true, decide_eq_true_eq, Bool.and_eq_true] at h h' ⊢
    rcases h with h | ⟨rfl, h⟩
    · rcases h' with h' | ⟨rfl, h'⟩
      · exact .inl (UInt8.lt_trans h h')
      · exact .inl h
    · rcases h' with h' | ⟨rfl, h'⟩
      · exact .inl h'
      · exact .inr ⟨rfl, keyLess_trans h h'⟩

theorem eq_of_not_keyLess : ∀ {s t : Bytes}, keyLess s t = false → keyLess t s = false → s = t
  | [], [], _, _ => rfl
  | [], _ :: _, h, _ => absurd h (by simp [keyLess])
  | _ :: _, [], _, h => absurd h (by simp [keyLess])
  | a :: s, b :: t, h, h' => by
    simp only [keyLess, Bool.or_eq_false_iff, decide_eq_false_iff_not, Bool.and_eq_false_iff]
      at h h'
    obtain rfl : a = b := UInt8.le_antisymm (UInt8.not_lt.mp h'.1) (UInt8.not_lt.mp h.1)
    rw [eq_of_not_keyLess (h.2.resolve_left fun h => h rfl) (h'.2.resolve_left fun h => h rfl)]

/-- The names of an object, as its map keeps them. -/
def InOrder (names : List Bytes) : Prop := names.Pairwise fun s t => keyLess s t = true

/-- A later member goes to the end. -/
theorem setMember_last {name : Bytes} (value : Json) {members : List (Bytes × Json)}
    (h : ∀ m ∈ members, keyLess m.1 name = true) :
    setMember name value members = members ++ [(name, value)] := by
  induction members with
  | nil => rfl
  | cons m members ih =>
    obtain ⟨hm, h⟩ := List.forall_mem_cons.mp h
    rw [setMember, if_pos hm, ih h, List.cons_append]

/-- Setting a member adds no name but its own, and no value but its own. -/
theorem mem_setMember {name : Bytes} {value : Json} {members : List (Bytes × Json)}
    {m : Bytes × Json} (h : m ∈ setMember name value members) :
    m = (name, value) ∨ m ∈ members := by
  induction members with
  | nil => exact .inl (by simpa [setMember] using h)
  | cons m' members ih =>
    rw [setMember] at h
    split at h
    · rcases List.mem_cons.mp h with rfl | h
      · exact .inr (by simp)
      · exact (ih h).imp_right (List.mem_cons_of_mem _)
    split at h
    · rcases List.mem_cons.mp h with rfl | h
      · exact .inl rfl
      · exact .inr h
    · rcases List.mem_cons.mp h with rfl | h
      · exact .inl rfl
      · exact .inr (List.mem_cons_of_mem _ h)

/-- **Setting a member keeps the members in order.** -/
theorem inOrder_setMember (name : Bytes) (value : Json) {members : List (Bytes × Json)}
    (h : InOrder (members.map Prod.fst)) :
    InOrder ((setMember name value members).map Prod.fst) := by
  induction members with
  | nil => simp [setMember, InOrder]
  | cons m members ih =>
    obtain ⟨key, old⟩ := m
    rw [List.map_cons, InOrder, List.pairwise_cons] at h
    rw [setMember]
    split
    case isTrue hless =>
      rw [List.map_cons, InOrder, List.pairwise_cons]
      refine ⟨fun k hk => ?_, ih h.2⟩
      obtain ⟨m, hm, rfl⟩ := List.mem_map.mp hk
      rcases mem_setMember hm with rfl | hm
      · exact hless
      · exact h.1 _ (List.mem_map_of_mem hm)
    case isFalse hless =>
      split
      case isTrue hgreater =>
        rw [List.map_cons, List.map_cons, InOrder, List.pairwise_cons, List.pairwise_cons]
        refine ⟨fun k hk => ?_, h⟩
        rcases List.mem_cons.mp hk with rfl | hk
        · exact hgreater
        · exact keyLess_trans hgreater (h.1 k hk)
      case isFalse hgreater =>
        obtain rfl : key = name :=
          eq_of_not_keyLess (by simpa using hless) (by simpa using hgreater)
        rw [List.map_cons, InOrder, List.pairwise_cons]
        exact h

/-! ## 6. Reading back -/

section

variable (sscanf : Bytes → Option (Bytes × ℚ))

/-- A value that survives being written and read: its strings are UTF-8, its integers have 64
bits, its doubles are what `sscanf` makes of their texts, and its members are in order. -/
def Lasting : ℕ → Json → Prop :=
  Throughout
    (fun
      | .int i => -2 ^ 63 ≤ i ∧ i < 2 ^ 64
      | .real text q => NumberText text ∧ ofNumber sscanf text = some (.real text q)
      | .str s => Utf8 s
      | _ => True)
    (fun names => InOrder names ∧ ∀ name ∈ names, Utf8 name)

variable {sscanf}

theorem Lasting.writable {d : ℕ} {j : Json} (h : Lasting sscanf d j) : Writable d j := by
  refine Throughout.mono (fun j hj => ?_) (fun names hn name hname => (hn.2 name hname).spellable) h
  cases j with
  | real => exact hj.1
  | str => exact hj.spellable
  | null | bool | int | arr | obj => trivial

theorem ofValues_meanings {values : List Json}
    (h : ∀ value ∈ values, ofValue sscanf (meaning value) = some value) :
    ofValues sscanf (meanings values) = some values := by
  induction values with
  | nil => rfl
  | cons value values ih =>
    obtain ⟨hvalue, h⟩ := List.forall_mem_cons.mp h
    rw [meanings, ofValues, hvalue, ih h]
    rfl

theorem ofMembers_meanings {members : List (Bytes × Json)}
    (h : ∀ m ∈ members, Utf8 m.1 ∧ ofValue sscanf (meaning m.2) = some m.2) :
    ∀ before : List (Bytes × Json), InOrder ((before ++ members).map Prod.fst) →
      ofMembers sscanf (memberMeanings members) before = some (before ++ members) := by
  induction members with
  | nil =>
    intro before _
    rw [memberMeanings, ofMembers, List.append_nil]
  | cons m members ih =>
    intro before hsorted
    obtain ⟨name, value⟩ := m
    obtain ⟨⟨hname, hvalue⟩, h⟩ := List.forall_mem_cons.mp h
    have hlast : ∀ m ∈ before, keyLess m.1 name = true := by
      intro m hm
      rw [List.map_append, InOrder, List.pairwise_append] at hsorted
      exact hsorted.2.2 m.1 (List.mem_map_of_mem hm) name (by simp)
    dsimp only at hname hvalue
    rw [memberMeanings, ofMembers, hvalue]
    dsimp only [bind, Option.bind]
    rw [hname.codepoints, setMember_last value hlast, ih h _ (by simpa using hsorted)]
    simp

/-- The reader makes the value of what the writer means by it. -/
theorem ofValue_meaning : ∀ {d : ℕ} {j : Json}, Lasting sscanf d j →
    ofValue sscanf (meaning j) = some j := by
  have hscalar : ∀ {d : ℕ} {j : Json}, Lasting sscanf d j → Plain j →
      ofValue sscanf (meaning j) = some j := by
    intro d j h hj
    have hleaf := h.leaf hj
    cases j with
    | null | bool => rfl
    | int i => rw [meaning, ofValue, ofNumber_intText sscanf hleaf.1 hleaf.2]
    | real text q => rw [meaning, ofValue, hleaf.2]
    | str s => rw [meaning, ofValue, Utf8.codepoints hleaf]
    | arr | obj => exact absurd hj id
  intro d
  induction d with
  | zero =>
    intro j h
    cases j with
    | arr values =>
      obtain rfl : values = [] := h
      rfl
    | obj members =>
      obtain rfl : members = [] := h
      rfl
    | null | bool | int | real | str => exact hscalar h trivial
  | succ d ih =>
    intro j h
    cases j with
    | arr values =>
      rw [meaning, ofValue, ofValues_meanings fun value hvalue => ih (h value hvalue)]
      rfl
    | obj members =>
      have hmembers := ofMembers_meanings
        (fun m hm => ⟨h.1.2 m.1 (List.mem_map_of_mem hm), ih (h.2 m hm)⟩) [] h.1.1
      rw [meaning, ofValue, hmembers]
      rfl
    | null | bool | int | real | str => exact hscalar h trivial

/-- **What `writeString` writes, `parse` reads back.** -/
theorem parse_writeString {d : ℕ} (hd : d < stackLimit) {j : Json} (h : Lasting sscanf d j)
    (hlen : (writeString j).length < 2 ^ 30) :
    parse sscanf (writeString j) = .ok (some j) := by
  obtain ⟨w, t, heq, hw, ht⟩ := writeString_means h.writable
  have := parse_text hd ht (ofValue_meaning h) hw jsonSpace_nil
    (by rw [List.append_nil, ← heq]; exact hlen)
  rw [List.append_nil, ← heq] at this
  exact this

end

end Reflector.Jsoncpp
