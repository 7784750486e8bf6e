/-
# JSON texts and what they mean

The grammar of JSON, over bytes: which texts are JSON, and which value each of them is.  A string
is the list of its characters, so that every spelling of it is one value.  A number is its text:
JSON leaves open what is made of it.  What it is worth as a decimal is `worth`, with a sign of its
own, as a reader may tell minus nothing from nothing; the integers are those that are spelled
without a point and an exponent (`integerOf`).

`encode` is how a character is written as it is; the grammar leaves it open.  `Text encode d`
are the texts whose values lie inside of at most `d` others: a container of depth `d + 1` holds
texts of depth `d`, and what it holds is described once for texts of any kind (`Elements`,
`Members`).
-/
import Mathlib.Algebra.Order.Ring.Rat
import Reflector.Base.JsonText

namespace Base.Grammar

/-! ## 1. Values -/

/-- What a text means.  The members of an object are in the order of the text, with every
occurrence of a name. -/
inductive Value
  | null
  | bool (b : Bool)
  | num (text : Bytes)
  | str (s : List ℕ)
  | arr (values : List Value)
  | obj (members : List (List ℕ × Value))

/-! ## 2. Strings -/

/-- A character: a code point that is no surrogate. -/
def Scalar (c : ℕ) : Prop := c < 0xD800 ∨ 0xE000 ≤ c ∧ c < 0x110000

instance (c : ℕ) : Decidable (Scalar c) :=
  inferInstanceAs (Decidable (c < 0xD800 ∨ 0xE000 ≤ c ∧ c < 0x110000))

theorem Scalar.lt {c : ℕ} (h : Scalar c) : c < 0x110000 := by
  rcases h with h | h <;> omega

/-- A hexadecimal digit, in either case. -/
def HexDigit (b : UInt8) (d : ℕ) : Prop := d < 16 ∧ ∃ upper, b = digitChar upper d

inductive Hex4 : Bytes → ℕ → Prop
  | digits {a b c d : UInt8} {i j k l : ℕ} (ha : HexDigit a i) (hb : HexDigit b j)
      (hc : HexDigit c k) (hd : HexDigit d l) :
      Hex4 [a, b, c, d] (((i * 16 + j) * 16 + k) * 16 + l)

theorem Hex4.lt {t : Bytes} {n : ℕ} (h : Hex4 t n) : n < 0x10000 := by
  obtain ⟨⟨hi, _⟩, ⟨hj, _⟩, ⟨hk, _⟩, ⟨hl, _⟩⟩ := h
  omega

theorem Hex4.length {t : Bytes} {n : ℕ} (h : Hex4 t n) : t.length = 4 := by
  cases h
  rfl

/-- What the short escapes stand for. -/
def shortEscapes : List (UInt8 × ℕ) :=
  [(0x22, 0x22), (0x5C, 0x5C), (0x2F, 0x2F), (0x62, 0x08), (0x66, 0x0C), (0x6E, 0x0A),
    (0x72, 0x0D), (0x74, 0x09)]

section

variable (encode : ℕ → Bytes)

/-- What stands between the quotes of a string, and its characters. -/
inductive Chars : Bytes → List ℕ → Prop
  | nil : Chars [] []
  | plain {t : Bytes} {s : List ℕ} (c : ℕ) (h : Scalar c ∧ 0x20 ≤ c ∧ c ≠ 0x22 ∧ c ≠ 0x5C)
      (ht : Chars t s) : Chars (encode c ++ t) (c :: s)
  | escape {t : Bytes} {s : List ℕ} (b : UInt8) (c : ℕ) (h : (b, c) ∈ shortEscapes)
      (ht : Chars t s) : Chars (0x5C :: b :: t) (c :: s)
  | unicode {t x : Bytes} {s : List ℕ} (c : ℕ) (hx : Hex4 x c) (h : Scalar c)
      (ht : Chars t s) : Chars (0x5C :: 0x75 :: x ++ t) (c :: s)
  | pair {t x y : Bytes} {s : List ℕ} (high low : ℕ) (hx : Hex4 x high) (hy : Hex4 y low)
      (hhigh : 0xD800 ≤ high ∧ high < 0xDC00) (hlow : 0xDC00 ≤ low ∧ low < 0xE000)
      (ht : Chars t s) :
      Chars (0x5C :: 0x75 :: x ++ 0x5C :: 0x75 :: y ++ t)
        ((0x10000 + (high - 0xD800) * 0x400 + (low - 0xDC00)) :: s)

def StringText (t : Bytes) (s : List ℕ) : Prop := ∃ chars, Chars encode chars s ∧
  t = 0x22 :: chars ++ [0x22]

end

/-! ## 3. Numbers -/

def Digits (t : Bytes) : Prop := t ≠ [] ∧ ∀ b ∈ t, isDigit b = true

def Fraction (t : Bytes) : Prop := t = [] ∨ ∃ d, Digits d ∧ t = 0x2E :: d

def Exponent (t : Bytes) : Prop :=
  t = [] ∨ ∃ e sign d, (e = 0x65 ∨ e = 0x45) ∧ (sign = [] ∨ sign = [0x2B] ∨ sign = [0x2D]) ∧
    Digits d ∧ t = e :: sign ++ d

def NumberText (t : Bytes) : Prop :=
  ∃ i f e, JsonInt i ∧ Fraction f ∧ Exponent e ∧ t = i ++ f ++ e

/-- The value of these digits behind this one. -/
def digitsFrom (value : ℕ) (digits : Bytes) : ℕ :=
  digits.foldl (fun n d => 10 * n + (d.toNat - 48)) value

def isNegative (t : Bytes) : Bool := t.head? = some 0x2D

def unsigned (t : Bytes) : Bytes := if isNegative t then t.tail else t

/-- Digits behind a sign, or behind none. -/
def signed (t : Bytes) : ℤ :=
  if isNegative t then -digitsFrom 0 t.tail
  else if t.head? = some 0x2B then digitsFrom 0 t.tail
  else digitsFrom 0 t

/-- The digits behind the point. -/
def fractionDigits (t : Bytes) : Bytes :=
  match (unsigned t).dropWhile isDigit with
  | 0x2E :: rest => rest.takeWhile isDigit
  | _ => []

def exponent (t : Bytes) : ℤ := signed (t.dropWhile fun b => b ≠ 0x65 ∧ b ≠ 0x45).tail

/-- Whether the number is negative, and its size. -/
def worth (t : Bytes) : Bool × ℚ :=
  (isNegative t, digitsFrom 0 ((unsigned t).takeWhile isDigit ++ fractionDigits t) *
    10 ^ (exponent t - (fractionDigits t).length))

example : worth (ascii "-12.50E-2") = (true, 1 / 8) := by decide +kernel

/-- The integer that the text spells, if it has neither point nor exponent. -/
def integerOf (t : Bytes) : Option ℤ :=
  if (unsigned t).all isDigit then some (signed t) else none

theorem natAbs_signed {t : Bytes} (h : ∀ b ∈ unsigned t, isDigit b = true) :
    (signed t).natAbs = digitsFrom 0 (unsigned t) := by
  rw [signed, unsigned]
  split
  · rw [Int.natAbs_neg, Int.natAbs_natCast]
  · rename_i hminus
    rw [unsigned, if_neg hminus] at h
    have hplus : t.head? ≠ some 0x2B := fun hplus =>
      absurd (h _ (List.mem_of_mem_head? hplus)) (by decide)
    rw [if_neg hplus, Int.natAbs_natCast]

theorem exponent_of_digits {t : Bytes} (h : ∀ b ∈ unsigned t, isDigit b = true) :
    exponent t = 0 := by
  have hmark : ∀ b, isDigit b = true → b ≠ 0x65 ∧ b ≠ 0x45 := by
    intro b hb
    constructor <;> rintro rfl <;> exact absurd hb (by decide)
  have hall : ∀ b ∈ t, b ≠ 0x65 ∧ b ≠ 0x45 := by
    intro b hb
    rw [unsigned] at h
    split at h
    · rename_i hminus
      obtain ⟨rest, rfl⟩ := List.head?_eq_some_iff.mp (of_decide_eq_true hminus)
      rcases List.mem_cons.mp hb with rfl | hb
      · decide
      · exact hmark b (h b hb)
    · exact hmark b (h b hb)
  rw [exponent, List.dropWhile_eq_nil_iff.mpr fun b hb => decide_eq_true (hall b hb)]
  rfl

/-- **An integer is worth itself.** -/
theorem worth_of_integerOf {t : Bytes} {z : ℤ} (h : integerOf t = some z) :
    worth t = (isNegative t, (z.natAbs : ℚ)) := by
  rw [integerOf] at h
  split at h
  case isFalse => exact absurd h (by simp)
  case isTrue hall =>
    have hdigits : ∀ b ∈ unsigned t, isDigit b = true := List.all_eq_true.mp hall
    have hfraction : fractionDigits t = [] := by
      rw [fractionDigits, List.dropWhile_eq_nil_iff.mpr hdigits]
    rw [worth, hfraction, exponent_of_digits hdigits, List.takeWhile_eq_self_iff.mpr hdigits,
      List.append_nil, ← natAbs_signed hdigits, Option.some.inj h]
    simp

/-! ## 4. Containers, over texts of any kind -/

section

variable (encode : ℕ → Bytes) (P : Bytes → Value → Prop)

/-- What stands between the brackets of an array that is not empty. -/
inductive Elements : Bytes → List Value → Prop
  | last {w t w' : Bytes} {v : Value} (hw : JsonSpace w) (ht : P t v) (hw' : JsonSpace w') :
      Elements (w ++ t ++ w') [v]
  | more {w t w' ts : Bytes} {v : Value} {vs : List Value} (hw : JsonSpace w) (ht : P t v)
      (hw' : JsonSpace w') (hts : Elements ts vs) : Elements (w ++ t ++ w' ++ 0x2C :: ts) (v :: vs)

/-- One member. -/
inductive Member : Bytes → List ℕ × Value → Prop
  | mk {w₁ k w₂ w₃ t w₄ : Bytes} {name : List ℕ} {v : Value} (h₁ : JsonSpace w₁)
      (hk : StringText encode k name) (h₂ : JsonSpace w₂) (h₃ : JsonSpace w₃) (ht : P t v)
      (h₄ : JsonSpace w₄) :
      Member (w₁ ++ k ++ w₂ ++ 0x3A :: (w₃ ++ t ++ w₄)) (name, v)

/-- What stands between the brackets of an object that is not empty. -/
inductive Members : Bytes → List (List ℕ × Value) → Prop
  | last {t : Bytes} {m : List ℕ × Value} (ht : Member encode P t m) : Members t [m]
  | more {t ts : Bytes} {m : List ℕ × Value} {ms : List (List ℕ × Value)}
      (ht : Member encode P t m) (hts : Members ts ms) : Members (t ++ 0x2C :: ts) (m :: ms)

/-- A text whose parts are of this kind. -/
inductive Node : Bytes → Value → Prop
  | null : Node (ascii "null") .null
  | true : Node (ascii "true") (.bool Bool.true)
  | false : Node (ascii "false") (.bool Bool.false)
  | num {t : Bytes} (ht : NumberText t) : Node t (.num t)
  | str {t : Bytes} {s : List ℕ} (ht : StringText encode t s) : Node t (.str s)
  | emptyArr {w : Bytes} (hw : JsonSpace w) : Node (0x5B :: w ++ [0x5D]) (.arr [])
  | arr {ts : Bytes} {vs : List Value} (hts : Elements P ts vs) :
      Node (0x5B :: ts ++ [0x5D]) (.arr vs)
  | emptyObj {w : Bytes} (hw : JsonSpace w) : Node (0x7B :: w ++ [0x7D]) (.obj [])
  | obj {ts : Bytes} {ms : List (List ℕ × Value)} (hts : Members encode P ts ms) :
      Node (0x7B :: ts ++ [0x7D]) (.obj ms)

end

/-- A JSON text, its values inside of at most `d` others, and what it means. -/
def Text (encode : ℕ → Bytes) : ℕ → Bytes → Value → Prop
  | 0 => Node encode fun _ _ => False
  | d + 1 => Node encode (Text encode d)

/-! ## 5. The same texts among more -/

section

variable {encode : ℕ → Bytes} {P Q : Bytes → Value → Prop}

theorem Elements.mono {ts : Bytes} {vs : List Value} (hts : Elements P ts vs) :
    (∀ t, ∀ v ∈ vs, P t v → Q t v) → Elements Q ts vs := by
  induction hts with
  | last hw ht hw' => exact fun h => .last hw (h _ _ (by simp) ht) hw'
  | more hw ht hw' _ ih =>
    exact fun h => .more hw (h _ _ (by simp) ht) hw'
      (ih fun t v hv => h t v (List.mem_cons_of_mem _ hv))

theorem Member.mono {t : Bytes} {m : List ℕ × Value} (ht : Member encode P t m)
    (h : ∀ t, P t m.2 → Q t m.2) : Member encode Q t m := by
  obtain ⟨h₁, hk, h₂, h₃, ht, h₄⟩ := ht
  exact .mk h₁ hk h₂ h₃ (h _ ht) h₄

theorem Members.mono {ts : Bytes} {ms : List (List ℕ × Value)} (hts : Members encode P ts ms) :
    (∀ t, ∀ m ∈ ms, P t m.2 → Q t m.2) → Members encode Q ts ms := by
  induction hts with
  | last ht => exact fun h => .last (ht.mono fun t => h t _ (by simp))
  | more ht _ ih =>
    exact fun h => .more (ht.mono fun t => h t _ (by simp))
      (ih fun t m hm => h t m (List.mem_cons_of_mem _ hm))

theorem Node.mono {t : Bytes} {v : Value} (ht : Node encode P t v) (h : ∀ t v, P t v → Q t v) :
    Node encode Q t v := by
  cases ht with
  | null => exact .null
  | true => exact .true
  | false => exact .false
  | num ht => exact .num ht
  | str ht => exact .str ht
  | emptyArr hw => exact .emptyArr hw
  | arr hts => exact .arr (hts.mono fun t v _ => h t v)
  | emptyObj hw => exact .emptyObj hw
  | obj hts => exact .obj (hts.mono fun t m _ => h t m.2)

end

/-- A text is one of any greater depth too. -/
theorem Text.mono {encode : ℕ → Bytes} : ∀ {d d' : ℕ}, d ≤ d' → ∀ {t : Bytes} {v : Value},
    Text encode d t v → Text encode d' t v := by
  have hsucc : ∀ (d : ℕ) (t : Bytes) (v : Value), Text encode d t v → Text encode (d + 1) t v := by
    intro d
    induction d with
    | zero => exact fun t v ht => Node.mono ht fun _ _ => False.elim
    | succ d ih => exact fun t v ht => Node.mono ht ih
  intro d d' hd t v ht
  induction hd with
  | refl => exact ht
  | step _ ih => exact hsucc _ t v ih

/-- A text that holds no other value is one of every depth. -/
theorem Text.of_node {encode : ℕ → Bytes} {d : ℕ} {t : Bytes} {v : Value}
    (h : Node encode (fun _ _ => False) t v) : Text encode d t v := by
  have hzero : Text encode 0 t v := h
  exact hzero.mono (Nat.zero_le d)

/-! ## 6. The first byte of a text -/

/-- No text begins with a blank, a closing bracket, or a byte that begins no token. -/
def Starts (t : Bytes) : Prop :=
  ∃ c t', t = c :: t' ∧ (c ∈ ascii "\x7b[\"-tfn" ∨ isDigit c = true)

theorem NumberText.starts {t : Bytes} (h : NumberText t) : Starts t := by
  obtain ⟨i, f, e, ⟨digits, hi, hne, hall, _⟩, _, _, rfl⟩ := h
  obtain ⟨d, ds, rfl⟩ := List.exists_cons_of_ne_nil hne
  rcases hi with rfl | rfl
  · refine ⟨d, ds ++ f ++ e, by simp, .inr ?_⟩
    have := hall d (by simp)
    simpa [isDigit] using this
  · exact ⟨0x2D, d :: ds ++ f ++ e, by simp, .inl (by decide)⟩

theorem Node.starts {encode : ℕ → Bytes} {P : Bytes → Value → Prop} {t : Bytes} {v : Value}
    (h : Node encode P t v) : Starts t := by
  cases h with
  | null => exact ⟨0x6E, ascii "ull", rfl, .inl (by decide)⟩
  | true => exact ⟨0x74, ascii "rue", rfl, .inl (by decide)⟩
  | false => exact ⟨0x66, ascii "alse", rfl, .inl (by decide)⟩
  | num ht => exact ht.starts
  | str ht =>
    obtain ⟨chars, _, rfl⟩ := ht
    exact ⟨0x22, chars ++ [0x22], rfl, .inl (by decide)⟩
  | emptyArr | arr => exact ⟨0x5B, _, rfl, .inl (by decide)⟩
  | emptyObj | obj => exact ⟨0x7B, _, rfl, .inl (by decide)⟩

theorem Text.starts {encode : ℕ → Bytes} {d : ℕ} {t : Bytes} {v : Value}
    (h : Text encode d t v) : Starts t := by
  cases d with
  | zero => exact Node.starts h
  | succ d => exact Node.starts h

/-! ## 7. The depth of a value -/

mutual

/-- How many values the deepest value inside of it is inside of. -/
def Value.depth : Value → ℕ
  | .arr values => depths values
  | .obj members => memberDepths members
  | _ => 0

def depths : List Value → ℕ
  | [] => 0
  | value :: values => max (value.depth + 1) (depths values)

def memberDepths : List (List ℕ × Value) → ℕ
  | [] => 0
  | (_, value) :: members => max (value.depth + 1) (memberDepths members)

end

theorem depth_lt_depths : ∀ {values : List Value}, ∀ v ∈ values, v.depth < depths values
  | value :: values, v, hv => by
    rw [depths]
    rcases List.mem_cons.mp hv with rfl | hv
    · omega
    · have := depth_lt_depths v hv
      omega

theorem depth_lt_memberDepths : ∀ {members : List (List ℕ × Value)}, ∀ m ∈ members,
    m.2.depth < memberDepths members
  | (name, value) :: members, m, hm => by
    rw [memberDepths]
    rcases List.mem_cons.mp hm with rfl | hm
    · dsimp only
      omega
    · have := depth_lt_memberDepths m hm
      omega

/-- A text whose value has this depth is a text of this depth. -/
theorem Text.at_depth {encode : ℕ → Bytes} : ∀ {d : ℕ} {t : Bytes} {v : Value},
    Text encode d t v → Text encode v.depth t v := by
  have hturn : ∀ {P : Bytes → Value → Prop} {t : Bytes} {v : Value},
      (∀ t v, P t v → Text encode v.depth t v) → Node encode P t v → Text encode v.depth t v := by
    intro P t v hP ht
    cases ht with
    | null => exact .of_node .null
    | true => exact .of_node .true
    | false => exact .of_node .false
    | num ht => exact .of_node (.num ht)
    | str ht => exact .of_node (.str ht)
    | emptyArr hw => exact .of_node (.emptyArr hw)
    | emptyObj hw => exact .of_node (.emptyObj hw)
    | @arr ts vs hts =>
      have hne : vs ≠ [] := by cases hts <;> simp
      obtain ⟨v, vs', rfl⟩ := List.exists_cons_of_ne_nil hne
      obtain ⟨n, hn⟩ := Nat.exists_eq_add_of_lt
        (Nat.lt_of_le_of_lt (Nat.zero_le _) (depth_lt_depths v (List.mem_cons_self (l := vs'))))
      rw [zero_add] at hn
      rw [Value.depth, hn]
      refine Node.arr (hts.mono fun t v' hv' ht => Text.mono ?_ (hP t v' ht))
      have := depth_lt_depths v' hv'
      omega
    | @obj ts ms hts =>
      have hne : ms ≠ [] := by cases hts <;> simp
      obtain ⟨m, ms', rfl⟩ := List.exists_cons_of_ne_nil hne
      obtain ⟨n, hn⟩ := Nat.exists_eq_add_of_lt (Nat.lt_of_le_of_lt (Nat.zero_le _)
        (depth_lt_memberDepths m (List.mem_cons_self (l := ms'))))
      rw [zero_add] at hn
      rw [Value.depth, hn]
      refine Node.obj (hts.mono fun t m' hm' ht => Text.mono ?_ (hP t m'.2 ht))
      have := depth_lt_memberDepths m' hm'
      omega
  intro d
  induction d with
  | zero => exact fun ht => hturn (fun _ _ => False.elim) ht
  | succ d ih => exact fun ht => hturn (fun _ _ => ih) ht

end Base.Grammar
