/-
# JSON texts

A fragment of the JSON grammar over bytes: objects whose members are strings and integers, in
ASCII.  A text of this fragment is a JSON object for every reader of JSON; the fragment has
just what a writer needs that escapes everything but printable ASCII.
-/
import Reflector.Base.Printf

namespace Base

/-! ## 1. The grammar -/

/-- White space between tokens. -/
def JsonSpace (w : Bytes) : Prop := ∀ b ∈ w, b = 0x20 ∨ b = 0x09 ∨ b = 0x0A ∨ b = 0x0D

instance (w : Bytes) : Decidable (JsonSpace w) :=
  List.decidableBAll _ w

def JsonHex (b : UInt8) : Prop :=
  (48 ≤ b ∧ b ≤ 57) ∨ (65 ≤ b ∧ b ≤ 70) ∨ (97 ≤ b ∧ b ≤ 102)

/-- The characters of a string, each as it is or escaped. -/
inductive JsonChars : Bytes → Prop
  | nil : JsonChars []
  | plain {s : Bytes} (b : UInt8) (h : 0x20 ≤ b ∧ b < 0x80 ∧ b ≠ 0x22 ∧ b ≠ 0x5C)
      (hs : JsonChars s) : JsonChars (b :: s)
  | escape {s : Bytes} (b : UInt8) (h : b ∈ ascii "\"\\/bfnrt") (hs : JsonChars s) :
      JsonChars (0x5C :: b :: s)
  | unicode {s : Bytes} (a b c d : UInt8) (ha : JsonHex a) (hb : JsonHex b) (hc : JsonHex c)
      (hd : JsonHex d) (hs : JsonChars s) : JsonChars (0x5C :: 0x75 :: a :: b :: c :: d :: s)

def JsonString (t : Bytes) : Prop := ∃ s, JsonChars s ∧ t = 0x22 :: s ++ [0x22]

/-- No leading zero, and a sign only if it is negative. -/
def JsonInt (t : Bytes) : Prop :=
  ∃ digits, (t = digits ∨ t = 0x2D :: digits) ∧ digits ≠ [] ∧
    (∀ b ∈ digits, 48 ≤ b ∧ b ≤ 57) ∧ (digits.head? = some 48 → digits = [48])

def JsonMember (m : Bytes) : Prop :=
  ∃ w₁ key w₂ w₃ value, JsonSpace w₁ ∧ JsonString key ∧ JsonSpace w₂ ∧ JsonSpace w₃ ∧
    (JsonString value ∨ JsonInt value) ∧ m = w₁ ++ key ++ w₂ ++ [0x3A] ++ w₃ ++ value

/-- **An object** of at least one member. -/
def JsonObject (t : Bytes) : Prop :=
  ∃ members w, members ≠ [] ∧ (∀ m ∈ members, JsonMember m) ∧ JsonSpace w ∧
    t = 0x7B :: [0x2C].intercalate members ++ w ++ [0x7D]

/-! ## 2. What is in it -/

theorem JsonChars.append {s t : Bytes} (hs : JsonChars s) (ht : JsonChars t) :
    JsonChars (s ++ t) := by
  induction hs with
  | nil => exact ht
  | plain b h _ ih => exact .plain b h ih
  | escape b h _ ih => exact .escape b h ih
  | unicode a b c d ha hb hc hd _ ih => exact .unicode a b c d ha hb hc hd ih

theorem JsonChars.flatMap {α : Type} {f : α → Bytes} (h : ∀ a, JsonChars (f a)) (l : List α) :
    JsonChars (l.flatMap f) := by
  induction l with
  | nil => exact .nil
  | cons a l ih =>
    rw [List.flatMap_cons]
    exact (h a).append ih

theorem jsonHex_digitChar {d : ℕ} (h : d < 16) : JsonHex (digitChar false d) := by
  have hall : ∀ d < 16, (48 ≤ digitChar false d ∧ digitChar false d ≤ 57) ∨
      (65 ≤ digitChar false d ∧ digitChar false d ≤ 70) ∨
      (97 ≤ digitChar false d ∧ digitChar false d ≤ 102) := by decide
  exact hall d h

/-- The decimal digits of a number, as JSON writes it. -/
theorem jsonInt_decimal (n : ℕ) : (∀ b ∈ decimal n, 48 ≤ b ∧ b ≤ 57) ∧
    ((decimal n).head? = some 48 → decimal n = [48]) := by
  constructor
  · intro b hb
    obtain ⟨d, hd, rfl⟩ := mem_decimal hb
    have hall : ∀ d < 10, 48 ≤ digitChar false d ∧ digitChar false d ≤ 57 := by decide
    exact hall d hd
  · intro hhead
    by_cases hn : n = 0
    · rw [decimal, if_pos hn]
    · -- the leading digit is the last one of `Nat.digits`, and that is not zero
      rw [decimal, if_neg hn, numeral, List.head?_map, List.head?_reverse] at hhead
      have hne : Nat.digits 10 n ≠ [] := Nat.digits_ne_nil_iff_ne_zero.mpr hn
      rw [List.getLast?_eq_some_getLast hne, Option.map_some, Option.some.injEq] at hhead
      have hlt : (Nat.digits 10 n).getLast hne < 10 :=
        Nat.digits_lt_base (by decide) (List.getLast_mem hne)
      have hzero : ∀ d < 10, digitChar false d = 48 → d = 0 := by decide
      exact absurd (hzero _ hlt hhead) (Nat.getLast_digit_ne_zero 10 hn)

end Base
