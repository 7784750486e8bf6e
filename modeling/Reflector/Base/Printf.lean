/-
# C numerals and `printf` formatting

`sprintf fmt args` is the text that `printf`-style formatting produces, with no bound on its
length; `none` means that the format and the arguments together have no documented result
(a missing argument, an argument of another type, a conversion cut off by the end of the
format).  The conversions covered are those for `int` and `char *` arguments: flags, width,
precision, `*`, the size prefixes `h` and `hh`, and the types `d i u o x X c s %`.  A percent
sign followed by a character that means nothing as a format field copies that character, as
the Microsoft C library documents.

`snprintf` is the bounded version: at most `n - 1` characters of that text, then a NUL.

`atoi` is the reverse direction, saturating at the bounds of a 32-bit `int`.
-/
import Mathlib.Data.Nat.Digits.Lemmas
import Mathlib.Tactic.IntervalCases
import Reflector.Base.Text

namespace Base

/-! ## 1. Numerals -/

/-- The character of one digit, for bases up to sixteen. -/
def digitChar (upper : Bool) (d : ℕ) : UInt8 :=
  UInt8.ofNat (if d < 10 then 48 + d else if upper then 55 + d else 87 + d)

/-- The digits of `n`, most significant first, and none at all for zero. -/
def numeral (base : ℕ) (upper : Bool) (n : ℕ) : Bytes :=
  (Nat.digits base n).reverse.map (digitChar upper)

/-- `%u`: at least one digit. -/
def decimal (n : ℕ) : Bytes := if n = 0 then [48] else numeral 10 false n

theorem decimal_ne_nil (n : ℕ) : decimal n ≠ [] := by
  unfold decimal
  split
  · simp
  · rename_i h
    simpa [numeral, Nat.digits_eq_nil_iff_eq_zero] using h

/-- A number below `10 ^ k` has at most `k` digits. -/
theorem length_decimal_le {n k : ℕ} (hk : 0 < k) (h : n < 10 ^ k) : (decimal n).length ≤ k := by
  unfold decimal
  split
  · exact hk
  · rw [numeral, List.length_map, List.length_reverse]
    exact (Nat.digits_length_le_iff (by decide) n).mpr h

theorem digitChar_ne_zero (upper : Bool) {d : ℕ} (h : d < 16) : digitChar upper d ≠ 0 := by
  interval_cases d <;> cases upper <;> decide

theorem mem_numeral {base n : ℕ} {upper : Bool} {b : UInt8} (hb : 1 < base)
    (h : b ∈ numeral base upper n) : ∃ d < base, b = digitChar upper d := by
  obtain ⟨d, hd, rfl⟩ := List.mem_map.mp h
  exact ⟨d, Nat.digits_lt_base hb (List.mem_reverse.mp hd), rfl⟩

/-- The characters of a decimal number are digits. -/
theorem mem_decimal {n : ℕ} {b : UInt8} (h : b ∈ decimal n) : ∃ d < 10, b = digitChar false d := by
  unfold decimal at h
  split at h
  · exact ⟨0, by decide, List.mem_singleton.mp h⟩
  · exact mem_numeral (by decide) h

/-- The 32-bit two's complement reading of an integer. -/
def toInt32 (i : ℤ) : ℤ := (i + 2 ^ 31) % 2 ^ 32 - 2 ^ 31

theorem toInt32_of_lt {n : ℕ} (h : n < 2 ^ 31) : toInt32 n = n := by
  unfold toInt32
  omega

/-- White space as `isspace` has it in the C locale. -/
def isSpace (b : UInt8) : Bool := b == 32 || (9 ≤ b && b ≤ 13)

def isDigit (b : UInt8) : Bool := 48 ≤ b && b ≤ 57

/-- The value of the digits in front. -/
def digitsValue (b : Bytes) : ℕ :=
  (b.takeWhile isDigit).foldl (fun n d => 10 * n + (d.toNat - 48)) 0

/-- `atoi`: white space, a sign, digits; saturates at the bounds of `int`. -/
def atoi (b : Bytes) : ℤ :=
  match b.dropWhile isSpace with
  | [] => 0
  | c :: r =>
    if c = 45 then max (-(digitsValue r : ℤ)) (-2 ^ 31)
    else if c = 43 then min (digitsValue r : ℤ) (2 ^ 31 - 1)
    else min (digitsValue (c :: r) : ℤ) (2 ^ 31 - 1)

/-- The conversion of an `int` to `uint32_t`. -/
def toUInt32 (i : ℤ) : ℕ := (i % 2 ^ 32).toNat

theorem isDigit_digitChar {d : ℕ} (h : d < 10) : isDigit (digitChar false d) = true := by
  interval_cases d <;> decide

theorem isDigit_of_mem_decimal {n : ℕ} {b : UInt8} (h : b ∈ decimal n) : isDigit b = true := by
  obtain ⟨d, hd, rfl⟩ := mem_decimal h
  exact isDigit_digitChar hd

theorem notMem_decimal {b : UInt8} (hb : isDigit b = false) (n : ℕ) : b ∉ decimal n :=
  fun h => absurd (isDigit_of_mem_decimal h) (by simp [hb])

theorem toNat_digitChar {d : ℕ} (h : d < 10) : (digitChar false d).toNat - 48 = d := by
  interval_cases d <;> decide

/-- The digits of a number say the number. -/
theorem digitsValue_decimal (n : ℕ) : digitsValue (decimal n) = n := by
  have hall : (decimal n).takeWhile isDigit = decimal n := by
    refine List.takeWhile_eq_self_iff.mpr fun b hb => ?_
    obtain ⟨d, hd, rfl⟩ := mem_decimal hb
    exact isDigit_digitChar hd
  rw [digitsValue, hall, decimal]
  split
  · rename_i hn
    subst hn
    rfl
  · rw [numeral, List.foldl_map, List.foldl_reverse]
    have hfold : ∀ ds : List ℕ, (∀ d ∈ ds, d < 10) →
        ds.foldr (fun d n => 10 * n + ((digitChar false d).toNat - 48)) 0 = Nat.ofDigits 10 ds := by
      intro ds
      induction ds with
      | nil =>
        intro _
        rfl
      | cons d ds ih =>
        intro hds
        rw [List.foldr_cons, ih fun x hx => hds x (List.mem_cons_of_mem _ hx),
          toNat_digitChar (hds d List.mem_cons_self), Nat.ofDigits_cons]
        omega
    rw [hfold _ fun d hd => Nat.digits_lt_base (by decide) hd, Nat.ofDigits_digits]

/-- **`atoi` reads a number back**, up to the largest `int`. -/
theorem atoi_decimal (n : ℕ) : atoi (decimal n) = min (n : ℤ) (2 ^ 31 - 1) := by
  obtain ⟨c, r, hcr⟩ := List.exists_cons_of_ne_nil (decimal_ne_nil n)
  obtain ⟨d, hd, hc⟩ := mem_decimal (show c ∈ decimal n from hcr ▸ List.mem_cons_self)
  have hchar : isSpace c = false ∧ c ≠ 45 ∧ c ≠ 43 := by
    rw [hc]
    interval_cases d <;> decide
  obtain ⟨hspace, hminus, hplus⟩ := hchar
  have hvalue := digitsValue_decimal n
  rw [hcr] at hvalue ⊢
  rw [atoi, List.dropWhile_cons_of_neg (by simp [hspace])]
  simp only [if_neg hminus, if_neg hplus, hvalue]

/-! ## 2. One conversion specification -/

/-- An argument of a formatting call. -/
inductive FmtArg
  | str (s : Bytes)
  | int (i : ℤ)
  deriving DecidableEq, Repr

/-- `h` and `hh` narrow the argument; anything else asks for a type not covered. -/
inductive FmtSize
  | int | short | char
  deriving DecidableEq, Repr

structure FmtSpec where
  minus : Bool
  plus : Bool
  space : Bool
  hash : Bool
  zero : Bool
  width : ℕ
  prec : Option ℕ
  size : FmtSize
  deriving DecidableEq, Repr

def isFlag (b : UInt8) : Bool := b == 45 || b == 43 || b == 32 || b == 35 || b == 48

/-- Pad to the field width: on the right with blanks, on the left with blanks, or between
the sign and the digits with zeros. -/
def FmtSpec.pad (f : FmtSpec) (zeros : Bool) (sign body : Bytes) : Bytes :=
  let n := f.width - (sign.length + body.length)
  if f.minus then sign ++ body ++ List.replicate n 32
  else if zeros then sign ++ List.replicate n 48 ++ body
  else List.replicate n 32 ++ sign ++ body

/-- The digits of an integer conversion, filled up to the precision (one digit when none is
given; a zero with precision zero has no digits). -/
def FmtSpec.digits (f : FmtSpec) (base : ℕ) (upper : Bool) (n : ℕ) : Bytes :=
  let ds := numeral base upper n
  List.replicate (f.prec.getD 1 - ds.length) 48 ++ ds

/-- The zero flag counts only without a precision. -/
def FmtSpec.zeros (f : FmtSpec) : Bool := f.zero && f.prec.isNone

/-- The argument as the size prefix narrows it, signed and unsigned. -/
def FmtSize.bits : FmtSize → ℕ
  | .int => 32
  | .short => 16
  | .char => 8

def FmtSpec.signed (f : FmtSpec) (i : ℤ) : ℤ :=
  (i + 2 ^ (f.size.bits - 1)) % 2 ^ f.size.bits - 2 ^ (f.size.bits - 1)

def FmtSpec.unsigned (f : FmtSpec) (i : ℤ) : ℕ := (i % 2 ^ f.size.bits).toNat

/-- What a conversion of type `ty` makes of its argument. -/
def FmtSpec.convert (f : FmtSpec) (ty : UInt8) (arg : FmtArg) : Option Bytes :=
  match arg with
  | .str s =>
    if ty = 115 ∧ f.size = .int then
      some (f.pad false [] (match f.prec with | none => s | some k => s.take k))
    else none
  | .int i =>
    if ty = 100 ∨ ty = 105 then
      let v := f.signed i
      let sign : Bytes :=
        if v < 0 then [45] else if f.plus then [43] else if f.space then [32] else []
      some (f.pad f.zeros sign (f.digits 10 false v.natAbs))
    else if ty = 117 then some (f.pad f.zeros [] (f.digits 10 false (f.unsigned i)))
    else if ty = 111 then
      let ds := f.digits 8 false (f.unsigned i)
      some (f.pad f.zeros [] (if f.hash && ds.head? != some 48 then 48 :: ds else ds))
    else if ty = 120 ∨ ty = 88 then
      let n := f.unsigned i
      some (f.pad f.zeros (if f.hash && n != 0 then [48, ty] else []) (f.digits 16 (ty == 88) n))
    else if ty = 99 ∧ f.size = .int then
      some (f.pad false [] [UInt8.ofNat (i % 256).toNat])
    else none

/-- The type characters of the Microsoft library: these are never copied. -/
def isType (b : UInt8) : Bool := (ascii "diuoxXcspnaAeEfFgGCSZ").contains b

/-- The characters that may stand between the percent sign and the type. -/
def isField (b : UInt8) : Bool := isFlag b || isDigit b || (ascii ".*hlLjztwI").contains b

/-- A number or a `*` argument, in width position. -/
def fmtWidth (b : Bytes) (args : List FmtArg) : Option (ℤ × Bytes × List FmtArg) :=
  match b with
  | 42 :: rest =>
    match args with
    | .int i :: args => some (i, rest, args)
    | _ => none
  | _ => some (digitsValue b, b.dropWhile isDigit, args)

/-- The precision, when a dot announces one; a negative `*` counts as none. -/
def fmtPrec (b : Bytes) (args : List FmtArg) : Option (Option ℕ × Bytes × List FmtArg) :=
  match b with
  | 46 :: rest =>
    (fmtWidth rest args).map fun (i, rest, args) =>
      (if i < 0 then none else some i.toNat, rest, args)
  | _ => some (none, b, args)

def fmtSize : Bytes → FmtSize × Bytes
  | 104 :: 104 :: rest => (.char, rest)
  | 104 :: rest => (.short, rest)
  | b => (.int, b)

/-- One conversion, from just after the percent sign: its text, the rest of the format and
the arguments left. -/
def fmtConv (b : Bytes) (args : List FmtArg) : Option (Bytes × Bytes × List FmtArg) :=
  match b with
  | [] => none
  | c :: rest =>
    if c = 37 then some ([37], rest, args)
    else if !(isField c || isType c) then some ([c], rest, args)
    else do
      let flags := b.takeWhile isFlag
      let (w, b₁, args₁) ← fmtWidth (b.dropWhile isFlag) args
      let (prec, b₂, args₂) ← fmtPrec b₁ args₁
      let (size, b₃) := fmtSize b₂
      match b₃, args₂ with
      | ty :: rest, arg :: args₃ =>
        let spec : FmtSpec :=
          { minus := flags.contains 45 || decide (w < 0), plus := flags.contains 43,
            space := flags.contains 32, hash := flags.contains 35, zero := flags.contains 48,
            width := w.natAbs, prec := prec, size := size }
        (spec.convert ty arg).map fun out => (out, rest, args₃)
      | _, _ => none

/-! ## 3. A whole format -/

/-- At most `n` bytes of the format are looked at. -/
def sprintfAux : ℕ → Bytes → List FmtArg → Option Bytes
  | _, [], _ => some []
  | 0, _ :: _, _ => none
  | n + 1, b :: rest, args =>
    if b = 37 then
      match fmtConv rest args with
      | none => none
      | some (out, rest', args') => (sprintfAux n rest' args').map (out ++ ·)
    else (sprintfAux n rest args).map (b :: ·)

/-- The text of a formatting call, unbounded. -/
def sprintf (fmt : Bytes) (args : List FmtArg) : Option Bytes := sprintfAux fmt.length fmt args

/-! ### What a conversion consumes -/

/-- No flags, no width, no precision and no size. -/
def FmtSpec.plain : FmtSpec :=
  { minus := false, plus := false, space := false, hash := false, zero := false, width := 0,
    prec := none, size := .int }

theorem isField_of_isFlag {x : UInt8} (h : isFlag x = true) : isField x = true := by
  simp [isField, h]

theorem fmtWidth_consumes {b rest : Bytes} {args args' : List FmtArg} {w : ℤ}
    (h : fmtWidth b args = some (w, rest, args')) :
    ∃ used taken, b = used ++ rest ∧ args = taken ++ args' ∧ (∀ x ∈ used, isField x = true) ∧
      (used = [] → taken = [] ∧ w = 0) := by
  unfold fmtWidth at h
  split at h
  · split at h
    · rename_i i args
      simp only [Option.some.injEq, Prod.mk.injEq] at h
      obtain ⟨-, rfl, rfl⟩ := h
      exact ⟨[42], [.int i], rfl, rfl, by decide +kernel, by simp⟩
    · exact absurd h (by simp)
  · simp only [Option.some.injEq, Prod.mk.injEq] at h
    obtain ⟨rfl, rfl, rfl⟩ := h
    refine ⟨b.takeWhile isDigit, [], List.takeWhile_append_dropWhile.symm, rfl, fun x hx => ?_,
      fun hnil => ⟨rfl, by simp [digitsValue, hnil]⟩⟩
    simp [isField, List.mem_takeWhile_imp hx]

theorem fmtPrec_consumes {b rest : Bytes} {args args' : List FmtArg} {k : Option ℕ}
    (h : fmtPrec b args = some (k, rest, args')) :
    ∃ used taken, b = used ++ rest ∧ args = taken ++ args' ∧ (∀ x ∈ used, isField x = true) ∧
      (used = [] → taken = [] ∧ k = none) := by
  unfold fmtPrec at h
  split at h
  · obtain ⟨⟨i, r, as⟩, hw, heq⟩ := Option.map_eq_some_iff.mp h
    simp only [Prod.mk.injEq] at heq
    obtain ⟨-, rfl, rfl⟩ := heq
    obtain ⟨used, taken, rfl, rfl, hu, -⟩ := fmtWidth_consumes hw
    exact ⟨46 :: used, taken, rfl, rfl, List.forall_mem_cons.mpr ⟨by decide, hu⟩, by simp⟩
  · simp only [Option.some.injEq, Prod.mk.injEq] at h
    obtain ⟨rfl, rfl, rfl⟩ := h
    exact ⟨[], [], rfl, rfl, by simp, fun _ => ⟨rfl, rfl⟩⟩

theorem fmtSize_consumes (b : Bytes) : ∃ used, b = used ++ (fmtSize b).2 ∧
    (∀ x ∈ used, isField x = true) ∧ (used = [] → (fmtSize b).1 = .int) := by
  unfold fmtSize
  split
  · exact ⟨[104, 104], rfl, by decide +kernel, by simp⟩
  · exact ⟨[104], rfl, by decide +kernel, by simp⟩
  · exact ⟨[], rfl, by simp, fun _ => rfl⟩

theorem FmtSpec.convert_nul (f : FmtSpec) (arg : FmtArg) : f.convert 0 arg = none := by
  cases arg <;> simp [FmtSpec.convert]

/-- Everything a percent sign can do, from just after it. -/
inductive Converts : Bytes → List FmtArg → Bytes → Bytes → List FmtArg → Prop
  | percent (rest : Bytes) (args : List FmtArg) : Converts (37 :: rest) args [37] rest args
  | stray (c : UInt8) (rest : Bytes) (args : List FmtArg) (hc : c ≠ 37)
      (hfield : isField c = false) (htype : isType c = false) :
      Converts (c :: rest) args [c] rest args
  | conv (fields : Bytes) (ty : UInt8) (rest : Bytes) (taken : List FmtArg) (arg : FmtArg)
      (args : List FmtArg) (spec : FmtSpec) (out : Bytes)
      (hfields : ∀ x ∈ fields, isField x = true)
      (hplain : fields = [] → taken = [] ∧ spec = .plain) (hout : spec.convert ty arg = some out) :
      Converts (fields ++ ty :: rest) (taken ++ arg :: args) out rest args

theorem converts_of_fmtConv {b out rest : Bytes} {args args' : List FmtArg}
    (h : fmtConv b args = some (out, rest, args')) : Converts b args out rest args' := by
  cases b with
  | nil => exact absurd h (by simp [fmtConv])
  | cons c b' =>
    rw [fmtConv] at h
    split at h
    · rename_i hc
      simp only [Option.some.injEq, Prod.mk.injEq] at h
      obtain ⟨rfl, rfl, rfl⟩ := h
      subst hc
      exact .percent b' args
    · rename_i hc
      split at h
      · rename_i hmeans
        simp only [Option.some.injEq, Prod.mk.injEq] at h
        obtain ⟨rfl, rfl, rfl⟩ := h
        simp only [Bool.not_eq_true', Bool.or_eq_false_iff] at hmeans
        exact .stray c b' args hc hmeans.1 hmeans.2
      · simp only [Option.bind_eq_bind, Option.bind_eq_some_iff] at h
        obtain ⟨⟨w, b₁, args₁⟩, hw, ⟨k, b₂, args₂⟩, hk, h⟩ := h
        obtain ⟨u₁, t₁, e₁, rfl, f₁, p₁⟩ := fmtWidth_consumes hw
        obtain ⟨u₂, t₂, e₂, rfl, f₂, p₂⟩ := fmtPrec_consumes hk
        obtain ⟨u₃, e₃, f₃, p₃⟩ := fmtSize_consumes b₂
        have f₀ : ∀ x ∈ (c :: b').takeWhile isFlag, isField x = true := fun x hx =>
          isField_of_isFlag (List.mem_takeWhile_imp hx)
        have e₀ : c :: b'
            = (c :: b').takeWhile isFlag ++ (u₁ ++ (u₂ ++ (u₃ ++ (fmtSize b₂).2))) := by
          rw [← e₃, ← e₂, ← e₁, List.takeWhile_append_dropWhile]
        generalize (c :: b').takeWhile isFlag = u₀ at *
        dsimp only at h
        split at h
        · rename_i ty rest' arg args₃ e₄
          obtain ⟨t, ht, heq⟩ := Option.map_eq_some_iff.mp h
          simp only [Prod.mk.injEq] at heq
          obtain ⟨rfl, rfl, rfl⟩ := heq
          have hb : c :: b' = (u₀ ++ (u₁ ++ (u₂ ++ u₃))) ++ ty :: rest' := by
            rw [e₀, e₄]
            simp
          rw [hb, show t₁ ++ (t₂ ++ arg :: args₃) = (t₁ ++ t₂) ++ arg :: args₃ by simp]
          refine .conv _ ty rest' (t₁ ++ t₂) arg args₃ _ t ?_ ?_ ht
          · simp only [List.forall_mem_append]
            exact ⟨f₀, f₁, f₂, f₃⟩
          · intro hnil
            simp only [List.append_eq_nil_iff] at hnil
            obtain ⟨rfl, rfl, rfl, rfl⟩ := hnil
            obtain ⟨rfl, rfl⟩ := p₁ rfl
            obtain ⟨rfl, rfl⟩ := p₂ rfl
            exact ⟨rfl, by simp [FmtSpec.plain, p₃ rfl]⟩
        · exact absurd h (by simp)

/-- **A conversion consumes a non-empty stretch of the format, and swallows no NUL**: a NUL
can only be the character that a stray percent sign copies. -/
theorem fmtConv_consumes {b out rest : Bytes} {args args' : List FmtArg}
    (h : fmtConv b args = some (out, rest, args')) :
    ∃ used, b = used ++ rest ∧ used ≠ [] ∧ (0 ∈ used → 0 ∈ out) := by
  cases converts_of_fmtConv h with
  | percent => exact ⟨[37], rfl, by simp, id⟩
  | stray c => exact ⟨[c], rfl, by simp, id⟩
  | conv fields ty _ taken arg _ spec _ hfields hplain hout =>
    refine ⟨fields ++ [ty], by simp, by simp, fun h0 => ?_⟩
    rcases List.mem_append.mp h0 with h0 | h0
    · exact absurd (hfields 0 h0) (by decide)
    · obtain rfl : 0 = ty := by simpa using h0
      rw [FmtSpec.convert_nul] at hout
      exact absurd hout (by simp)

/-! ### The equations of `sprintf` -/

/-- Looking at more bytes than there are makes no difference. -/
theorem sprintfAux_of_le : ∀ {n : ℕ} {fmt : Bytes} {args : List FmtArg}, fmt.length ≤ n →
    sprintfAux n fmt args = sprintf fmt args
  | 0, [], _, _ => rfl
  | _ + 1, [], _, _ => rfl
  | n + 1, b :: rest, args, h => by
    have hr : rest.length ≤ n := by simpa using h
    rw [sprintf, List.length_cons, sprintfAux, sprintfAux]
    split
    · split
      · rfl
      · rename_i out rest' args' hc
        obtain ⟨used, hu, -, -⟩ := fmtConv_consumes hc
        have hlen : rest'.length ≤ rest.length := by
          rw [hu]
          simp
        rw [sprintfAux_of_le (n := n) (by omega), sprintfAux_of_le (n := rest.length) hlen]
    · rw [sprintfAux_of_le (n := n) hr, sprintf]

@[simp] theorem sprintf_nil (args : List FmtArg) : sprintf [] args = some [] := rfl

theorem sprintf_cons {b : UInt8} (hb : b ≠ 37) (rest : Bytes) (args : List FmtArg) :
    sprintf (b :: rest) args = (sprintf rest args).map (b :: ·) := by
  rw [sprintf, List.length_cons, sprintfAux, if_neg hb, sprintf]

/-- Ordinary characters are copied. -/
theorem sprintf_append : ∀ {lit : Bytes}, (37 : UInt8) ∉ lit → ∀ (rest : Bytes)
    (args : List FmtArg), sprintf (lit ++ rest) args = (sprintf rest args).map (lit ++ ·) := by
  intro lit
  induction lit with
  | nil =>
    intro _ rest args
    simp
  | cons b lit ih =>
    intro h rest args
    have hb : b ≠ 37 := fun e => h (by simp [e])
    rw [List.cons_append, sprintf_cons hb, ih (fun hm => h (by simp [hm])),
      Option.map_map]
    rfl

/-- A percent sign starts a conversion. -/
theorem sprintf_conv {b out rest : Bytes} {args args' : List FmtArg}
    (h : fmtConv b args = some (out, rest, args')) :
    sprintf (37 :: b) args = (sprintf rest args').map (out ++ ·) := by
  obtain ⟨used, hu, -, -⟩ := fmtConv_consumes h
  rw [sprintf, List.length_cons, sprintfAux, if_pos rfl, h]
  simp only
  rw [sprintfAux_of_le (by rw [hu]; simp)]

/-- `%s`. -/
theorem sprintf_str (s rest : Bytes) (args : List FmtArg) :
    sprintf (37 :: 115 :: rest) (.str s :: args) = (sprintf rest args).map (s ++ ·) := by
  refine sprintf_conv ?_
  simp [fmtConv, isField, isType, isFlag, isDigit, fmtWidth, fmtPrec, fmtSize, digitsValue,
    FmtSpec.convert, FmtSpec.pad, ascii]

/-- The text of `%d` for a 32-bit argument. -/
def signedDecimal (i : ℤ) : Bytes :=
  if toInt32 i < 0 then 45 :: decimal (toInt32 i).natAbs else decimal (toInt32 i).natAbs

theorem notMem_signedDecimal {b : UInt8} (hb : isDigit b = false) (hminus : b ≠ 45) (i : ℤ) :
    b ∉ signedDecimal i := by
  unfold signedDecimal
  split
  · simpa [hminus] using notMem_decimal hb (toInt32 i).natAbs
  · exact notMem_decimal hb _

/-- With no precision given there is at least one digit. -/
theorem digits_default (f : FmtSpec) (hf : f.prec = none) (n : ℕ) :
    f.digits 10 false n = decimal n := by
  unfold FmtSpec.digits decimal
  rw [hf]
  by_cases hn : n = 0
  · simp [hn, numeral]
  · have hne : numeral 10 false n ≠ [] := by
      simpa [numeral, Nat.digits_eq_nil_iff_eq_zero] using hn
    have hlen : 1 - (numeral 10 false n).length = 0 := by
      have := List.length_pos_iff.mpr hne
      omega
    simp [hn, hlen]

/-- `%d`. -/
theorem sprintf_int (i : ℤ) (rest : Bytes) (args : List FmtArg) :
    sprintf (37 :: 100 :: rest) (.int i :: args)
      = (sprintf rest args).map (signedDecimal i ++ ·) := by
  refine sprintf_conv ?_
  simp [fmtConv, isField, isType, isFlag, isDigit, fmtWidth, fmtPrec, fmtSize, digitsValue,
    FmtSpec.convert, FmtSpec.pad, FmtSpec.signed, FmtSize.bits, digits_default, ascii,
    signedDecimal, toInt32]
  split <;> simp

/-- `%u`. -/
theorem sprintf_uint (i : ℤ) (rest : Bytes) (args : List FmtArg) :
    sprintf (37 :: 117 :: rest) (.int i :: args)
      = (sprintf rest args).map (decimal (toUInt32 i) ++ ·) := by
  refine sprintf_conv ?_
  simp [fmtConv, isField, isType, isFlag, isDigit, fmtWidth, fmtPrec, fmtSize, digitsValue,
    FmtSpec.convert, FmtSpec.pad, FmtSpec.unsigned, FmtSize.bits, digits_default, ascii,
    toUInt32]

/-- **A NUL in the format survives formatting**, so a result without one comes from a format
without one. -/
theorem zero_mem_sprintf : ∀ {n : ℕ} {fmt text : Bytes} {args : List FmtArg},
    sprintfAux n fmt args = some text → 0 ∈ fmt → 0 ∈ text
  | _, [], _, _, _, h => absurd h (by simp)
  | 0, _ :: _, _, _, h, _ => by
    simp [sprintfAux] at h
  | n + 1, b :: rest, text, args, h, h0 => by
    rw [sprintfAux] at h
    split at h
    · rename_i hb
      split at h
      · exact absurd h (by simp)
      · rename_i out rest' args' hc
        obtain ⟨t, ht, rfl⟩ := Option.map_eq_some_iff.mp h
        obtain ⟨used, rfl, -, hu⟩ := fmtConv_consumes hc
        have h0' : 0 ∈ used ++ rest' := by simpa [hb] using h0
        rcases List.mem_append.mp h0' with h1 | h1
        · exact List.mem_append_left _ (hu h1)
        · exact List.mem_append_right _ (zero_mem_sprintf ht h1)
    · obtain ⟨t, ht, rfl⟩ := Option.map_eq_some_iff.mp h
      rcases List.mem_cons.mp h0 with rfl | h1
      · simp
      · exact List.mem_cons_of_mem _ (zero_mem_sprintf ht h1)

/-! ## 4. The bounded version -/

/-- **`snprintf`**: at most `n - 1` characters and a NUL, at the start of the buffer. -/
def snprintf (buf : Bytes) (n : ℕ) (text : Bytes) : Bytes :=
  store buf 0 (text.take (n - 1) ++ [0])

/-- What `strlen` and `%s` then see of the buffer. -/
theorem cstr_snprintf (buf : Bytes) (n : ℕ) (text : Bytes) :
    cstr (snprintf buf n text) = cstr (text.take (n - 1)) := by
  simp only [snprintf, store, List.take_zero, List.nil_append, List.append_assoc,
    List.singleton_append]
  exact cstr_append_nul' _ _

theorem length_snprintf {buf : Bytes} {n : ℕ} (text : Bytes) (hn : 0 < n) (h : n ≤ buf.length) :
    (snprintf buf n text).length = buf.length := by
  refine length_store ?_
  simp only [List.length_append, List.length_take, List.length_singleton]
  omega

end Base
