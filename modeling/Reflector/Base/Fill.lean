/-
# Formats as templates

A format whose author means `%s` and `%d` to be filled in and everything else to be copied is a
TEMPLATE.  `Template fmt args text` says what the author means: the placeholders of `fmt` are one
for each argument, in order, and `text` has the arguments in their places and every other
character of `fmt` unchanged, other percent signs included.

`sprintf` does what is meant when the placeholders are the only percent signs
(`Template.sprintf`), and then only: from any other format it makes a text that does not even
begin with the text that was meant (`Template.percents_of_isPrefix`).  That needs an argument,
because a percent sign too many can swallow a placeholder or use up its argument, and the rest of
the text can make up for it in length.  It is a count of two kinds of characters:

* PERCENT SIGNS.  Every conversion loses at least the one it starts with, a doubled one included,
  and one that produces a percent sign is `%c`;
* MARKS, which are the digits and the letter `c`.  A `%c` that produced a percent sign has lost
  its `c`, and an integer that was never printed has taken its digits along.
-/
import Reflector.Base.Printf

namespace Base

/-! ## 1. What is counted -/

def percents (b : Bytes) : ℕ := b.countP (· == 37)

def isMark (b : UInt8) : Bool := b == 99 || isDigit b

def marks (b : Bytes) : ℕ := b.countP isMark

@[simp] theorem percents_nil : percents [] = 0 := rfl

@[simp] theorem marks_nil : marks [] = 0 := rfl

@[simp] theorem percents_append (b c : Bytes) : percents (b ++ c) = percents b + percents c :=
  List.countP_append

@[simp] theorem marks_append (b c : Bytes) : marks (b ++ c) = marks b + marks c :=
  List.countP_append

theorem percents_cons (x : UInt8) (b : Bytes) :
    percents (x :: b) = percents b + if x = 37 then 1 else 0 := by
  simp [percents, List.countP_cons]

theorem marks_cons (x : UInt8) (b : Bytes) :
    marks (x :: b) = marks b + if isMark x = true then 1 else 0 := List.countP_cons

theorem percents_eq_zero {b : Bytes} : percents b = 0 ↔ (37 : UInt8) ∉ b := by
  rw [percents, List.countP_eq_zero]
  exact ⟨fun h hmem => h 37 hmem rfl, fun h x hx heq => h (by simpa using beq_iff_eq.mp heq ▸ hx)⟩

/-- What a placeholder is filled with. -/
def FmtArg.text : FmtArg → Bytes
  | .str s => s
  | .int i => signedDecimal i

def argsText (args : List FmtArg) : Bytes := args.flatMap FmtArg.text

@[simp] theorem argsText_nil : argsText [] = [] := rfl

@[simp] theorem argsText_cons (arg : FmtArg) (args : List FmtArg) :
    argsText (arg :: args) = arg.text ++ argsText args := rfl

@[simp] theorem argsText_append (args args' : List FmtArg) :
    argsText (args ++ args') = argsText args ++ argsText args' := by
  simp [argsText]

/-- An integer has a digit. -/
theorem marks_signedDecimal_pos (i : ℤ) : 0 < marks (signedDecimal i) := by
  have hdec : ∀ n, 0 < marks (decimal n) := by
    intro n
    rw [marks, List.countP_pos_iff]
    obtain ⟨x, hx⟩ := List.exists_mem_of_ne_nil _ (decimal_ne_nil n)
    exact ⟨x, hx, by simp [isMark, isDigit_of_mem_decimal hx]⟩
  unfold signedDecimal
  split
  · rw [marks_cons]
    exact Nat.lt_add_right _ (hdec _)
  · exact hdec _

/-! ## 2. What a conversion makes -/

theorem mem_pad {f : FmtSpec} {zeros : Bool} {sign body : Bytes} {x : UInt8}
    (h : x ∈ f.pad zeros sign body) : x = 32 ∨ x = 48 ∨ x ∈ sign ∨ x ∈ body := by
  unfold FmtSpec.pad at h
  dsimp only at h
  split at h
  · simp only [List.mem_append, List.mem_replicate] at h
    tauto
  · split at h
    · simp only [List.mem_append, List.mem_replicate] at h
      tauto
    · simp only [List.mem_append, List.mem_replicate] at h
      tauto

/-- Blanks do not count. -/
theorem countP_pad {p : UInt8 → Bool} (hp : p 32 = false) (f : FmtSpec) (body : Bytes) :
    (f.pad false [] body).countP p = body.countP p := by
  unfold FmtSpec.pad
  dsimp only
  split <;> simp [List.countP_replicate, hp]

theorem percent_notMem_digits (f : FmtSpec) {base : ℕ} (hb : 1 < base) (hb' : base ≤ 16)
    (upper : Bool) (n : ℕ) : (37 : UInt8) ∉ f.digits base upper n := by
  intro h
  simp only [FmtSpec.digits, List.mem_append, List.mem_replicate] at h
  rcases h with ⟨-, h⟩ | h
  · exact absurd h (by decide)
  · obtain ⟨d, hd, heq⟩ := mem_numeral hb h
    have hd' : d < 16 := by omega
    interval_cases d <;> cases upper <;> exact absurd heq (by decide)

/-- A string conversion makes nothing that was not in the string, blanks apart. -/
theorem countP_convert_str {p : UInt8 → Bool} (hp : p 32 = false) {f : FmtSpec} {ty : UInt8}
    {s out : Bytes} (h : f.convert ty (.str s) = some out) : out.countP p ≤ s.countP p := by
  simp only [FmtSpec.convert] at h
  split at h
  · obtain rfl := Option.some.inj h
    rw [countP_pad hp]
    split
    · exact Nat.le_refl _
    · exact (List.take_sublist _ s).countP_le
  · exact absurd h (by simp)

/-- An integer conversion makes no percent sign, unless it is `%c`; then there is no mark beside
it. -/
theorem percents_convert_int {f : FmtSpec} {ty : UInt8} {i : ℤ} {out : Bytes}
    (h : f.convert ty (.int i) = some out) :
    percents out = 0 ∨ ty = 99 ∧ percents out = 1 ∧ marks out = 0 := by
  -- the text of a number, with its sign
  have hnumber : ∀ {sign body : Bytes}, (37 : UInt8) ∉ sign → (37 : UInt8) ∉ body →
      f.pad f.zeros sign body = out → percents out = 0 := by
    rintro sign body hsign hbody rfl
    rw [percents_eq_zero]
    intro hmem
    rcases mem_pad hmem with h | h | h | h
    · exact absurd h (by decide)
    · exact absurd h (by decide)
    · exact hsign h
    · exact hbody h
  simp only [FmtSpec.convert] at h
  split at h
  · refine .inl (hnumber ?_ (percent_notMem_digits f (by decide) (by decide) _ _)
      (Option.some.inj h))
    split
    · decide
    · split
      · decide
      · split <;> decide
  · split at h
    · exact .inl (hnumber (by simp) (percent_notMem_digits f (by decide) (by decide) _ _)
        (Option.some.inj h))
    · split at h
      · refine .inl (hnumber (by simp) ?_ (Option.some.inj h))
        have hds : (37 : UInt8) ∉ f.digits 8 false (f.unsigned i) :=
          percent_notMem_digits f (by decide) (by decide) _ _
        split
        · simp [hds]
        · exact hds
      · split at h
        · rename_i hty
          refine .inl (hnumber ?_ (percent_notMem_digits f (by decide) (by decide) _ _)
            (Option.some.inj h))
          split
          · rcases hty with rfl | rfl <;> decide
          · simp
        · split at h
          · rename_i hty
            obtain rfl := Option.some.inj h
            rw [percents, marks, countP_pad (by decide), countP_pad (by decide)]
            by_cases hx : UInt8.ofNat (i % 256).toNat = 37
            · rw [hx]
              exact .inr ⟨hty.1, by decide, by decide⟩
            · exact .inl (by simp [hx])
          · exact absurd h (by simp)

theorem FmtSpec.convert_percent (f : FmtSpec) (arg : FmtArg) : f.convert 37 arg = none := by
  cases arg <;> simp [FmtSpec.convert]

theorem pad_plain (zeros : Bool) (sign body : Bytes) :
    FmtSpec.plain.pad zeros sign body = sign ++ body := by
  simp [FmtSpec.pad, FmtSpec.plain]

/-- A placeholder has one meaning. -/
theorem convert_plain {ty : UInt8} {arg : FmtArg} {out : Bytes} (hty : ty = 115 ∨ ty = 100)
    (h : FmtSpec.plain.convert ty arg = some out) : out = arg.text := by
  cases arg with
  | str s =>
    simp only [FmtSpec.convert] at h
    split at h
    · obtain rfl := Option.some.inj h
      exact pad_plain false [] s
    · exact absurd h (by simp)
  | int i =>
    rcases hty with rfl | rfl
    · simp [FmtSpec.convert] at h
    · have hsigned : FmtSpec.plain.signed i = toInt32 i := rfl
      simp only [FmtSpec.convert, true_or, if_true, Option.some.injEq, hsigned] at h
      rw [← h, FmtArg.text, signedDecimal, digits_default _ rfl, pad_plain]
      split
      · rfl
      · simp [FmtSpec.plain]

/-! ## 3. The placeholders of a format -/

/-- How many `%s` and `%d` there are. -/
def placeholders : Bytes → ℕ
  | [] => 0
  | b :: rest =>
    (if b = 37 ∧ (rest.head? = some 115 ∨ rest.head? = some 100) then 1 else 0) + placeholders rest

@[simp] theorem placeholders_nil : placeholders [] = 0 := rfl

theorem placeholders_cons_of_ne {b : UInt8} (hb : b ≠ 37) (rest : Bytes) :
    placeholders (b :: rest) = placeholders rest := by
  simp [placeholders, hb]

theorem placeholders_append_of_notMem {b : Bytes} (hb : (37 : UInt8) ∉ b) (rest : Bytes) :
    placeholders (b ++ rest) = placeholders rest := by
  induction b with
  | nil => rfl
  | cons x b ih =>
    rw [List.mem_cons, not_or] at hb
    rw [List.cons_append, placeholders_cons_of_ne (Ne.symm hb.1), ih hb.2]

theorem placeholders_str (rest : Bytes) :
    placeholders (37 :: 115 :: rest) = 1 + placeholders rest := by
  simp [placeholders]

theorem placeholders_int (rest : Bytes) :
    placeholders (37 :: 100 :: rest) = 1 + placeholders rest := by
  simp [placeholders]

/-- Nothing that stands before a percent sign makes it a placeholder. -/
theorem placeholders_append (b rest : Bytes) :
    placeholders (b ++ 37 :: rest) = placeholders b + placeholders (37 :: rest) := by
  induction b with
  | nil => simp
  | cons x b ih =>
    have hhead : (b ++ 37 :: rest).head? = some 115 ∨ (b ++ 37 :: rest).head? = some 100 ↔
        b.head? = some 115 ∨ b.head? = some 100 := by
      cases b <;> simp
    rw [List.cons_append, placeholders, placeholders, ih]
    simp only [hhead]
    omega

/-- Ordinary text, as far as its author is concerned. -/
def NoPlaceholder (b : Bytes) : Prop := ¬ ascii "%s" <:+: b ∧ ¬ ascii "%d" <:+: b

instance (b : Bytes) : Decidable (NoPlaceholder b) := inferInstanceAs (Decidable (_ ∧ _))

theorem placeholders_of_noPlaceholder {b : Bytes} (h : NoPlaceholder b) : placeholders b = 0 := by
  induction b with
  | nil => rfl
  | cons x b ih =>
    have hrest : NoPlaceholder b :=
      ⟨fun hin => h.1 (hin.trans (List.suffix_cons x b).isInfix),
        fun hin => h.2 (hin.trans (List.suffix_cons x b).isInfix)⟩
    rw [placeholders, ih hrest, if_neg]
    rintro ⟨rfl, hhead⟩
    cases b with
    | nil => simp at hhead
    | cons y b =>
      simp only [List.head?_cons, Option.some.injEq] at hhead
      rcases hhead with rfl | rfl
      · exact h.1 ⟨[], b, rfl⟩
      · exact h.2 ⟨[], b, rfl⟩

/-! ## 4. The accounts of a formatting call -/

/-- What has become of the format and the arguments, when `left` are the arguments that were not
used.  Percent signs are lost, other than the placeholders', or come out again; if none is lost,
marks are lost or come out again; and if nothing is lost, then the percent signs beyond the
placeholders' (`e` of them) are those that were doubled with a placeholder's. -/
structure Accounted (fmt : Bytes) (args : List FmtArg) (out : Bytes) (left : List FmtArg) :
    Prop where
  suffix : left <:+ args
  signs : percents out + placeholders fmt + percents (argsText left)
    ≤ percents fmt + percents (argsText args)
  marked : percents out + placeholders fmt + percents (argsText left)
      = percents fmt + percents (argsText args) →
    marks out + marks (argsText left) ≤ marks fmt + marks (argsText args)
  exact : percents out + placeholders fmt + percents (argsText left)
      = percents fmt + percents (argsText args) →
    marks out + marks (argsText left) = marks fmt + marks (argsText args) →
    ∃ e, placeholders fmt + left.length = args.length + e ∧ percents fmt = placeholders fmt + e

section

variable {rest out : Bytes} {args left : List FmtArg}

theorem accounted_nil (args : List FmtArg) : Accounted [] args [] args where
  suffix := List.suffix_rfl
  signs := by simp
  marked := by simp
  exact _ _ := ⟨0, by simp⟩

/-- A character that is copied. -/
theorem Accounted.cons (h : Accounted rest args out left) {b : UInt8} (hb : b ≠ 37) :
    Accounted (b :: rest) args (b :: out) left := by
  obtain ⟨hsuffix, hsigns, hmarked, hexact⟩ := h
  refine ⟨hsuffix, ?_, ?_, ?_⟩ <;>
    simp only [percents_cons, marks_cons, placeholders_cons_of_ne hb, if_neg hb, Nat.add_zero]
  · exact hsigns
  · intro heq
    have := hmarked heq
    omega
  · intro heq hmarks
    exact hexact heq (by omega)

/-- A doubled percent sign: one is lost, unless the second was a placeholder's. -/
theorem Accounted.percent (h : Accounted rest args out left) :
    Accounted (37 :: 37 :: rest) args (37 :: out) left := by
  obtain ⟨hsuffix, hsigns, hmarked, hexact⟩ := h
  have hph : ∃ δ ≤ 1, placeholders (37 :: 37 :: rest) = δ + placeholders rest := by
    refine ⟨if rest.head? = some 115 ∨ rest.head? = some 100 then 1 else 0, ?_, ?_⟩
    · split <;> simp
    · simp [placeholders]
  obtain ⟨δ, hδ, hph⟩ := hph
  have hmark : isMark 37 = false := by decide
  refine ⟨hsuffix, ?_, ?_, ?_⟩ <;>
    simp only [percents_cons, marks_cons, hph, hmark, if_pos, Bool.false_eq_true, if_false,
      Nat.add_zero]
  · omega
  · intro heq
    exact hmarked (by omega)
  · intro heq hmarks
    obtain ⟨e, hargs, hfmt⟩ := hexact (by omega) hmarks
    exact ⟨e + 1, by omega, by omega⟩

/-- A placeholder, filled. -/
theorem Accounted.placeholder (h : Accounted rest args out left) {arg : FmtArg} {ty : UInt8}
    (hty : ty = 115 ∨ ty = 100) :
    Accounted (37 :: ty :: rest) (arg :: args) (arg.text ++ out) left := by
  obtain ⟨hsuffix, hsigns, hmarked, hexact⟩ := h
  have hph : placeholders (37 :: ty :: rest) = 1 + placeholders rest := by
    rcases hty with rfl | rfl
    · exact placeholders_str rest
    · exact placeholders_int rest
  have hne : ty ≠ 37 ∧ isMark ty = false ∧ isMark 37 = false := by
    rcases hty with rfl | rfl <;> decide
  refine ⟨hsuffix.trans (List.suffix_cons _ _), ?_, ?_, ?_⟩ <;>
    simp only [percents_cons, marks_cons, percents_append, marks_append, hph, argsText_cons,
      List.length_cons, hne.1, hne.2.1, hne.2.2, if_pos, Bool.false_eq_true, if_false, Nat.add_zero]
  · omega
  · intro heq
    have := hmarked (by omega)
    omega
  · intro heq hmarks
    obtain ⟨e, hargs, hfmt⟩ := hexact (by omega) (by omega)
    exact ⟨e, by omega, by omega⟩

/-- Anything else loses a percent sign, or a mark. -/
theorem Accounted.lossy (h : Accounted rest args out left) (used : Bytes) (taken : List FmtArg)
    (piece : Bytes) (hused : (37 : UInt8) ∉ used)
    (hhead : used.head? ≠ some 115 ∧ used.head? ≠ some 100) (hne : used ≠ [])
    (hpiece : percents piece ≤ percents (argsText taken) ∨
      percents piece = 1 ∧ marks piece < marks used) :
    Accounted (37 :: (used ++ rest)) (taken ++ args) (piece ++ out) left := by
  obtain ⟨hsuffix, hsigns, hmarked, hexact⟩ := h
  have hph : placeholders (37 :: (used ++ rest)) = placeholders rest := by
    rw [placeholders, placeholders_append_of_notMem hused, if_neg, Nat.zero_add]
    rintro ⟨-, hor⟩
    rw [List.head?_append_of_ne_nil _ hne] at hor
    exact hor.elim hhead.1 hhead.2
  have hzero : percents used = 0 := percents_eq_zero.mpr hused
  have hmark : isMark 37 = false := by decide
  refine ⟨hsuffix.trans (List.suffix_append _ _), ?_, ?_, ?_⟩ <;>
    simp only [percents_cons, marks_cons, percents_append, marks_append, hph, argsText_append,
      hzero, hmark, if_pos, Bool.false_eq_true, if_false, Nat.add_zero]
  · rcases hpiece with hle | ⟨hone, -⟩ <;> omega
  · intro heq
    rcases hpiece with hle | ⟨hone, hlt⟩
    · omega
    · have := hmarked (by omega)
      omega
  · intro heq hmarks
    rcases hpiece with hle | ⟨hone, hlt⟩
    · omega
    · have := hmarked (by omega)
      omega

end

theorem accounted_of_converts {b piece rest out : Bytes} {args args' left : List FmtArg}
    (hconv : Converts b args piece rest args') (h : Accounted rest args' out left) :
    Accounted (37 :: b) args (piece ++ out) left := by
  cases hconv with
  | percent => exact h.percent
  | stray c _ _ hc hfield htype =>
    refine h.lossy [c] [] [c] ?_ ?_ (by simp) (.inl ?_)
    · simpa using Ne.symm hc
    · constructor <;> rintro heq <;> obtain rfl := Option.some.inj heq <;>
        exact absurd htype (by decide)
    · simp [percents_cons, hc]
  | conv fields ty _ taken arg _ spec _ hfields hplain hout =>
    by_cases hplace : fields = [] ∧ (ty = 115 ∨ ty = 100)
    · obtain ⟨rfl, hty⟩ := hplace
      obtain ⟨rfl, rfl⟩ := hplain rfl
      rw [convert_plain hty hout]
      exact h.placeholder hty
    · have hlossy := h.lossy (fields ++ [ty]) (taken ++ [arg]) piece ?_ ?_ (by simp) ?_
      · simpa using hlossy
      · rw [List.mem_append, not_or, List.mem_singleton]
        refine ⟨fun hmem => absurd (hfields 37 hmem) (by decide), ?_⟩
        rintro rfl
        rw [FmtSpec.convert_percent] at hout
        exact absurd hout (by simp)
      · -- a type letter is no field, so it can only come first if it comes alone
        cases fields with
        | nil =>
          constructor <;> rintro heq <;> obtain rfl := Option.some.inj heq
          · exact hplace ⟨rfl, .inl rfl⟩
          · exact hplace ⟨rfl, .inr rfl⟩
        | cons x fields =>
          have hx : isField x = true := hfields x (by simp)
          constructor <;> rintro heq <;> obtain rfl := Option.some.inj heq <;>
            exact absurd hx (by decide)
      · cases arg with
        | str s =>
          have hle : percents piece ≤ percents s := countP_convert_str (by decide) hout
          simp only [argsText_append, argsText_cons, argsText_nil, percents_append, FmtArg.text]
          exact .inl (by omega)
        | int i =>
          rcases percents_convert_int hout with hzero | ⟨rfl, hone, hmarks⟩
          · exact .inl (by omega)
          · refine .inr ⟨hone, ?_⟩
            rw [hmarks, marks_append]
            exact Nat.lt_add_left _ (by decide)

/-- **Every formatting call has its accounts.** -/
theorem accounted_of_sprintf : ∀ {n : ℕ} {fmt text : Bytes} {args : List FmtArg},
    sprintfAux n fmt args = some text → ∃ left, Accounted fmt args text left
  | _, [], _, args, h => by
    obtain rfl : [] = _ := by simpa [sprintfAux] using h
    exact ⟨args, accounted_nil args⟩
  | 0, _ :: _, _, _, h => by
    simp [sprintfAux] at h
  | n + 1, b :: rest, text, args, h => by
    rw [sprintfAux] at h
    split at h
    · rename_i hb
      subst hb
      split at h
      · exact absurd h (by simp)
      · rename_i piece rest' args' hconv
        obtain ⟨out, hout, rfl⟩ := Option.map_eq_some_iff.mp h
        obtain ⟨left, hacc⟩ := accounted_of_sprintf hout
        exact ⟨left, accounted_of_converts (converts_of_fmtConv hconv) hacc⟩
    · rename_i hb
      obtain ⟨out, hout, rfl⟩ := Option.map_eq_some_iff.mp h
      obtain ⟨left, hacc⟩ := accounted_of_sprintf hout
      exact ⟨left, hacc.cons hb⟩

/-! ## 5. Templates -/

/-- What the author of a template writes for an argument. -/
def FmtArg.placeholder : FmtArg → Bytes
  | .str _ => ascii "%s"
  | .int _ => ascii "%d"

/-- **What is meant by a template**: the text with every placeholder filled, and nothing else
changed. -/
inductive Template : Bytes → List FmtArg → Bytes → Prop
  | lit (a : Bytes) (ha : NoPlaceholder a) : Template a [] a
  | fill (a : Bytes) (arg : FmtArg) {fmt : Bytes} {args : List FmtArg} {text : Bytes}
      (ha : NoPlaceholder a) (h : Template fmt args text) :
      Template (a ++ arg.placeholder ++ fmt) (arg :: args) (a ++ arg.text ++ text)

section

variable {fmt text out : Bytes} {args : List FmtArg}

theorem percents_placeholder (arg : FmtArg) : percents arg.placeholder = 1 := by
  cases arg <;> rfl

theorem marks_placeholder (arg : FmtArg) : marks arg.placeholder = 0 := by
  cases arg <;> rfl

theorem placeholders_fill (a : Bytes) (arg : FmtArg) (fmt : Bytes) :
    placeholders (a ++ arg.placeholder ++ fmt) = placeholders a + (1 + placeholders fmt) := by
  rw [List.append_assoc]
  cases arg with
  | str s =>
    exact (placeholders_append a _).trans (congrArg _ (placeholders_str fmt))
  | int i =>
    exact (placeholders_append a _).trans (congrArg _ (placeholders_int fmt))

theorem Template.placeholders (h : Template fmt args text) :
    Base.placeholders fmt = args.length := by
  induction h with
  | lit a ha => exact placeholders_of_noPlaceholder ha
  | fill a arg ha _ ih =>
    rw [placeholders_fill, placeholders_of_noPlaceholder ha, ih, List.length_cons]
    omega

/-- The text has the percent signs that are not a placeholder's, and those of the arguments. -/
theorem Template.percents (h : Template fmt args text) :
    Base.percents text + args.length = Base.percents fmt + Base.percents (argsText args) := by
  induction h with
  | lit a ha => rfl
  | fill a arg ha _ ih =>
    simp only [percents_append, argsText_cons, percents_placeholder, List.length_cons]
    omega

theorem Template.marks (h : Template fmt args text) :
    Base.marks text = Base.marks fmt + Base.marks (argsText args) := by
  induction h with
  | lit a ha => rfl
  | fill a arg ha _ ih =>
    simp only [marks_append, argsText_cons, marks_placeholder]
    omega

theorem Template.length_le (h : Template fmt args text) : args.length ≤ Base.percents fmt := by
  induction h with
  | lit a ha => exact Nat.zero_le _
  | fill a arg ha _ ih =>
    simp only [percents_append, percents_placeholder, List.length_cons]
    omega

theorem sprintf_placeholder (arg : FmtArg) (rest : Bytes) (args : List FmtArg) :
    Base.sprintf (arg.placeholder ++ rest) (arg :: args)
      = (Base.sprintf rest args).map (arg.text ++ ·) := by
  cases arg with
  | str s => exact sprintf_str s rest args
  | int i => exact sprintf_int i rest args

/-- **Without other percent signs a template is filled as it is meant.** -/
theorem Template.sprintf (h : Template fmt args text) (hp : Base.percents fmt = args.length) :
    Base.sprintf fmt args = some text := by
  induction h with
  | lit a ha =>
    simpa using sprintf_append (percents_eq_zero.mp hp) [] []
  | @fill a arg fmt args text ha h ih =>
    simp only [percents_append, percents_placeholder, List.length_cons] at hp
    have hle := h.length_le
    have ha : (37 : UInt8) ∉ a := percents_eq_zero.mp (by omega)
    rw [List.append_assoc, sprintf_append ha, sprintf_placeholder, ih (by omega)]
    simp

/-- **With another percent sign it is not**, wherever that stands: the text that was meant is
not even the beginning of what is made.  (The last argument is an integer: an empty string at the
end would leave no trace if it was never used.) -/
theorem Template.percents_of_isPrefix (h : Template fmt args text)
    (hlast : ∀ arg ∈ args.getLast?, ∃ i, arg = .int i) (hs : Base.sprintf fmt args = some out)
    (hpre : text <+: out) : Base.percents fmt = args.length := by
  obtain ⟨left, hacc⟩ := accounted_of_sprintf hs
  have hp := h.percents
  have hm := h.marks
  have hph := h.placeholders
  have hp' : Base.percents text ≤ Base.percents out := hpre.sublist.countP_le
  have hm' : Base.marks text ≤ Base.marks out := hpre.sublist.countP_le
  have hsigns := hacc.signs
  -- nothing is lost, neither percent signs ...
  have heq : Base.percents out + Base.placeholders fmt + Base.percents (argsText left)
      = Base.percents fmt + Base.percents (argsText args) := by omega
  -- ... nor marks
  have hmarked := hacc.marked heq
  obtain ⟨e, hleft, hfmt⟩ := hacc.exact heq (by omega)
  -- so no argument is left: the last of them would have left its digits behind
  have hnil : left = [] := by
    by_contra hne
    obtain ⟨used, rfl⟩ := hacc.suffix
    rcases List.eq_nil_or_concat left with rfl | ⟨init, arg, rfl⟩
    · exact hne rfl
    · obtain ⟨i, rfl⟩ := hlast arg (by simp)
      have hpos := marks_signedDecimal_pos i
      simp only [List.concat_eq_append, argsText_append, argsText_cons, argsText_nil,
        marks_append, marks_nil, FmtArg.text] at hmarked hm
      omega
  rw [hnil, List.length_nil] at hleft
  omega

end

end Base
