/-
# `getopt` (`getopt.cpp`)

`getopt` gives one option letter a call and keeps its place in two variables: `optind`, the
argument it is at, and `place`, what it has left of that argument.  Called until it returns -1 it
reads the arguments as one would on paper (`getopts_eq`): argument by argument, the letters of one
argument from left to right (`cluster`), the value of a letter behind it or in the next argument.

`getopt` is `getopt_internal` without long options and without `FLAG_PERMUTE`; `optreset` is
never set.
-/
import Mathlib.Algebra.Ring.Nat
import Reflector.Base.Text

namespace Reflector.Getopt

open Base

/-! ## 1. The scanner -/

/-- `optind`, `place` and `optarg`. -/
structure Scanner where
  optind : ℕ
  place : Bytes
  optarg : Option Bytes
  deriving DecidableEq, Repr

def Scanner.start : Scanner := ⟨1, [], none⟩

/-- What stands behind the first occurrence. -/
def strchr (s : Bytes) (c : UInt8) : Option Bytes :=
  match s.dropWhile (· ≠ c) with
  | [] => none
  | _ :: oli => some oli

/-- `(int)*place`; a `char` is signed. -/
def charCode (c : UInt8) : ℤ := if c < 128 then c.toNat else (c.toNat : ℤ) - 256

/-- `BADCH`. -/
def badCh : ℤ := 63

/-- `BADARG`. -/
def badArg (options : Bytes) : ℤ := if options.head? = some 58 then 58 else 63

/-- `FLAG_ALLARGS`: the option string begins with a minus. -/
def allArgs (opts : Bytes) : Bool := opts.head? = some 45

/-- `options++`, behind a plus or a minus. -/
def letters (opts : Bytes) : Bytes :=
  if opts.head? = some 43 ∨ opts.head? = some 45 then opts.tail else opts

/-- The letter at `place`. -/
def Scanner.letter (argv : List Bytes) (options : Bytes) (s : Scanner) : ℤ × Scanner :=
  match s.place with
  -- `place` is not at its end here
  | [] => (-1, s)
  | optchar :: place =>
    match strchr options optchar with
    | none =>
      if optchar = 45 ∧ place = [] then (-1, { s with place := place })
      else
        (badCh, { s with place := place, optind := if place = [] then s.optind + 1 else s.optind })
    | some oli =>
      if optchar = 58 ∨ optchar = 45 ∧ place ≠ [] then
        (badCh, { s with place := place, optind := if place = [] then s.optind + 1 else s.optind })
      else if oli.head? ≠ some 58 then
        (charCode optchar,
          { s with place := place, optind := if place = [] then s.optind + 1 else s.optind })
      else if place ≠ [] then
        (charCode optchar, ⟨s.optind + 1, [], some place⟩)
      else if oli.tail.head? ≠ some 58 then
        match argv[s.optind + 1]? with
        | none => (badArg options, ⟨s.optind + 1, [], none⟩)
        | some value => (charCode optchar, ⟨s.optind + 2, [], some value⟩)
      else (charCode optchar, ⟨s.optind + 1, [], none⟩)

/-- The argument is not one of options. -/
def NonOption (options arg : Bytes) : Prop :=
  arg.head? ≠ some 45 ∨ arg = [45] ∧ strchr options 45 = none

instance (options arg : Bytes) : Decidable (NonOption options arg) :=
  inferInstanceAs (Decidable (_ ∨ _))

/-- Where the letters of an argument begin. -/
def firstPlace (arg : Bytes) : Bytes := if arg = [45] then arg else arg.tail

def getopt (argv : List Bytes) (opts : Bytes) (s : Scanner) : ℤ × Scanner :=
  let options := letters opts
  let s := { s with optarg := none }
  if s.place = [] then
    match argv[s.optind]? with
    | none => (-1, s)
    | some arg =>
      if NonOption options arg then
        if allArgs opts then (1, { s with optind := s.optind + 1, optarg := some arg })
        else (-1, s)
      else if arg = [45, 45] then (-1, { s with optind := s.optind + 1 })
      else { s with place := firstPlace arg }.letter argv options
  else s.letter argv options

/-- `while ((opt = getopt(...)) != -1)`, for as many turns: what the calls give, with `optarg`. -/
def getopts (argv : List Bytes) (opts : Bytes) : ℕ → Scanner → Option (List (ℤ × Option Bytes))
  | 0, _ => none
  | n + 1, s =>
    let (opt, s) := getopt argv opts s
    if opt = -1 then some [] else (getopts argv opts n s).map ((opt, s.optarg) :: ·)

/-! ## 2. The arguments, one after the other -/

/-- What a letter is; of a minus it matters whether it is the last. -/
inductive Kind
  | stop
  | unknown
  | flag
  | required
  | optional
  deriving DecidableEq, Repr

def kind (options : Bytes) (c : UInt8) (place : Bytes) : Kind :=
  match strchr options c with
  | none => if c = 45 ∧ place = [] then .stop else .unknown
  | some oli =>
    if c = 58 ∨ c = 45 ∧ place ≠ [] then .unknown
    else if oli.head? ≠ some 58 then .flag
    else if oli.tail.head? ≠ some 58 then .required
    else .optional

/-- How an argument ends. -/
inductive Behind
  /-- The next one is read. -/
  | next
  /-- The next one is the value of this letter. -/
  | value (c : UInt8)
  /-- No other is read. -/
  | halt
  deriving DecidableEq, Repr

/-- The letters of one argument. -/
def cluster (options : Bytes) : Bytes → List (ℤ × Option Bytes) × Behind
  | [] => ([], .next)
  | c :: place =>
    match kind options c place with
    | .stop => ([], .halt)
    | .unknown => ((badCh, none) :: (cluster options place).1, (cluster options place).2)
    | .flag => ((charCode c, none) :: (cluster options place).1, (cluster options place).2)
    | .optional => ([(charCode c, if place = [] then none else some place)], .next)
    | .required =>
      if place = [] then ([], .value c) else ([(charCode c, some place)], .next)

/-- **What the arguments say.** -/
def scan (all : Bool) (options : Bytes) : List Bytes → List (ℤ × Option Bytes)
  | [] => []
  | arg :: args =>
    if NonOption options arg then
      if all then (1, some arg) :: scan all options args else []
    else if arg = [45, 45] then []
    else
      match cluster options (firstPlace arg) with
      | (found, .halt) => found
      | (found, .next) => found ++ scan all options args
      | (found, .value c) =>
        match args with
        | [] => found ++ [(badArg options, none)]
        | value :: args => found ++ (charCode c, some value) :: scan all options args

/-! ## 3. The calls read the arguments -/

variable {argv args : List Bytes} {opts options place : Bytes} {c : UInt8}

theorem mem_of_strchr {oli : Bytes} (h : strchr options c = some oli) : c ∈ options := by
  unfold strchr at h
  split at h
  · cases h
  · rename_i b tail heq
    have hb : b = c := by
      have := List.head?_dropWhile_not (· ≠ c) options
      rw [heq] at this
      simpa using this
    have hmem : b ∈ options.dropWhile (· ≠ c) := by
      rw [heq]
      exact List.mem_cons_self
    exact hb ▸ (List.dropWhile_sublist _).subset hmem

theorem strchr_eq_none (h : c ∉ options) : strchr options c = none := by
  have hall : options.dropWhile (· ≠ c) = [] := by
    refine List.dropWhile_eq_nil_iff.mpr fun b hb => ?_
    simpa using fun hbc : b = c => h (hbc ▸ hb)
  rw [strchr, hall]

/-- Of the bytes only 255 reads as the -1 that ends the loop. -/
theorem charCode_ne {c : UInt8} (h : c ≠ 0xFF) : charCode c ≠ -1 := by
  have hn : c.toNat ≠ 255 := fun hn => h (UInt8.toNat_inj.mp hn)
  unfold charCode
  split
  · omega
  · omega

theorem kind_mem (h : kind options c place = .flag ∨ kind options c place = .required ∨
    kind options c place = .optional) : c ∈ options := by
  cases holi : strchr options c with
  | some oli => exact mem_of_strchr holi
  | none =>
    simp only [kind, holi] at h
    split at h <;> simp at h

/-- Where a letter without a value leaves the argument. -/
def behindLetter (i : ℕ) (place : Bytes) : ℕ := if place = [] then i + 1 else i

/-- One letter, by what it is. -/
theorem letter_eq (i : ℕ) (value : Option Bytes) :
    Scanner.letter argv options ⟨i, c :: place, value⟩ =
      match kind options c place with
      | .stop => (-1, ⟨i, place, value⟩)
      | .unknown => (badCh, ⟨behindLetter i place, place, value⟩)
      | .flag => (charCode c, ⟨behindLetter i place, place, value⟩)
      | .optional => (charCode c, ⟨i + 1, [], if place = [] then none else some place⟩)
      | .required =>
        if place = [] then
          match argv[i + 1]? with
          | none => (badArg options, ⟨i + 1, [], none⟩)
          | some value => (charCode c, ⟨i + 2, [], some value⟩)
        else (charCode c, ⟨i + 1, [], some place⟩) := by
  unfold Scanner.letter kind behindLetter
  dsimp only
  cases holi : strchr options c with
  | none =>
    by_cases hstop : c = 45 ∧ place = []
    · simp [hstop]
    · simp [hstop]
  | some oli =>
    simp only
    by_cases hbad : c = 58 ∨ c = 45 ∧ place ≠ []
    · simp [hbad]
    · simp only [if_neg hbad]
      generalize oli.head? = first, oli.tail.head? = second
      by_cases hfirst : first = some 58
      · by_cases hsecond : second = some 58
        · by_cases hplace : place = [] <;> simp [hfirst, hsecond, hplace]
        · by_cases hplace : place = [] <;> simp [hfirst, hsecond, hplace]
      · simp [hfirst]

/-- What is returned once an argument's letters are read. -/
def follow (all : Bool) (options : Bytes) (found : List (ℤ × Option Bytes) × Behind)
    (args : List Bytes) : List (ℤ × Option Bytes) :=
  match found with
  | (found, .halt) => found
  | (found, .next) => found ++ scan all options args
  | (found, .value c) =>
    match args with
    | [] => found ++ [(badArg options, none)]
    | value :: args => found ++ (charCode c, some value) :: scan all options args

theorem scan_cons {all : Bool} {arg : Bytes} :
    scan all options (arg :: args) =
      if NonOption options arg then
        if all then (1, some arg) :: scan all options args else []
      else if arg = [45, 45] then []
      else follow all options (cluster options (firstPlace arg)) args := by
  rw [scan]
  rfl

theorem follow_cons {all : Bool} {x : ℤ × Option Bytes} {found : List (ℤ × Option Bytes)}
    {behind : Behind} :
    follow all options (x :: found, behind) args =
      x :: follow all options (found, behind) args := by
  cases behind with
  | halt => rfl
  | next => rfl
  | value c =>
    cases args with
    | nil => rfl
    | cons value args => rfl

/-- The calls that read the arguments through. -/
def cost (args : List Bytes) : ℕ := (args.map fun arg => arg.length + 1).sum

theorem cost_drop {i : ℕ} {arg : Bytes} (h : argv[i]? = some arg) :
    cost (argv.drop i) = arg.length + 1 + cost (argv.drop (i + 1)) ∧
      argv.drop i = arg :: argv.drop (i + 1) := by
  obtain ⟨hi, rfl⟩ := List.getElem?_eq_some_iff.mp h
  have hdrop := List.drop_eq_getElem_cons hi
  refine ⟨?_, hdrop⟩
  rw [hdrop, cost, List.map_cons, List.sum_cons, cost]

/-- An argument that is an option has a letter, and not more of them than bytes. -/
theorem firstPlace_spec {arg : Bytes} (h : ¬ NonOption options arg) :
    firstPlace arg ≠ [] ∧ (firstPlace arg).length ≤ arg.length := by
  unfold firstPlace
  split
  · rename_i harg
    simp [harg]
  · rename_i harg
    cases arg with
    | nil => exact absurd (Or.inl (by simp)) h
    | cons c arg =>
      refine ⟨fun hnil => ?_, by simp⟩
      have hc : c = 45 := by
        by_contra hc
        exact h (Or.inl (by simpa using hc))
      exact harg (by simpa [hc] using hnil)

/-- With `n` calls, what is read from the start of an argument on is what `scan` says. -/
def ReadsFrom (argv : List Bytes) (opts : Bytes) (n : ℕ) : Prop :=
  ∀ i value, cost (argv.drop i) < n →
    getopts argv opts n ⟨i, [], value⟩ =
      some (scan (allArgs opts) (letters opts) (argv.drop i))

/-- The same from inside an argument: first the letters that are left of it. -/
def ReadsInside (argv : List Bytes) (opts : Bytes) (n : ℕ) : Prop :=
  ∀ i c place value, place.length + 1 + cost (argv.drop (i + 1)) < n →
    getopts argv opts n ⟨i, c :: place, value⟩ =
      some (follow (allArgs opts) (letters opts) (cluster (letters opts) (c :: place))
        (argv.drop (i + 1)))

/-- **One letter of an argument.** -/
theorem ReadsInside.succ {n : ℕ} (hinside : ReadsInside argv opts n)
    (hopts : 0xFF ∉ letters opts) (hstart : ReadsFrom argv opts n) :
    ReadsInside argv opts (n + 1) := by
  intro i c place value hn
  -- behind a letter that stands alone: the rest of the argument, or the next one
  have hrest : ∀ value, getopts argv opts n ⟨behindLetter i place, place, value⟩ =
      some (follow (allArgs opts) (letters opts) (cluster (letters opts) place)
        (argv.drop (i + 1))) := by
    intro value
    cases place with
    | nil => exact hstart (i + 1) value (by omega)
    | cons c' place =>
      rw [List.length_cons] at hn
      exact hinside i c' place value (by omega)
  have hcall : getopt argv opts ⟨i, c :: place, value⟩ =
      Scanner.letter argv (letters opts) ⟨i, c :: place, none⟩ := rfl
  rw [getopts, hcall, letter_eq, cluster]
  cases hkind : kind (letters opts) c place with
  | stop => rfl
  | unknown =>
    simp only
    rw [if_neg (by decide), hrest, Option.map_some, follow_cons]
  | flag =>
    have hc := charCode_ne (c := c) fun h => hopts (h ▸ kind_mem (Or.inl hkind))
    simp only
    rw [if_neg hc, hrest, Option.map_some, follow_cons]
  | optional =>
    have hc := charCode_ne (c := c) fun h => hopts (h ▸ kind_mem (Or.inr (Or.inr hkind)))
    simp only
    rw [if_neg hc, hstart (i + 1) _ (by omega)]
    rfl
  | required =>
    have hc := charCode_ne (c := c) fun h => hopts (h ▸ kind_mem (Or.inr (Or.inl hkind)))
    simp only
    by_cases hplace : place = []
    · rw [if_pos hplace, if_pos hplace]
      cases hvalue : argv[i + 1]? with
      | none =>
        have hnil : argv.drop (i + 1) = [] := by
          simpa using hvalue
        have hbad : badArg (letters opts) ≠ -1 := by
          unfold badArg
          split
          · decide
          · decide
        simp only
        rw [if_neg hbad, hstart (i + 1) _ (by omega), hnil]
        rfl
      | some v =>
        obtain ⟨hcost, hdrop⟩ := cost_drop hvalue
        simp only
        rw [if_neg hc, hstart (i + 1 + 1) _ (by omega), hdrop]
        rfl
    · rw [if_neg hplace, if_neg hplace]
      simp only
      rw [if_neg hc, hstart (i + 1) _ (by omega)]
      rfl

/-- **The start of an argument**: it ends the options, is skipped, or is gone into. -/
theorem ReadsFrom.succ {n : ℕ} (hstart : ReadsFrom argv opts n)
    (hinside : ReadsInside argv opts (n + 1)) : ReadsFrom argv opts (n + 1) := by
  intro i value hn
  cases harg : argv[i]? with
  | none =>
    have hnil : argv.drop i = [] := by simpa using harg
    simp [getopts, getopt, harg, hnil, scan]
  | some arg =>
    obtain ⟨hcost, hdrop⟩ := cost_drop harg
    rw [hdrop, scan_cons]
    by_cases hnon : NonOption (letters opts) arg
    · rw [if_pos hnon]
      cases hall : allArgs opts with
      | false => simp [getopts, getopt, harg, hnon, hall]
      | true =>
        have hrest := hstart (i + 1) (some arg) (by omega)
        rw [hall] at hrest
        simp [getopts, getopt, harg, hnon, hall, hrest]
    · rw [if_neg hnon]
      by_cases hdash : arg = [45, 45]
      · subst hdash
        simp [getopts, getopt, harg, hnon]
      · rw [if_neg hdash]
        obtain ⟨hne, hlen⟩ := firstPlace_spec hnon
        obtain ⟨c, place, hplace⟩ := List.exists_cons_of_ne_nil hne
        rw [hplace, List.length_cons] at hlen
        rw [hplace, ← hinside i c place none (by omega)]
        have hcall : getopt argv opts ⟨i, [], value⟩ =
            getopt argv opts ⟨i, c :: place, none⟩ := by
          simp [getopt, harg, hnon, hdash, hplace]
        rw [getopts, getopts, hcall]

/-- **From the start of an argument, and from inside one.** -/
theorem getopts_scan (hopts : 0xFF ∉ letters opts) :
    ∀ n : ℕ, ReadsFrom argv opts n ∧ ReadsInside argv opts n
  | 0 => ⟨fun _ _ h => absurd h (by omega), fun _ _ _ _ h => absurd h (by omega)⟩
  | n + 1 => by
    obtain ⟨hstart, hinside⟩ := getopts_scan hopts n
    have hletter : ReadsInside argv opts (n + 1) := hinside.succ hopts hstart
    exact ⟨hstart.succ hletter, hletter⟩

/-- **`getopt`, called until it returns -1, reads the arguments.** -/
theorem getopts_eq (hopts : 0xFF ∉ letters opts) {n : ℕ} (hn : cost (argv.drop 1) < n) :
    getopts argv opts n Scanner.start =
      some (scan (allArgs opts) (letters opts) (argv.drop 1)) :=
  (getopts_scan hopts n).1 1 none hn

end Reflector.Getopt
