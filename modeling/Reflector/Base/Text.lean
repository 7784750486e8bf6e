/-
# Text: first occurrences, pieces, tokens, C strings

Three ways to cut a list, over an arbitrary alphabet.

* `List.dropInfix?` cuts at the FIRST occurrence of a pattern.  `dropInfix?_append_of_first`
  is the lemma every framing argument ends in: the cut falls where the writer put the
  separator exactly when no copy of it STARTS earlier, that is, when the separator does not
  occur in the text before it followed by all of the separator but its last symbol.
* `pieces` cuts at every occurrence of a separator word and keeps empty pieces; it inverts
  `List.intercalate` under the same condition (`pieces_intercalate`).
* `tokens` cuts at every delimiter SYMBOL and drops empty pieces; `firstToken` and `lastToken`
  compute the two ends of that list.

In between, where a pattern can occur in a text that was composed or escaped
(`infix_append_cons_iff`, `infix_flatMap_iff`).

At the end, byte strings: the C string at the start of a buffer (`cstr`).
-/
import Mathlib.Data.List.DropRight
import Mathlib.Data.List.Infix
import Mathlib.Data.List.TakeWhile
import Mathlib.Data.Nat.Find

namespace Base

/-! ## 1. The first occurrence of a pattern -/

section Search

variable {α : Type} [BEq α] [LawfulBEq α]

/-- `dropInfix?` over an alphabet whose `==` is equality. -/
theorem dropInfix?_iff {l i p s : List α} :
    l.dropInfix? i = some (p, s) ↔
      l = p ++ i ++ s ∧ ∀ p' s', l = p' ++ i ++ s' → p.length ≤ p'.length := by
  rw [List.dropInfix?_eq_some_iff]
  constructor
  · rintro ⟨⟨i', hl, hi⟩, hmin⟩
    obtain rfl := eq_of_beq hi
    exact ⟨hl, fun p' s' h => hmin p' i' s' h (by simp)⟩
  · rintro ⟨hl, hmin⟩
    refine ⟨⟨i, hl, by simp⟩, fun p' i' s' h hi => ?_⟩
    obtain rfl := eq_of_beq hi
    exact hmin p' s' h

theorem dropInfix?_none_iff {l i : List α} : l.dropInfix? i = none ↔ ¬ i <:+: l := by
  constructor
  · rintro h ⟨p, s, hl⟩
    -- among all occurrences, one of least offset would have been found
    have hex : ∃ n, ∃ p s, p.length = n ∧ p ++ i ++ s = l := ⟨p.length, p, s, rfl, hl⟩
    classical
    obtain ⟨q, t, hq, hqt⟩ := Nat.find_spec hex
    have hsome : l.dropInfix? i = some (q, t) := by
      refine dropInfix?_iff.mpr ⟨hqt.symm, fun p' s' h' => ?_⟩
      rw [hq]
      exact Nat.find_min' hex ⟨p', s', rfl, h'.symm⟩
    rw [h] at hsome
    exact absurd hsome (by simp)
  · intro h
    cases hc : l.dropInfix? i with
    | none => rfl
    | some x =>
      obtain ⟨p, s⟩ := x
      exact absurd ⟨p, s, (dropInfix?_iff.mp hc).1.symm⟩ h

/-- What is cut off in front of the first occurrence holds no occurrence. -/
theorem not_infix_of_dropInfix? {l i p s : List α} (hi : i ≠ [])
    (h : l.dropInfix? i = some (p, s)) : ¬ i <:+: p := by
  rintro ⟨a, b, rfl⟩
  obtain ⟨hl, hmin⟩ := dropInfix?_iff.mp h
  have hle := hmin a (b ++ i ++ s) (by rw [hl]; simp [List.append_assoc])
  have hpos : 0 < i.length := List.length_pos_iff.mpr hi
  simp only [List.length_append] at hle
  omega

/-- More text behind the list does not move the cut. -/
theorem dropInfix?_append {l i p s : List α} (h : l.dropInfix? i = some (p, s)) (rest : List α) :
    (l ++ rest).dropInfix? i = some (p, s ++ rest) := by
  obtain ⟨hl, hmin⟩ := dropInfix?_iff.mp h
  refine dropInfix?_iff.mpr ⟨by rw [hl, List.append_assoc], fun p' s' heq => ?_⟩
  by_contra hlt
  -- an earlier copy would lie inside `l`
  have hle : (p' ++ i).length ≤ l.length := by
    rw [hl]
    simp only [List.length_append]
    omega
  have hpre : p' ++ i <+: l :=
    List.prefix_of_prefix_length_le ⟨s', heq.symm⟩ (List.prefix_append l rest) hle
  obtain ⟨t, ht⟩ := hpre
  exact hlt (hmin p' t ht.symm)

/-- **The cut falls where the separator was put**, provided no copy of the separator starts
earlier. -/
theorem dropInfix?_append_of_first {p i s : List α} (hi : i ≠ [])
    (h : ¬ i <:+: p ++ i.dropLast) : (p ++ i ++ s).dropInfix? i = some (p, s) := by
  refine dropInfix?_iff.mpr ⟨rfl, fun p' s' heq => ?_⟩
  by_contra hlt
  have hpos : 0 < i.length := List.length_pos_iff.mpr hi
  -- an earlier copy would lie inside `p ++ i.dropLast`
  have h₁ : p' ++ i <+: p ++ i ++ s := ⟨s', heq.symm⟩
  have h₂ : p ++ i.dropLast <+: p ++ i ++ s := by
    rw [List.append_assoc]
    exact (List.prefix_append_right_inj p).mpr ((List.dropLast_prefix i).trans ⟨s, rfl⟩)
  have h₃ : p' ++ i <+: p ++ i.dropLast := by
    refine List.prefix_of_prefix_length_le h₁ h₂ ?_
    simp only [List.length_append, List.length_dropLast]
    omega
  exact h ((List.suffix_append p' i).isInfix.trans h₃.isInfix)

/-- A single symbol cuts where it first stands. -/
theorem dropInfix?_symbol {a : α} {p : List α} (h : a ∉ p) (s : List α) :
    (p ++ [a] ++ s).dropInfix? [a] = some (p, s) := by
  refine dropInfix?_append_of_first (by simp) fun hin => h ?_
  simpa using hin.subset List.mem_cons_self

/-- A scan from the left stops at once where the pattern starts ... -/
theorem dropInfix?_of_isPrefix (i s : List α) : (i ++ s).dropInfix? i = some ([], s) :=
  dropInfix?_iff.mpr ⟨by simp, fun _ _ _ => Nat.zero_le _⟩

/-- ... and moves on by one symbol where it does not. -/
theorem dropInfix?_cons {a : α} {l i : List α} (h : ¬ i <+: a :: l) :
    (a :: l).dropInfix? i = (l.dropInfix? i).map fun x => (a :: x.1, x.2) := by
  cases hl : l.dropInfix? i with
  | none =>
    have hn := dropInfix?_none_iff.mp hl
    rw [Option.map_none, dropInfix?_none_iff]
    rintro ⟨p, s, hps⟩
    cases p with
    | nil => exact h ⟨s, hps⟩
    | cons b p => exact hn ⟨p, s, (List.cons.inj hps).2⟩
  | some x =>
    obtain ⟨q, t⟩ := x
    obtain ⟨rfl, hmin⟩ := dropInfix?_iff.mp hl
    refine dropInfix?_iff.mpr ⟨rfl, fun p' s' hps => ?_⟩
    cases p' with
    | nil => exact absurd ⟨s', by simpa using hps.symm⟩ h
    | cons b p' =>
      have := hmin p' s' (List.cons.inj hps).2
      simpa using this

omit [BEq α] [LawfulBEq α] in
/-- A two-symbol separator cannot straddle the end of the text before it. -/
theorem not_infix_dropLast_pair {a b : α} (hab : a ≠ b) {p : List α} (h : ¬ [a, b] <:+: p) :
    ¬ [a, b] <:+: p ++ [a, b].dropLast := by
  rintro ⟨x, y, hxy⟩
  simp only [List.dropLast_cons_cons, List.dropLast_singleton] at hxy
  rcases List.eq_nil_or_concat y with rfl | ⟨y', c, rfl⟩
  · rw [List.append_nil, show [a, b] = [a] ++ [b] from rfl, ← List.append_assoc] at hxy
    have := (List.append_inj' hxy rfl).2
    exact hab (by simpa using this.symm)
  · rw [List.concat_eq_append, ← List.append_assoc] at hxy
    exact h ⟨x, y', (List.append_inj' hxy rfl).1⟩

omit [BEq α] [LawfulBEq α] in
/-- A separator made of ONE repeated symbol overlaps itself; it cannot straddle the end of
a text that does not end in that symbol. -/
theorem not_infix_dropLast_replicate {a : α} {n : ℕ} {p : List α}
    (h : ¬ List.replicate n a <:+: p) (hlast : p.getLast? ≠ some a) :
    ¬ List.replicate n a <:+: p ++ (List.replicate n a).dropLast := by
  rintro ⟨x, y, hxy⟩
  rw [List.dropLast_replicate] at hxy
  rcases List.eq_nil_or_concat p with rfl | ⟨q, c, rfl⟩
  · -- nothing before the separator: too short to hold a copy
    have hlen := congrArg List.length hxy
    simp only [List.length_append, List.length_replicate, List.length_nil] at hlen
    have hn : n = 0 := by omega
    subst hn
    exact h (by simp)
  · have hca : c ≠ a := by simpa using hlast
    rw [List.concat_eq_append] at hxy
    rcases Nat.lt_or_ge (x.length + n) (q.length + 2) with hle | hgt
    · -- the copy ends before the last symbol of the text
      refine h ((List.suffix_append x _).isInfix.trans ?_)
      have h₁ : x ++ List.replicate n a <+: (q ++ [c]) ++ List.replicate (n - 1) a := ⟨y, hxy⟩
      have h₂ : (q ++ [c]) <+: (q ++ [c]) ++ List.replicate (n - 1) a := ⟨_, rfl⟩
      rw [List.concat_eq_append]
      refine (List.prefix_of_prefix_length_le h₁ h₂ ?_).isInfix
      simp only [List.length_append, List.length_replicate, List.length_singleton]
      omega
    · -- otherwise the copy covers it
      have hlen := congrArg List.length hxy
      simp only [List.length_append, List.length_replicate, List.length_singleton] at hlen
      have hget := congrArg (fun l => l[q.length]?) hxy
      have hxq : x.length ≤ q.length := by omega
      simp only [List.append_assoc] at hget
      rw [List.getElem?_append_right hxq, List.getElem?_append_left (by simp; omega),
        List.getElem?_append_right (Nat.le_refl _), List.getElem?_replicate] at hget
      simp only [Nat.sub_self, List.cons_append, List.getElem?_cons_zero] at hget
      rw [if_pos (by omega)] at hget
      exact hca (by simpa using hget.symm)

end Search

/-! ## 2. Occurrences in composed texts -/

section Infix

variable {α β : Type} {sep : List α}

theorem not_infix_of_notMem {l : List α} {a : α} (ha : a ∈ sep) (h : a ∉ l) : ¬ sep <:+: l :=
  fun hin => h (hin.subset ha)

/-- A prefix that lacks the symbol `b` ends before it. -/
theorem prefix_append_cons_iff {x y : List α} {b : α} (hb : b ∉ sep) :
    sep <+: x ++ b :: y ↔ sep <+: x := by
  constructor
  · intro h
    rcases Nat.lt_or_ge x.length sep.length with hlt | hge
    · -- longer than `x`, it would reach over `b`
      have hxb : x ++ [b] <+: x ++ b :: y := ⟨y, by simp⟩
      have hin := List.prefix_of_prefix_length_le hxb h (by simpa using Nat.succ_le_of_lt hlt)
      exact absurd (hin.subset (by simp)) hb
    · exact List.prefix_of_prefix_length_le h (List.prefix_append _ _) hge
  · exact fun h => h.trans (List.prefix_append _ _)

/-- **An occurrence lies on one side of any symbol it lacks.** -/
theorem infix_append_cons_iff {b : α} (hb : b ∉ sep) (hne : sep ≠ []) (y : List α) :
    ∀ x : List α, sep <:+: x ++ b :: y ↔ sep <:+: x ∨ sep <:+: y := by
  intro x
  induction x with
  | nil =>
    have hpre : ¬ sep <+: b :: y := by
      intro h
      obtain rfl | ⟨t, rfl, -⟩ := List.prefix_cons_iff.mp h
      · exact hne rfl
      · exact hb (by simp)
    simp [List.infix_cons_iff, hpre, hne]
  | cons a x ih =>
    rw [List.cons_append, List.infix_cons_iff, ih,
      List.infix_cons_iff, ← List.cons_append, prefix_append_cons_iff hb, or_assoc]

/-- A stretch without any symbol of the pattern does not matter. -/
theorem infix_append_of_disjoint (hne : sep ≠ []) (y : List α) :
    ∀ x : List α, (∀ a ∈ x, a ∉ sep) → (sep <:+: x ++ y ↔ sep <:+: y) := by
  intro x
  induction x with
  | nil =>
    intro _
    exact Iff.rfl
  | cons a x ih =>
    intro h
    have hx := ih fun b hb => h b (List.mem_cons_of_mem _ hb)
    have hcut := infix_append_cons_iff (h a List.mem_cons_self) hne (x ++ y) []
    rw [List.nil_append] at hcut
    rw [List.cons_append, hcut, hx]
    simp [hne]

/-! ### Texts written symbol by symbol

A writer that copies some symbols and escapes the others keeps the occurrences of any pattern
made of copied symbols, as long as no escape contains one of them. -/

variable {f : β → List α} {e : β → α} {w : List β}

section Escape

variable (hcopy : ∀ c ∈ w, f c = [e c]) (honly : ∀ c ∈ w, ∀ c', e c ∈ f c' → c' = c)

include hcopy honly

theorem prefix_flatMap_iff (hf : ∀ c, f c ≠ []) :
    ∀ l : List β, w.map e <+: l.flatMap f ↔ w <+: l := by
  induction w with
  | nil => simp
  | cons c w ih =>
    have ih := ih (fun d hd => hcopy d (List.mem_cons_of_mem _ hd))
      (fun d hd => honly d (List.mem_cons_of_mem _ hd))
    intro l
    cases l with
    | nil => simp
    | cons c' l =>
      have hc := hcopy c List.mem_cons_self
      rw [List.map_cons, List.flatMap_cons, List.cons_prefix_cons]
      obtain ⟨a, as, ha⟩ := List.exists_cons_of_ne_nil (hf c')
      constructor
      · intro h
        rw [ha, List.cons_append, List.cons_prefix_cons] at h
        obtain rfl := honly c List.mem_cons_self c' (by rw [ha, h.1]; simp)
        obtain ⟨-, rfl⟩ := List.cons.inj (ha.symm.trans hc)
        exact ⟨rfl, (ih l).mp (by simpa using h.2)⟩
      · rintro ⟨rfl, h⟩
        rw [hc, List.singleton_append, List.cons_prefix_cons]
        exact ⟨rfl, (ih l).mpr h⟩

/-- **Escaping keeps the occurrences of a pattern of copied symbols.** -/
theorem infix_flatMap_iff (hf : ∀ c, f c ≠ []) (hw : w ≠ []) :
    ∀ l : List β, w.map e <:+: l.flatMap f ↔ w <:+: l := by
  intro l
  induction l with
  | nil =>
    simp
  | cons c l ih =>
    by_cases hc : c ∈ w
    · rw [List.flatMap_cons, hcopy c hc, List.singleton_append, List.infix_cons_iff,
        List.infix_cons_iff, ih, ← prefix_flatMap_iff hcopy honly hf (c :: l), List.flatMap_cons,
        hcopy c hc, List.singleton_append]
    · have hdisj : ∀ a ∈ f c, a ∉ w.map e := by
        intro a ha hm
        obtain ⟨d, hd, rfl⟩ := List.mem_map.mp hm
        exact hc (honly d hd c ha ▸ hd)
      have hskip := infix_append_cons_iff hc hw l []
      rw [List.nil_append] at hskip
      rw [List.flatMap_cons, infix_append_of_disjoint (by simpa using hw) _ _ hdisj, ih, hskip]
      simp [hw]

end Escape

end Infix

/-! ## 3. Pieces: cutting at every occurrence of a separator word -/

section Pieces

variable {α : Type} [BEq α]

/-- At most `n` cuts, from the left; each cut removes one occurrence of the separator. -/
def piecesAux (sep : List α) : ℕ → List α → List (List α)
  | 0, l => [l]
  | n + 1, l =>
    match l.dropInfix? sep with
    | none => [l]
    | some (p, s) => p :: piecesAux sep n s

/-- The text cut at every occurrence of `sep`, found from the left without overlap. -/
def pieces (sep l : List α) : List (List α) := piecesAux sep l.length l

variable [LawfulBEq α] {sep l p s : List α}

theorem dropInfix?_length_lt (hsep : sep ≠ []) (h : l.dropInfix? sep = some (p, s)) :
    s.length < l.length := by
  have hl := (dropInfix?_iff.mp h).1
  have hpos : 0 < sep.length := List.length_pos_iff.mpr hsep
  rw [hl]
  simp only [List.length_append]
  omega

/-- More cuts than symbols make no difference. -/
theorem piecesAux_of_le (hsep : sep ≠ []) : ∀ {n : ℕ} {l : List α}, l.length ≤ n →
    piecesAux sep n l = pieces sep l
  | 0, l, h => by
    obtain rfl := List.length_eq_zero_iff.mp (Nat.le_zero.mp h)
    rfl
  | n + 1, l, h => by
    cases hl : l.length with
    | zero =>
      obtain rfl := List.length_eq_zero_iff.mp hl
      have hn : ([] : List α).dropInfix? sep = none :=
        dropInfix?_none_iff.mpr (by simpa using hsep)
      simp [pieces, piecesAux, hn]
    | succ m =>
      rw [pieces, hl, piecesAux, piecesAux]
      split
      · rfl
      · rename_i p s hc
        have hlt := dropInfix?_length_lt hsep hc
        rw [piecesAux_of_le hsep (n := n) (by omega), piecesAux_of_le hsep (n := m) (by omega)]

/-- A text without the separator is its own only piece. -/
theorem pieces_of_notInfix (h : ¬ sep <:+: l) : pieces sep l = [l] := by
  have hn := dropInfix?_none_iff.mpr h
  unfold pieces
  cases l.length <;> simp [piecesAux, hn]

/-- The first cut, and the pieces of the rest. -/
theorem pieces_of_dropInfix? (hsep : sep ≠ []) (h : l.dropInfix? sep = some (p, s)) :
    pieces sep l = p :: pieces sep s := by
  have hlt := dropInfix?_length_lt hsep h
  obtain ⟨n, hn⟩ : ∃ n, l.length = n + 1 := ⟨l.length - 1, by omega⟩
  rw [pieces, hn, piecesAux, h]
  simp only
  rw [piecesAux_of_le hsep (by omega)]

omit [LawfulBEq α] in
theorem pieces_ne_nil (sep l : List α) : pieces sep l ≠ [] := by
  unfold pieces
  cases l.length with
  | zero => simp [piecesAux]
  | succ n =>
    rw [piecesAux]
    split <;> simp

/-- The induction behind every fact about `pieces`: a text with no separator, or a first
piece and a shorter rest. -/
theorem pieces_induction (hsep : sep ≠ []) {P : List α → Prop}
    (hlast : ∀ l, ¬ sep <:+: l → P l)
    (hcut : ∀ l p s, l.dropInfix? sep = some (p, s) → P s → P l) (l : List α) : P l := by
  induction hn : l.length using Nat.strong_induction_on generalizing l with
  | _ n ih =>
    cases hc : l.dropInfix? sep with
    | none => exact hlast l (dropInfix?_none_iff.mp hc)
    | some x =>
      obtain ⟨p, s⟩ := x
      exact hcut l p s hc (ih s.length (hn ▸ dropInfix?_length_lt hsep hc) s rfl)

/-- No piece holds the separator. -/
theorem not_infix_of_mem_pieces (hsep : sep ≠ []) (l : List α) :
    ∀ x ∈ pieces sep l, ¬ sep <:+: x := by
  refine pieces_induction hsep (P := fun l => ∀ x ∈ pieces sep l, ¬ sep <:+: x) ?_ ?_ l
  · intro l h x hx
    rw [pieces_of_notInfix h, List.mem_singleton] at hx
    exact hx ▸ h
  · intro l p s hc ih x hx
    rw [pieces_of_dropInfix? hsep hc] at hx
    rcases List.mem_cons.mp hx with rfl | hx
    · exact not_infix_of_dropInfix? hsep hc
    · exact ih x hx

omit [BEq α] [LawfulBEq α] in
/-- A joined text has the elements of its parts and of the separator, and no others. -/
theorem notMem_intercalate {a : α} (hsep : a ∉ sep) : ∀ {xs : List (List α)},
    (∀ x ∈ xs, a ∉ x) → a ∉ sep.intercalate xs
  | [], _ => by simp
  | [x], h => by simpa using h
  | x :: y :: xs, h => by
    rw [List.intercalate_cons_cons, List.mem_append, List.mem_append, not_or, not_or]
    exact ⟨⟨h x List.mem_cons_self, hsep⟩,
      notMem_intercalate hsep fun z hz => h z (List.mem_cons_of_mem _ hz)⟩

omit [BEq α] [LawfulBEq α] in
/-- A joined list, from its first word ... -/
theorem intercalate_cons_eq (sep t : List α) : ∀ ts : List (List α),
    sep.intercalate (t :: ts) = t ++ ts.flatMap (fun x => sep ++ x)
  | [] => by simp
  | t' :: ts => by
    rw [List.intercalate_cons_cons, intercalate_cons_eq sep t' ts]
    simp

omit [BEq α] [LawfulBEq α] in
/-- ... and to its last. -/
theorem intercalate_concat (sep t : List α) {ts : List (List α)} (h : ts ≠ []) :
    sep.intercalate (ts ++ [t]) = sep.intercalate ts ++ sep ++ t := by
  obtain ⟨t', ts', rfl⟩ := List.exists_cons_of_ne_nil h
  rw [List.cons_append, intercalate_cons_eq, intercalate_cons_eq]
  simp

/-- Joining the pieces gives the text back. -/
theorem intercalate_pieces (hsep : sep ≠ []) (l : List α) :
    sep.intercalate (pieces sep l) = l := by
  refine pieces_induction hsep (P := fun l => sep.intercalate (pieces sep l) = l) ?_ ?_ l
  · intro l h
    rw [pieces_of_notInfix h]
    simp
  · intro l p s hc ih
    rw [pieces_of_dropInfix? hsep hc]
    obtain ⟨x, xs, hx⟩ := List.exists_cons_of_ne_nil (pieces_ne_nil sep s)
    rw [hx] at ih ⊢
    rw [List.intercalate_cons_cons, ih, (dropInfix?_iff.mp hc).1, List.append_assoc]

/-- **Cutting inverts joining**, for words in which no copy of the separator starts before
the separator that follows them. -/
theorem pieces_intercalate (hsep : sep ≠ []) : ∀ {xs : List (List α)}, xs ≠ [] →
    (∀ x ∈ xs, ¬ sep <:+: x ++ sep.dropLast) → pieces sep (sep.intercalate xs) = xs
  | [], h, _ => absurd rfl h
  | [x], _, hx => by
    have h := hx x (by simp)
    rw [List.intercalate_singleton]
    exact pieces_of_notInfix fun hin => h (hin.trans (List.prefix_append _ _).isInfix)
  | x :: y :: ys, _, hx => by
    have hcut : (sep.intercalate (x :: y :: ys)).dropInfix? sep
        = some (x, sep.intercalate (y :: ys)) := by
      rw [List.intercalate_cons_cons]
      exact dropInfix?_append_of_first hsep (hx x (by simp))
    rw [pieces_of_dropInfix? hsep hcut,
      pieces_intercalate hsep (by simp) (fun z hz => hx z (by simp [List.mem_cons.mp hz]))]

end Pieces

/-! ## 4. Tokens: maximal runs of non-delimiters -/

section Tokens

variable {α : Type} {p : α → Bool}

/-- The maximal non-empty runs of symbols that are not delimiters, in order. -/
noncomputable def tokens (p : α → Bool) (l : List α) : List (List α) :=
  (l.splitOnP p).filter (fun t => !t.isEmpty)

@[simp] theorem tokens_nil : tokens p [] = [] := by
  simp [tokens]

/-- A delimiter separates what is before it from what is after it. -/
theorem tokens_append_cons (x y : List α) {d : α} (hd : p d = true) :
    tokens p (x ++ d :: y) = tokens p x ++ tokens p y := by
  simp [tokens, List.splitOnP_append_cons x y hd]

theorem tokens_cons_delim (y : List α) {d : α} (hd : p d = true) :
    tokens p (d :: y) = tokens p y := by
  simpa using tokens_append_cons [] y hd

/-- A non-empty word without delimiters is one token. -/
theorem tokens_of_forall {x : List α} (hx : x ≠ []) (h : ∀ a ∈ x, p a = false) :
    tokens p x = [x] := by
  have hs : x.splitOnP p = [x] := List.splitOnP_eq_singleton (fun a ha => h a ha)
  simp [tokens, hs, hx]

/-- Words joined by a delimiter, each non-empty and free of delimiters, are the tokens. -/
theorem tokens_intercalate {d : α} (hd : p d = true) : ∀ (xs : List (List α)),
    (∀ x ∈ xs, x ≠ [] ∧ ∀ a ∈ x, p a = false) → tokens p ([d].intercalate xs) = xs
  | [], _ => by simp
  | [x], h => by
    obtain ⟨h₁, h₂⟩ := h x (by simp)
    rw [List.intercalate_singleton]
    exact tokens_of_forall h₁ h₂
  | x :: y :: ys, h => by
    obtain ⟨h₁, h₂⟩ := h x (by simp)
    rw [List.intercalate_cons_cons, List.append_assoc, List.singleton_append,
      tokens_append_cons x _ hd, tokens_of_forall h₁ h₂,
      tokens_intercalate hd (y :: ys) (fun z hz => h z (by simp [List.mem_cons.mp hz]))]
    rfl

/-- The first token, and what is behind it; both are empty when there is none. -/
def firstToken (p : α → Bool) (l : List α) : List α := (l.dropWhile p).takeWhile (!p ·)

def afterToken (p : α → Bool) (l : List α) : List α := (l.dropWhile p).dropWhile (!p ·)

/-- The last token, empty when there is none. -/
def lastToken (p : α → Bool) (l : List α) : List α := (l.rdropWhile p).rtakeWhile (!p ·)

/-- Delimiters at either end make no token. -/
theorem tokens_dropWhile (l : List α) : tokens p (l.dropWhile p) = tokens p l := by
  induction l with
  | nil => rfl
  | cons a l ih =>
    by_cases ha : p a = true
    · rw [List.dropWhile_cons_of_pos ha, ih, tokens_cons_delim l ha]
    · rw [List.dropWhile_cons_of_neg ha]

theorem tokens_rdropWhile (l : List α) : tokens p (l.rdropWhile p) = tokens p l := by
  induction l using List.reverseRecOn with
  | nil => rfl
  | append_singleton l a ih =>
    by_cases ha : p a = true
    · rw [List.rdropWhile_concat_pos _ _ _ ha, ih, tokens_append_cons l [] ha]
      simp
    · rw [List.rdropWhile_concat_neg _ _ _ ha]

/-- There is no first token exactly when every symbol is a delimiter. -/
theorem firstToken_eq_nil_iff (l : List α) : firstToken p l = [] ↔ ∀ a ∈ l, p a = true := by
  rw [← List.dropWhile_eq_nil_iff]
  cases h : l.dropWhile p with
  | nil => simp [firstToken, h]
  | cons d rest =>
    have hd := List.head_dropWhile_not p (l := l) (by simp [h])
    simp only [h, List.head_cons] at hd
    simp [firstToken, h, hd]

/-- The first token is the head of the tokens. -/
theorem tokens_eq_cons {l : List α} (h : firstToken p l ≠ []) :
    tokens p l = firstToken p l :: tokens p (afterToken p l) := by
  have hfree : ∀ a ∈ firstToken p l, p a = false := by
    intro a ha
    simpa using List.mem_takeWhile_imp ha
  have hsplit : l.dropWhile p = firstToken p l ++ afterToken p l :=
    (List.takeWhile_append_dropWhile).symm
  rw [← tokens_dropWhile l, hsplit]
  cases hafter : afterToken p l with
  | nil => rw [List.append_nil, tokens_of_forall h hfree, tokens_nil]
  | cons d rest =>
    have hd : p d = true := by
      have hcons : (l.dropWhile p).dropWhile (!p ·) = d :: rest := hafter
      have hnot := List.head_dropWhile_not (!p ·) (l := l.dropWhile p) (by simp [hcons])
      simp only [hcons, List.head_cons] at hnot
      simpa using hnot
    rw [tokens_append_cons _ _ hd, tokens_of_forall h hfree, tokens_cons_delim _ hd]
    rfl

theorem head?_tokens (l : List α) :
    (tokens p l).head? = if firstToken p l = [] then none else some (firstToken p l) := by
  split
  · rename_i h
    have hdrop : l.dropWhile p = [] :=
      List.dropWhile_eq_nil_iff.mpr ((firstToken_eq_nil_iff l).mp h)
    rw [← tokens_dropWhile, hdrop]
    simp
  · rename_i h
    rw [tokens_eq_cons h]
    rfl

theorem tokens_eq_nil_iff (l : List α) : tokens p l = [] ↔ ∀ a ∈ l, p a = true := by
  rw [← firstToken_eq_nil_iff, ← List.head?_eq_none_iff, head?_tokens]
  by_cases h : firstToken p l = [] <;> simp [h]

/-- The last token is the last of the tokens. -/
theorem getLast?_tokens (l : List α) :
    (tokens p l).getLast? = if lastToken p l = [] then none else some (lastToken p l) := by
  have hfree : ∀ a ∈ lastToken p l, p a = false := by
    intro a ha
    simpa using List.mem_rtakeWhile_imp ha
  have hsplit : l.rdropWhile p
      = (l.rdropWhile p).rdropWhile (!p ·) ++ lastToken p l :=
    List.rdropWhile_append_rtakeWhile.symm
  rw [← tokens_rdropWhile l]
  by_cases hlast : lastToken p l = []
  · -- what is left ends in a symbol that is no delimiter, so nothing is left
    have hnil : l.rdropWhile p = [] := by
      by_contra hne
      have hnot := List.rdropWhile_last_not p l hne
      exact hnot (by simpa using (List.rtakeWhile_eq_nil_iff.mp hlast) hne)
    rw [hnil, if_pos hlast]
    simp
  · rw [if_neg hlast, hsplit]
    rcases List.eq_nil_or_concat ((l.rdropWhile p).rdropWhile (!p ·)) with hx | ⟨x, d, hx⟩
    · rw [hx, List.nil_append, tokens_of_forall hlast hfree]
      rfl
    · have hd : p d = true := by
        have hne : (l.rdropWhile p).rdropWhile (!p ·) ≠ [] := by
          rw [hx]
          simp
        have hnot := List.rdropWhile_last_not (!p ·) _ hne
        simp only [hx] at hnot
        simpa using hnot
      rw [hx, List.concat_eq_append, List.append_assoc, List.singleton_append,
        tokens_append_cons x _ hd, tokens_of_forall hlast hfree]
      simp

theorem lastToken_eq_nil_iff (l : List α) : lastToken p l = [] ↔ ∀ a ∈ l, p a = true := by
  have hnone : (tokens p l).getLast? = none ↔ tokens p l = [] := List.getLast?_eq_none_iff
  rw [getLast?_tokens] at hnone
  rw [← tokens_eq_nil_iff, ← hnone]
  by_cases h : lastToken p l = [] <;> simp [h]

/-- The last token of a text is that of what is behind a delimiter, if there is one. -/
theorem lastToken_append_cons (x y : List α) {d : α} (hd : p d = true) :
    lastToken p (x ++ d :: y) = if lastToken p y = [] then lastToken p x else lastToken p y := by
  have hlast : ∀ l, lastToken p l = (tokens p l).getLast?.getD [] := by
    intro l
    rw [getLast?_tokens]
    by_cases h : lastToken p l = [] <;> simp [h]
  rw [hlast (x ++ d :: y), tokens_append_cons x y hd, List.getLast?_append, getLast?_tokens y]
  by_cases h : lastToken p y = []
  · simp [h, hlast x]
  · simp [h]

/-- A word without delimiters is its own last token. -/
theorem lastToken_of_forall {x : List α} (h : ∀ a ∈ x, p a = false) : lastToken p x = x := by
  have hdrop : x.rdropWhile p = x :=
    List.rdropWhile_eq_self_iff.mpr fun hne => by simp [h _ (List.getLast_mem hne)]
  rw [lastToken, hdrop, List.rtakeWhile_eq_self_iff]
  intro a ha
  simp [h a ha]

/-- The last token of a text that goes on behind a delimiter-free word: the word and what joins
it, unless a later token follows. -/
theorem lastToken_word_append {w : List α} (hw : ∀ a ∈ w, p a = false) (l : List α) :
    lastToken p (w ++ l) =
      if lastToken p (l.dropWhile (!p ·)) = [] then w ++ l.takeWhile (!p ·)
      else lastToken p (l.dropWhile (!p ·)) := by
  have hfree : ∀ a ∈ w ++ l.takeWhile (!p ·), p a = false := by
    intro a ha
    rcases List.mem_append.mp ha with ha | ha
    · exact hw a ha
    · simpa using List.mem_takeWhile_imp ha
  have hjoin : w ++ l = w ++ l.takeWhile (!p ·) ++ l.dropWhile (!p ·) := by
    rw [List.append_assoc, List.takeWhile_append_dropWhile]
  cases hrest : l.dropWhile (!p ·) with
  | nil =>
    rw [hjoin, hrest, List.append_nil, lastToken_of_forall hfree]
    simp [lastToken]
  | cons d rest =>
    have hd : p d = true := by
      have hnot := List.head_dropWhile_not (!p ·) (l := l) (by simp [hrest])
      simp only [hrest, List.head_cons] at hnot
      simpa using hnot
    have hdrop : lastToken p (d :: rest) = lastToken p rest := by
      have := lastToken_append_cons [] rest hd
      rw [List.nil_append] at this
      rw [this]
      by_cases h : lastToken p rest = []
      · rw [if_pos h, h]
        rfl
      · rw [if_neg h]
    rw [hjoin, hrest, lastToken_append_cons _ _ hd, lastToken_of_forall hfree, hdrop]

/-- What is in front of the last delimiter before a symbol of the last token does not matter. -/
theorem lastToken_append_of_mem (x : List α) {y : List α} {a : α} (ha : a ∈ y) (hp : p a = false) :
    lastToken p (x ++ y) = lastToken p (x.rtakeWhile (!p ·) ++ y) := by
  have hne : lastToken p (x.rtakeWhile (!p ·) ++ y) ≠ [] := by
    intro hnil
    have := (lastToken_eq_nil_iff _).mp hnil a (List.mem_append_right _ ha)
    rw [hp] at this
    exact absurd this (by simp)
  have hsplit : x = x.rdropWhile (!p ·) ++ x.rtakeWhile (!p ·) :=
    List.rdropWhile_append_rtakeWhile.symm
  rcases List.eq_nil_or_concat (x.rdropWhile (!p ·)) with hx | ⟨x', d, hx⟩
  · rw [hx, List.nil_append] at hsplit
    rw [← hsplit]
  · have hd : p d = true := by
      have hnot := List.rdropWhile_last_not (!p ·) x (by simp [hx])
      simp only [hx] at hnot
      simpa using hnot
    nth_rewrite 1 [hsplit]
    rw [hx, List.concat_eq_append, List.append_assoc, List.append_assoc, List.singleton_append,
      lastToken_append_cons x' _ hd, if_neg hne]

/-- A text that ends outside a delimiter ends in its last token. -/
theorem lastToken_eq_rtakeWhile {l : List α} (h : l.rtakeWhile (!p ·) ≠ []) :
    lastToken p l = l.rtakeWhile (!p ·) := by
  have hdrop : l.rdropWhile p = l := by
    rw [List.rdropWhile_eq_self_iff]
    intro hl hlast
    exact h (List.rtakeWhile_eq_nil_iff.mpr fun _ => by simpa using hlast)
  rw [lastToken, hdrop]

/-- The first token of a text with a delimiter behind a delimiter-free word. -/
theorem firstToken_word_append {w : List α} (hne : w ≠ []) (hw : ∀ a ∈ w, p a = false) {d : α}
    (hd : p d = true) (l : List α) : firstToken p (w ++ d :: l) = w := by
  have hhead := head?_tokens (p := p) (w ++ d :: l)
  rw [tokens_append_cons _ _ hd, tokens_of_forall hne hw] at hhead
  by_cases h : firstToken p (w ++ d :: l) = []
  · simp [h] at hhead
  · simpa [h] using hhead.symm

theorem firstToken_of_forall {w : List α} (hw : ∀ a ∈ w, p a = false) : firstToken p w = w := by
  have hdrop : w.dropWhile p = w := by
    cases w with
    | nil => rfl
    | cons a w => exact List.dropWhile_cons_of_neg (by simp [hw a List.mem_cons_self])
  rw [firstToken, hdrop, List.takeWhile_eq_self_iff]
  intro a ha
  simp [hw a ha]

theorem lastToken_subset (l : List α) : lastToken p l ⊆ l := by
  intro a ha
  exact (List.rdropWhile_prefix _ _).subset ((List.rtakeWhile_suffix _ _).subset ha)

end Tokens

/-! ## 5. The part behind the last mark -/

section Since

variable {α β : Type}

/-- The entries behind the last one with `q`. -/
def since (q : α → Bool) (l : List α) : List α := l.rtakeWhile (!q ·)

/-- **Only what is behind the last mark counts**, exactly when nothing that counts stands before
a mark. -/
theorem filterMap_since_iff {f : α → Option β} {q : α → Bool}
    (hdisj : ∀ a, (f a).isSome = true → q a = false) (l : List α) :
    l.filterMap f = (since q l).filterMap f ↔
      ∀ x y, [x, y].Sublist l → (f x).isSome = true → q y = false := by
  have hsplit : l = l.rdropWhile (!q ·) ++ since q l := List.rdropWhile_append_rtakeWhile.symm
  have hfront : l.filterMap f = (since q l).filterMap f ↔
      (l.rdropWhile (!q ·)).filterMap f = [] := by
    nth_rewrite 1 [hsplit]
    rw [List.filterMap_append, List.append_left_eq_self]
  rw [hfront, List.filterMap_eq_nil_iff]
  constructor
  · intro hnone x y hsub hx
    by_contra hy
    rw [Bool.not_eq_false] at hy
    -- the mark is in front, and so is what stands before it
    rw [hsplit, List.sublist_append_iff] at hsub
    obtain ⟨l₁, l₂, hxy, h₁, h₂⟩ := hsub
    have hlast : y ∉ l₂ := by
      intro hmem
      have := List.mem_rtakeWhile_imp (h₂.subset hmem)
      simp [hy] at this
    have hfrontx : x ∈ l₁ := by
      match l₁, hxy with
      | [], hxy => exact absurd (show y ∈ l₂ by rw [← List.nil_append l₂, ← hxy]; simp) hlast
      | a :: l₁, hxy => simp [(List.cons.inj hxy).1]
    have := hnone x (h₁.subset hfrontx)
    simp [this] at hx
  · intro h x hx
    by_contra hne
    rw [← Ne, ← Option.isSome_iff_ne_none] at hne
    rcases List.eq_nil_or_concat (l.rdropWhile (!q ·)) with hnil | ⟨d, y, hd⟩
    · rw [hnil] at hx
      exact absurd hx (by simp)
    · have hy : q y = true := by
        have hnot := List.rdropWhile_last_not (!q ·) l (by simp [hd])
        simp only [hd] at hnot
        simpa using hnot
      rw [hd, List.concat_eq_append] at hx hsplit
      rcases List.mem_append.mp hx with hx | hx
      · have hsub : [x, y].Sublist l := by
          rw [hsplit]
          exact ((List.singleton_sublist.mpr hx).append (List.Sublist.refl [y])).trans
            (List.sublist_append_left _ _)
        rw [h x y hsub hne] at hy
        exact absurd hy (by simp)
      · rw [List.mem_singleton.mp hx] at hne
        rw [hdisj y hne] at hy
        exact absurd hy (by simp)

end Since

/-! ## 6. Byte strings -/

abbrev Bytes := List UInt8

/-- The bytes of an ASCII literal. -/
def ascii (s : String) : Bytes := s.toList.map fun c => UInt8.ofNat c.toNat

/-- The C string at the start of a buffer: everything before the first NUL. -/
def cstr (b : Bytes) : Bytes := b.takeWhile (· != 0)

@[simp] theorem cstr_nil : cstr [] = [] := rfl

theorem zero_notMem_cstr (b : Bytes) : 0 ∉ cstr b := by
  intro h
  have := List.mem_takeWhile_imp h
  simp at this

theorem cstr_eq_self {b : Bytes} (h : 0 ∉ b) : cstr b = b := by
  refine List.takeWhile_eq_self_iff.mpr fun x hx => ?_
  have hne : x ≠ 0 := fun e => h (e ▸ hx)
  simpa using hne

theorem cstr_isPrefix (b : Bytes) : cstr b <+: b := List.takeWhile_prefix _

theorem length_cstr_lt {b : Bytes} (h : 0 ∈ b) : (cstr b).length < b.length := by
  refine lt_of_le_of_ne (cstr_isPrefix b).length_le fun heq => zero_notMem_cstr b ?_
  rwa [(cstr_isPrefix b).eq_of_length heq]

/-- The terminator ends the string, whatever stands behind it. -/
theorem cstr_append_nul {b : Bytes} (h : 0 ∉ b) (rest : Bytes) : cstr (b ++ 0 :: rest) = b := by
  unfold cstr
  rw [List.takeWhile_append_of_pos]
  · simp
  · intro x hx
    have hne : x ≠ 0 := fun e => h (e ▸ hx)
    simpa using hne

/-- ... and when the string itself holds a NUL, that one comes first. -/
theorem cstr_append_nul' (b rest : Bytes) : cstr (b ++ 0 :: rest) = cstr b := by
  by_cases h : (0 : UInt8) ∈ b
  · obtain ⟨x, y, rfl, hx⟩ := List.eq_append_cons_of_mem h
    rw [List.append_assoc, List.cons_append, cstr_append_nul hx, cstr_append_nul hx]
  · rw [cstr_append_nul h, cstr_eq_self h]

/-- A buffer holds this C string: up to its end, or up to a terminator. -/
theorem cstr_eq_iff {b s : Bytes} : cstr b = s ↔ 0 ∉ s ∧ (b = s ∨ s ++ [0] <+: b) := by
  constructor
  · rintro rfl
    refine ⟨zero_notMem_cstr b, ?_⟩
    by_cases h : (0 : UInt8) ∈ b
    · obtain ⟨x, y, rfl, hx⟩ := List.eq_append_cons_of_mem h
      rw [cstr_append_nul hx]
      exact .inr ⟨y, by simp⟩
    · exact .inl (cstr_eq_self h).symm
  · rintro ⟨h0, rfl | ⟨y, rfl⟩⟩
    · exact cstr_eq_self h0
    · rw [List.append_assoc, List.singleton_append, cstr_append_nul h0]

/-- Overwrite the bytes of `buf` from offset `off` on with `data`. -/
def store (buf : Bytes) (off : ℕ) (data : Bytes) : Bytes :=
  buf.take off ++ data ++ buf.drop (off + data.length)

theorem length_store {buf data : Bytes} {off : ℕ} (h : off + data.length ≤ buf.length) :
    (store buf off data).length = buf.length := by
  simp only [store, List.length_append, List.length_take, List.length_drop]
  omega

theorem le_length_store {buf data : Bytes} {off : ℕ} (h : off ≤ buf.length) :
    off + data.length ≤ (store buf off data).length := by
  simp only [store, List.length_append, List.length_take]
  omega

/-- A byte outside the range stored to stays as it was. -/
theorem getElem?_store {buf data : Bytes} {off j : ℕ} (h : off ≤ buf.length)
    (hj : off ≤ j → off + data.length ≤ j) : (store buf off data)[j]? = buf[j]? := by
  rw [store, List.append_assoc]
  rcases Nat.lt_or_ge j off with hlt | hge
  · rw [List.getElem?_append_left (by rw [List.length_take]; omega), List.getElem?_take_of_lt hlt]
  · have hge' := hj hge
    rw [List.getElem?_append_right (by rw [List.length_take]; omega),
      List.getElem?_append_right (by rw [List.length_take]; omega), List.getElem?_drop,
      List.length_take]
    congr 1
    omega

/-- Consecutive stores are one store. -/
theorem store_store {buf d₁ d₂ : Bytes} {off : ℕ} (h : off + d₁.length ≤ buf.length) :
    store (store buf off d₁) (off + d₁.length) d₂ = store buf off (d₁ ++ d₂) := by
  have hlen : (buf.take off ++ d₁).length = off + d₁.length := by
    simp only [List.length_append, List.length_take]
    omega
  simp only [store]
  rw [← hlen, List.take_left, ← List.drop_drop, List.drop_left, List.drop_drop, hlen,
    List.length_append, List.append_assoc (buf.take off) d₁ d₂, Nat.add_assoc]

end Base
