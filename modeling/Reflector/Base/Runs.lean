/-
# Maximal runs

A predicate `p` on positions and a range `[lo, hi)` of them.  A RUN is an interval `[a, b)` of the
range that is not empty, has `p` everywhere, and cannot be made longer on either side: there is
the end of the range, or a position without `p` (`IsRun`).  `RunsOf p lo hi l` says that `l` has
the runs of the range, all of them, from left to right; there is one such list
(`RunsOf.unique`).

A scan from the left needs two positions: where it is, and where the interval it has open
began.  `Scan p lo s i l` is what such a scan knows, and the lemmas about it are its moves: it
starts (`Scan.start`), extends the open interval (`Scan.extend`), or closes it at a position
without `p` (`Scan.cut`).  Closing the last open interval completes the list (`Scan.runsOf`).
-/
import Mathlib.Data.List.Chain
import Mathlib.Data.List.Nodup

namespace Base

variable {p : ℕ → Prop} {lo hi s i a b : ℕ} {l : List (ℕ × ℕ)}

/-! ## 1. One run -/

/-- `[a, b)` is a maximal non-empty interval of `[lo, hi)` with `p` everywhere. -/
structure IsRun (p : ℕ → Prop) (lo hi a b : ℕ) : Prop where
  lt : a < b
  le_start : lo ≤ a
  stop_le : b ≤ hi
  all : ∀ j, a ≤ j → j < b → p j
  left : lo < a → ¬ p (a - 1)
  right : b < hi → ¬ p b

/-- The run through a position of `p` begins somewhere. -/
theorem exists_run_start : ∀ n : ℕ, p (lo + n) →
    ∃ a, lo ≤ a ∧ a ≤ lo + n ∧ (∀ j, a ≤ j → j ≤ lo + n → p j) ∧ (lo < a → ¬ p (a - 1))
  | 0, hp => by
    refine ⟨lo, Nat.le_refl _, by omega, ?_, by omega⟩
    intro j h₁ h₂
    obtain rfl : j = lo + 0 := by omega
    exact hp
  | n + 1, hp => by
    by_cases hprev : p (lo + n)
    · obtain ⟨a, h₁, h₂, hall, hleft⟩ := exists_run_start n hprev
      refine ⟨a, h₁, by omega, ?_, hleft⟩
      intro j hj₁ hj₂
      rcases Nat.lt_or_ge (lo + n) j with hj | hj
      · obtain rfl : j = lo + (n + 1) := by omega
        exact hp
      · exact hall j hj₁ hj
    · refine ⟨lo + (n + 1), by omega, Nat.le_refl _, ?_, fun _ => ?_⟩
      · intro j hj₁ hj₂
        obtain rfl : j = lo + (n + 1) := by omega
        exact hp
      · rwa [show lo + (n + 1) - 1 = lo + n by omega]

/-- It ends somewhere, at the latest with the range. -/
theorem exists_run_stop : ∀ n i : ℕ, i + n = hi →
    ∃ b, i ≤ b ∧ b ≤ hi ∧ (∀ j, i ≤ j → j < b → p j) ∧ (b < hi → ¬ p b)
  | 0, i, h => ⟨i, Nat.le_refl _, by omega, by omega, by omega⟩
  | n + 1, i, h => by
    by_cases hp : p i
    · obtain ⟨b, h₁, h₂, hall, hright⟩ := exists_run_stop n (i + 1) (by omega)
      refine ⟨b, by omega, h₂, ?_, hright⟩
      intro j hj₁ hj₂
      rcases Nat.lt_or_ge i j with hj | hj
      · exact hall j hj hj₂
      · obtain rfl : j = i := by omega
        exact hp
    · exact ⟨i, Nat.le_refl _, by omega, by omega, fun _ => hp⟩

/-- **Every position of `p` is in a run.** -/
theorem exists_isRun (hlo : lo ≤ i) (hhi : i < hi) (hp : p i) :
    ∃ a b, IsRun p lo hi a b ∧ a ≤ i ∧ i < b := by
  obtain ⟨n, rfl⟩ := Nat.exists_eq_add_of_le hlo
  obtain ⟨a, ha₁, ha₂, hall₁, hleft⟩ := exists_run_start n hp
  have hend : (lo + n + 1) + (hi - (lo + n + 1)) = hi := by omega
  obtain ⟨b, hb₁, hb₂, hall₂, hright⟩ := exists_run_stop (p := p) _ _ hend
  refine ⟨a, b, ⟨by omega, ha₁, hb₂, ?_, hleft, hright⟩, ha₂, hb₁⟩
  intro j hj₁ hj₂
  rcases Nat.lt_or_ge (lo + n) j with hj | hj
  · exact hall₂ j hj hj₂
  · exact hall₁ j hj₁ hj

/-- A run inside `[lo, s)` stays away from `s` when `s - 1` is without `p`. -/
theorem IsRun.stop_lt (h : IsRun p lo s a b) (hs : lo < s → ¬ p (s - 1)) : b < s := by
  have := h.lt
  have := h.le_start
  have := h.stop_le
  rcases Nat.lt_or_ge b s with hb | hb
  · exact hb
  · exact absurd (h.all (s - 1) (by omega) (by omega)) (hs (by omega))

/-- **The runs up to `i`, when `p` holds from `s` to `i` and not before `s`:** those up to `s`,
and `[s, i)` unless it is empty. -/
theorem isRun_append_iff (hlo : lo ≤ s) (hs : s ≤ i) (hopen : ∀ j, s ≤ j → j < i → p j)
    (hleft : lo < s → ¬ p (s - 1)) :
    IsRun p lo i a b ↔ IsRun p lo s a b ∨ (s < i ∧ a = s ∧ b = i) := by
  constructor
  · intro h
    have hab := h.lt
    have hbi := h.stop_le
    rcases Nat.lt_or_ge a s with has | has
    · -- it began before `s`, so it ended there too
      have hbs : b < s := by
        rcases Nat.lt_or_ge b s with hb | hb
        · exact hb
        · have hla := h.le_start
          exact absurd (h.all (s - 1) (by omega) (by omega)) (hleft (by omega))
      exact .inl ⟨hab, h.le_start, by omega, h.all, h.left, fun _ => h.right (by omega)⟩
    · -- it began behind `s`, where it could have been longer, or at `s`
      have ha : a = s := by
        by_contra hne
        exact h.left (by omega) (hopen (a - 1) (by omega) (by omega))
      have hb : b = i := by
        by_contra hne
        exact h.right (by omega) (hopen b (by omega) (by omega))
      exact .inr ⟨by omega, ha, hb⟩
  · rintro (h | ⟨hsi, rfl, rfl⟩)
    · have hb := h.stop_lt hleft
      exact ⟨h.lt, h.le_start, by omega, h.all, h.left, fun _ => h.right hb⟩
    · exact ⟨hsi, hlo, Nat.le_refl _, hopen, hleft, by omega⟩

/-- A position without `p` adds nothing. -/
theorem isRun_succ_iff (hp : ¬ p i) : IsRun p lo (i + 1) a b ↔ IsRun p lo i a b := by
  constructor
  · intro h
    have hab := h.lt
    have hb := h.stop_le
    have hbi : b ≤ i := by
      by_contra hne
      exact hp (h.all i (by omega) (by omega))
    exact ⟨hab, h.le_start, hbi, h.all, h.left, fun _ => h.right (by omega)⟩
  · intro h
    have hb := h.stop_le
    refine ⟨h.lt, h.le_start, by omega, h.all, h.left, fun _ => ?_⟩
    rcases Nat.lt_or_ge b i with hbi | hbi
    · exact h.right hbi
    · rwa [show b = i by omega]

/-! ## 2. The list of all runs -/

/-- `l` has the runs of `[lo, hi)`, from left to right. -/
structure RunsOf (p : ℕ → Prop) (lo hi : ℕ) (l : List (ℕ × ℕ)) : Prop where
  ordered : l.Pairwise fun x y => x.2 < y.1
  mem_iff : ∀ a b, (a, b) ∈ l ↔ IsRun p lo hi a b

theorem RunsOf.isRun (h : RunsOf p lo hi l) {x : ℕ × ℕ} (hx : x ∈ l) :
    IsRun p lo hi x.1 x.2 :=
  (h.mem_iff x.1 x.2).mp hx

/-- **Between two consecutive runs there is a position, and none of `p`.** -/
theorem RunsOf.isChain (h : RunsOf p lo hi l) :
    l.IsChain fun x y => x.2 < y.1 ∧ ∀ j, x.2 ≤ j → j < y.1 → ¬ p j := by
  rw [List.isChain_iff_forall_rel_of_append_cons_cons]
  rintro x y l₁ l₂ rfl
  have hx := h.isRun (x := x) (by simp)
  have hy := h.isRun (x := y) (by simp)
  obtain ⟨-, hcons, hfront⟩ := List.pairwise_append.mp h.ordered
  obtain ⟨hxs, hcons'⟩ := List.pairwise_cons.mp hcons
  obtain ⟨hys, -⟩ := List.pairwise_cons.mp hcons'
  have hxy : x.2 < y.1 := hxs y (by simp)
  refine ⟨hxy, fun j hj₁ hj₂ hp => ?_⟩
  have hxlt := hx.lt
  have hxlo := hx.le_start
  have hylt := hy.lt
  have hyhi := hy.stop_le
  -- the run through `j` would stand before `x`, behind `y`, or be one of them
  have hlo : lo ≤ j := by omega
  have hhi : j < hi := by omega
  obtain ⟨a, b, hrun, ha, hb⟩ := exists_isRun hlo hhi hp
  have hmem := (h.mem_iff a b).mpr hrun
  simp only [List.mem_append, List.mem_cons] at hmem
  rcases hmem with hm | rfl | rfl | hm
  · have := hfront _ hm x (by simp)
    dsimp only at this
    omega
  · dsimp only at hj₁
    omega
  · dsimp only at hj₂
    omega
  · have := hys _ hm
    dsimp only at this
    omega

/-- **Every position of `p` is in one entry of the list, and in one only.** -/
theorem RunsOf.existsUnique (h : RunsOf p lo hi l) (hlo : lo ≤ i) (hhi : i < hi) (hp : p i) :
    ∃! k : ℕ, ∃ x : ℕ × ℕ, l[k]? = some x ∧ x.1 ≤ i ∧ i < x.2 := by
  obtain ⟨a, b, hrun, ha, hb⟩ := exists_isRun hlo hhi hp
  obtain ⟨k, hk⟩ := List.mem_iff_getElem?.mp ((h.mem_iff a b).mpr hrun)
  refine ⟨k, ⟨(a, b), hk, ha, hb⟩, ?_⟩
  rintro m ⟨x, hm, hx₁, hx₂⟩
  obtain ⟨hkl, hka⟩ := List.getElem?_eq_some_iff.mp hk
  obtain ⟨hml, hmx⟩ := List.getElem?_eq_some_iff.mp hm
  have hord := List.pairwise_iff_getElem.mp h.ordered
  rcases Nat.lt_trichotomy m k with hmk | hmk | hmk
  · have := hord m k hml hkl hmk
    rw [hka, hmx] at this
    dsimp only at this
    omega
  · exact hmk
  · have := hord k m hkl hml hmk
    rw [hka, hmx] at this
    dsimp only at this
    omega

/-- The order forbids repetitions. -/
theorem RunsOf.nodup (h : RunsOf p lo hi l) : l.Nodup := by
  refine List.Pairwise.imp_of_mem ?_ h.ordered
  intro x y hx _ hxy heq
  have := (h.isRun hx).lt
  rw [heq] at hxy this
  omega

/-- **There is one list of all runs.** -/
theorem RunsOf.unique {l' : List (ℕ × ℕ)} (h : RunsOf p lo hi l) (h' : RunsOf p lo hi l') :
    l = l' := by
  have hperm : l.Perm l' :=
    (List.perm_ext_iff_of_nodup h.nodup h'.nodup).mpr fun x =>
      (h.mem_iff x.1 x.2).trans (h'.mem_iff x.1 x.2).symm
  refine List.Perm.eq_of_pairwise ?_ h.ordered h'.ordered hperm
  intro x y hx hy hxy hyx
  have hx' := (h.isRun hx).lt
  have hy' := (h'.isRun hy).lt
  omega

/-! ## 3. The scan -/

/-- Close the interval that is open since `s`, unless it is empty. -/
def closeRun (s i : ℕ) (l : List (ℕ × ℕ)) : List (ℕ × ℕ) :=
  if s < i then l ++ [(s, i)] else l

/-- **What a scan at `i` knows**: the runs up to `s`, and that `p` has held since. -/
structure Scan (p : ℕ → Prop) (lo s i : ℕ) (l : List (ℕ × ℕ)) : Prop where
  le_start : lo ≤ s
  le : s ≤ i
  isOpen : ∀ j, s ≤ j → j < i → p j
  left : lo < s → ¬ p (s - 1)
  closed : RunsOf p lo s l

theorem Scan.start (p : ℕ → Prop) (lo : ℕ) : Scan p lo lo lo [] := by
  refine ⟨Nat.le_refl _, Nat.le_refl _, by omega, by omega, List.Pairwise.nil, ?_⟩
  intro a b
  simp only [List.not_mem_nil, false_iff]
  intro h
  have h₁ := h.lt
  have h₂ := h.le_start
  have h₃ := h.stop_le
  omega

/-- Closing the open interval completes the list of the runs up to `i`. -/
theorem Scan.runsOf (h : Scan p lo s i l) : RunsOf p lo i (closeRun s i l) := by
  have hiff := fun a b => isRun_append_iff (a := a) (b := b) h.le_start h.le h.isOpen h.left
  unfold closeRun
  split
  · rename_i hsi
    constructor
    · rw [List.pairwise_append]
      refine ⟨h.closed.ordered, List.pairwise_singleton _ _, ?_⟩
      intro x hx y hy
      obtain rfl := List.mem_singleton.mp hy
      exact (h.closed.isRun hx).stop_lt h.left
    · intro a b
      rw [hiff, List.mem_append, h.closed.mem_iff, List.mem_singleton, Prod.mk.injEq]
      simp only [hsi, true_and]
  · rename_i hsi
    refine ⟨h.closed.ordered, fun a b => ?_⟩
    rw [hiff, h.closed.mem_iff]
    simp only [hsi, false_and, or_false]

theorem Scan.extend (h : Scan p lo s i l) (hp : p i) : Scan p lo s (i + 1) l := by
  refine ⟨h.le_start, Nat.le_succ_of_le h.le, fun j h₁ h₂ => ?_, h.left, h.closed⟩
  rcases Nat.lt_or_ge j i with hj | hj
  · exact h.isOpen j h₁ hj
  · obtain rfl : j = i := by omega
    exact hp

theorem Scan.cut (h : Scan p lo s i l) (hp : ¬ p i) :
    Scan p lo (i + 1) (i + 1) (closeRun s i l) := by
  have hle := h.le_start
  have hsi := h.le
  have hruns := h.runsOf
  refine ⟨by omega, Nat.le_refl _, by omega, fun _ => ?_, hruns.ordered, fun a b => ?_⟩
  · rwa [Nat.add_sub_cancel]
  · rw [isRun_succ_iff hp]
    exact hruns.mem_iff a b

end Base
