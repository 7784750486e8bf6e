/-
# Runs of a labelled step function

A system is a step function `step : S → L → Option (S × List E)`: in a state, a label is
either not enabled (`none`) or it leads to a next state and EMITS a list of events.  The
label says who moved and what the environment supplied; the events are what an observer of
the system can see.  A run is a sequence of steps from a fixed start, and its trace keeps
both the labels and the events, so that a history never has to be stored in the state.

This file has the four rules the rest of the development argues with:

* `Run.invariant`: a property of trace and state that holds at the start and is kept by
  every step holds after every run;
* `Run.split`: a run cut at any point is two runs, so "at every moment of the run" is "at
  the end of every run";
* `Run.always_iff`: a property that good steps keep and all others break holds at every moment
  exactly in the runs whose steps are all good;
* `exists_run`: a concrete list of labels is executed by the kernel.

A last section has what "every step of this kind comes after one of that kind" says of a trace
(`Preceded`), with the rule for one more step.
-/
import Mathlib.Data.List.Basic

namespace Base

variable {S L E : Type}

/-! ## 1. Runs and their traces -/

/-- `Run step s₀ tr s`: the run from `s₀` with trace `tr` ends in `s`. -/
inductive Run (step : S → L → Option (S × List E)) (s₀ : S) : List (L × List E) → S → Prop
  | refl : Run step s₀ [] s₀
  | tail {tr : List (L × List E)} {s s' : S} {l : L} {es : List E} :
      Run step s₀ tr s → step s l = some (s', es) → Run step s₀ (tr ++ [(l, es)]) s'

/-- Everything the run has emitted, in order. -/
def events (tr : List (L × List E)) : List E := tr.flatMap Prod.snd

@[simp] theorem events_nil : events ([] : List (L × List E)) = [] := rfl

@[simp] theorem events_append (tr tr' : List (L × List E)) :
    events (tr ++ tr') = events tr ++ events tr' := by
  simp [events]

@[simp] theorem events_singleton (l : L) (es : List E) : events [(l, es)] = es := by
  simp [events]

variable {step : S → L → Option (S × List E)} {s₀ s : S} {tr : List (L × List E)}

/-- **The invariant rule.**  The step hypothesis may use that the state it starts from is
reached by the run so far. -/
theorem Run.invariant (I : List (L × List E) → S → Prop) (h₀ : I [] s₀)
    (hstep : ∀ tr s l s' es, Run step s₀ tr s → I tr s → step s l = some (s', es) →
      I (tr ++ [(l, es)]) s')
    (h : Run step s₀ tr s) : I tr s := by
  induction h with
  | refl => exact h₀
  | tail hr hs ih => exact hstep _ _ _ _ _ hr ih hs

/-- Runs compose. -/
theorem Run.trans {s₁ : S} {tr₁ : List (L × List E)} (h₁ : Run step s₀ tr₁ s₁)
    (h₂ : Run step s₁ tr s) : Run step s₀ (tr₁ ++ tr) s := by
  induction h₂ with
  | refl => simpa using h₁
  | tail _ hs ih =>
    rw [← List.append_assoc]
    exact ih.tail hs

/-- **A run can be cut anywhere.** -/
theorem Run.split {tr₁ tr₂ : List (L × List E)} (h : Run step s₀ (tr₁ ++ tr₂) s) :
    ∃ s₁, Run step s₀ tr₁ s₁ ∧ Run step s₁ tr₂ s := by
  generalize htr : tr₁ ++ tr₂ = tr at h
  induction h generalizing tr₂ with
  | refl =>
    obtain ⟨rfl, rfl⟩ := List.append_eq_nil_iff.mp htr
    exact ⟨s₀, .refl, .refl⟩
  | @tail tr s s' l es hr hs ih =>
    rcases List.eq_nil_or_concat tr₂ with rfl | ⟨tr₃, x, rfl⟩
    · rw [List.append_nil] at htr
      subst htr
      exact ⟨s', hr.tail hs, .refl⟩
    · rw [List.concat_eq_append, ← List.append_assoc] at htr
      obtain ⟨htr, hx⟩ := List.append_inj' htr rfl
      obtain ⟨s₁, h₁, h₂⟩ := ih htr
      obtain rfl : x = (l, es) := by simpa using hx
      exact ⟨s₁, h₁, by rw [List.concat_eq_append]; exact h₂.tail hs⟩

/-- A run of one step is a step. -/
theorem Run.of_singleton {x : L × List E} (h : Run step s₀ [x] s) :
    step s₀ x.1 = some (s, x.2) := by
  generalize htr : [x] = tr at h
  cases h with
  | refl => exact absurd htr (by simp)
  | @tail tr s s' l es hr hs =>
    obtain ⟨h₁, h₂⟩ := List.append_inj' (show [] ++ [x] = tr ++ [(l, es)] from htr) rfl
    obtain rfl : x = (l, es) := by simpa using h₂
    subst h₁
    generalize htr' : ([] : List (L × List E)) = tr' at hr
    cases hr with
    | refl => exact hs
    | tail => exact absurd htr' (by simp)

/-- The trace determines the state. -/
theorem Run.det {s' : S} (h : Run step s₀ tr s) (h' : Run step s₀ tr s') : s = s' := by
  induction h generalizing s' with
  | refl =>
    generalize htr : ([] : List (L × List E)) = tr at h'
    cases h' with
    | refl => rfl
    | tail => exact absurd htr (by simp)
  | tail _ hs ih =>
    obtain ⟨s₁, h₁, h₂⟩ := h'.split
    obtain rfl := ih h₁
    have hs' := h₂.of_singleton
    rw [hs] at hs'
    exact (Prod.mk.inj (Option.some.inj hs')).1

/-- The step taken at any position of a run, with the run before it. -/
theorem Run.step_at {tr₁ tr₂ : List (L × List E)} {l : L} {es : List E}
    (h : Run step s₀ (tr₁ ++ (l, es) :: tr₂) s) :
    ∃ s₁ s₂, Run step s₀ tr₁ s₁ ∧ step s₁ l = some (s₂, es) ∧ Run step s₂ tr₂ s := by
  obtain ⟨s₁, h₁, h₂⟩ := h.split
  rw [← List.singleton_append] at h₂
  obtain ⟨s₂, h₃, h₄⟩ := h₂.split
  exact ⟨s₁, s₂, h₁, h₃.of_singleton, h₄⟩

/-! ## 2. Runs whose steps are all good -/

section Always

variable {I P : List (L × List E) → S → Prop} {good : S → L → Prop}

/-- Every step of the trace is taken from a state in which it is good. -/
def AllGood (step : S → L → Option (S × List E)) (s₀ : S) (good : S → L → Prop)
    (tr : List (L × List E)) : Prop :=
  ∀ tr₁ l es tr₂ s₁, tr = tr₁ ++ (l, es) :: tr₂ → Run step s₀ tr₁ s₁ → good s₁ l

theorem AllGood.left {tr₁ tr₂ : List (L × List E)} (h : AllGood step s₀ good (tr₁ ++ tr₂)) :
    AllGood step s₀ good tr₁ := by
  rintro tr₃ l es tr₄ s₃ rfl hr
  exact h tr₃ l es (tr₄ ++ tr₂) s₃ (by simp) hr

theorem allGood_concat {l : L} {es : List E} (hrun : Run step s₀ tr s) :
    AllGood step s₀ good (tr ++ [(l, es)]) ↔ AllGood step s₀ good tr ∧ good s l := by
  constructor
  · exact fun h => ⟨h.left, h tr l es [] s rfl hrun⟩
  · rintro ⟨h, hlast⟩ tr₁ l₁ es₁ tr₂ s₁ hsplit hr
    rcases List.eq_nil_or_concat tr₂ with rfl | ⟨tr₃, x, rfl⟩
    · obtain ⟨rfl, hx⟩ := List.append_inj' hsplit rfl
      obtain ⟨rfl, -⟩ : l = l₁ ∧ es = es₁ := by simpa using hx
      exact hrun.det hr ▸ hlast
    · rw [List.concat_eq_append, ← List.cons_append, ← List.append_assoc] at hsplit
      obtain ⟨rfl, -⟩ := List.append_inj' hsplit rfl
      exact h tr₁ l₁ es₁ tr₃ s₁ rfl hr

/-- **The invariant rule for good steps.** -/
theorem Run.invariant_of_good (h₀ : I [] s₀)
    (hgood : ∀ tr s l s' es, Run step s₀ tr s → I tr s → step s l = some (s', es) → good s l →
      I (tr ++ [(l, es)]) s')
    (h : Run step s₀ tr s) (hall : AllGood step s₀ good tr) : I tr s := by
  induction h with
  | refl => exact h₀
  | tail hr hs ih =>
    obtain ⟨hall, hlast⟩ := (allGood_concat hr).mp hall
    exact hgood _ _ _ _ _ hr (ih hall) hs hlast

/-- **A property holds at every moment exactly in the runs whose steps are all good**, if good
steps keep an invariant that gives it, and any other step from that invariant breaks it. -/
theorem Run.always_iff (h₀ : I [] s₀) (hP : ∀ tr s, I tr s → P tr s)
    (hgood : ∀ tr s l s' es, Run step s₀ tr s → I tr s → step s l = some (s', es) → good s l →
      I (tr ++ [(l, es)]) s')
    (hbad : ∀ tr s l s' es, Run step s₀ tr s → I tr s → step s l = some (s', es) →
      ¬ good s l → ¬ P (tr ++ [(l, es)]) s')
    (h : Run step s₀ tr s) :
    (∀ tr₁ tr₂ s₁, tr = tr₁ ++ tr₂ → Run step s₀ tr₁ s₁ → P tr₁ s₁) ↔
      AllGood step s₀ good tr := by
  constructor
  · intro hall
    induction h with
    | refl => exact fun tr₁ l es tr₂ s₁ hsplit _ => absurd hsplit (by simp)
    | @tail tr s s' l es hr hs ih =>
      have hbefore : AllGood step s₀ good tr := ih fun tr₁ tr₂ s₁ hsplit hr₁ =>
        hall tr₁ (tr₂ ++ [(l, es)]) s₁ (by simp [hsplit]) hr₁
      refine (allGood_concat hr).mpr ⟨hbefore, ?_⟩
      by_contra hnot
      have hinv : I tr s := hr.invariant_of_good h₀ hgood hbefore
      exact hbad tr s l s' es hr hinv hs hnot (hall _ [] s' (by simp) (hr.tail hs))
  · rintro hall tr₁ tr₂ s₁ rfl hr₁
    exact hP tr₁ s₁ (hr₁.invariant_of_good h₀ hgood hall.left)

end Always

/-! ## 3. Executing a list of labels -/

/-- Take the labels in order; `none` if one of them is not enabled where it is reached. -/
def runLabels (step : S → L → Option (S × List E)) : S → List L → Option (List (L × List E) × S)
  | s, [] => some ([], s)
  | s, l :: ls =>
    match step s l with
    | none => none
    | some (s', es) => (runLabels step s' ls).map fun (tr, t) => ((l, es) :: tr, t)

/-- What `runLabels` executes is a run. -/
theorem run_of_runLabels : ∀ (ls : List L) {s₀ : S} {tr : List (L × List E)} {s : S},
    runLabels step s₀ ls = some (tr, s) → Run step s₀ tr s := by
  intro ls
  induction ls with
  | nil =>
    intro s₀ tr s h
    simp only [runLabels, Option.some.injEq, Prod.mk.injEq] at h
    obtain ⟨rfl, rfl⟩ := h
    exact .refl
  | cons l ls ih =>
    intro s₀ tr s h
    simp only [runLabels] at h
    split at h
    · exact absurd h (by simp)
    · rename_i s' es hs
      obtain ⟨⟨tr', t⟩, ht, heq⟩ := Option.map_eq_some_iff.mp h
      simp only [Prod.mk.injEq] at heq
      obtain ⟨rfl, rfl⟩ := heq
      exact (Run.tail .refl hs).trans (ih ht)

/-- Whether all steps are good is executed along with them. -/
def goodLabels (step : S → L → Option (S × List E)) (good : S → L → Bool) : S → List L → Bool
  | _, [] => true
  | s, l :: ls => good s l && (step s l).all fun x => goodLabels step good x.1 ls

theorem goodLabels_append {good : S → L → Bool} (h : Run step s₀ tr s) (ls : List L) :
    goodLabels step good s₀ (tr.map Prod.fst ++ ls)
      = (goodLabels step good s₀ (tr.map Prod.fst) && goodLabels step good s ls) := by
  induction h generalizing ls with
  | refl => rfl
  | @tail tr s s' l es hr hs ih =>
    rw [List.map_append, List.append_assoc, ih, ih]
    simp [goodLabels, hs, Bool.and_assoc]

/-- In a concrete run, the kernel says whether all steps are good. -/
theorem allGood_iff {good : S → L → Bool} (h : Run step s₀ tr s) :
    AllGood step s₀ (fun s l => good s l = true) tr ↔
      goodLabels step good s₀ (tr.map Prod.fst) = true := by
  induction h with
  | refl => exact ⟨fun _ => rfl, fun _ tr₁ l es tr₂ s₁ hsplit _ => absurd hsplit (by simp)⟩
  | @tail tr s s' l es hr hs ih =>
    rw [allGood_concat hr, ih, List.map_append, goodLabels_append hr]
    simp [goodLabels, hs]

/-- A run with a property that can be computed from its trace and its last state. -/
theorem exists_run (step : S → L → Option (S × List E)) (s₀ : S) (ls : List L)
    (p : List (L × List E) → S → Bool)
    (h : ((runLabels step s₀ ls).any fun x => p x.1 x.2) = true) :
    ∃ tr s, Run step s₀ tr s ∧ p tr s = true := by
  cases hrun : runLabels step s₀ ls with
  | none =>
    rw [hrun] at h
    exact absurd h (by simp)
  | some x =>
    rw [hrun] at h
    exact ⟨x.1, x.2, run_of_runLabels ls hrun, h⟩

/-! ## 4. One kind of step after another -/

section Preceded

variable {α : Type} {p q : α → Prop}

/-- Every entry with `p` comes after an entry with `q`. -/
def Preceded (p q : α → Prop) (l : List α) : Prop :=
  ∀ l₁ a l₂, l = l₁ ++ a :: l₂ → p a → ∃ b ∈ l₁, q b

theorem preceded_nil : Preceded p q [] := by
  rintro l₁ a l₂ h
  exact absurd h (by simp)

/-- A property of every entry and what comes before it, when more entries are added. -/
theorem forall_split_append {P : List α → α → Prop} {l l' : List α} :
    (∀ l₁ a l₂, l ++ l' = l₁ ++ a :: l₂ → P l₁ a) ↔
      (∀ l₁ a l₂, l = l₁ ++ a :: l₂ → P l₁ a) ∧
        ∀ l₁ a l₂, l' = l₁ ++ a :: l₂ → P (l ++ l₁) a := by
  constructor
  · intro h
    constructor
    · rintro l₁ a l₂ rfl
      exact h l₁ a (l₂ ++ l') (by simp)
    · rintro l₁ a l₂ rfl
      exact h (l ++ l₁) a l₂ (by simp)
  · rintro ⟨h, h'⟩ l₁ a l₂ hsplit
    rcases List.append_eq_append_iff.mp hsplit with ⟨as, rfl, hl'⟩ | ⟨as, hl, has⟩
    · exact h' as a l₂ hl'
    · cases as with
      | nil =>
        obtain rfl : l = l₁ := by simpa using hl
        simpa using h' [] a l₂ (by simpa using has.symm)
      | cons x as =>
        obtain ⟨rfl, rfl⟩ := List.cons.inj has
        exact h l₁ a as hl

/-- **One more entry.** -/
theorem preceded_concat {l : List α} {a : α} :
    Preceded p q (l ++ [a]) ↔ Preceded p q l ∧ (p a → ∃ b ∈ l, q b) := by
  unfold Preceded
  rw [forall_split_append]
  refine and_congr_right fun _ => ⟨fun h => by simpa using h [] a [] rfl, ?_⟩
  rintro h l₁ x l₂ hx
  obtain ⟨rfl, rfl, rfl⟩ : l₁ = [] ∧ a = x ∧ l₂ = [] := by
    cases l₁ with
    | nil => simpa using hx
    | cons y l₁ => simp at hx
  simpa using h

theorem preceded_iff_zipIdx {l : List α} :
    Preceded p q l ↔ ∀ x ∈ l.zipIdx, p x.1 → ∃ b ∈ l.take x.2, q b := by
  constructor
  · rintro h ⟨a, i⟩ hx
    have hget : l[i]? = some a := List.mem_zipIdx_iff_getElem?.mp hx
    obtain ⟨hi, rfl⟩ := List.getElem?_eq_some_iff.mp hget
    exact h (l.take i) l[i] (l.drop (i + 1)) (by simp)
  · rintro h l₁ a l₂ rfl hp
    have hmem : (a, l₁.length) ∈ (l₁ ++ a :: l₂).zipIdx := by
      rw [List.mem_zipIdx_iff_getElem?]
      simp
    have := h (a, l₁.length) hmem hp
    rwa [List.take_left] at this

instance [DecidablePred p] [DecidablePred q] (l : List α) : Decidable (Preceded p q l) :=
  decidable_of_iff _ preceded_iff_zipIdx.symm

end Preceded

end Base
