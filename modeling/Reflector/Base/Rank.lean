/-
# Steps that are paid for

A rank that no step raises pays for the steps that lower it: in a run there are no more of them
than the rank was at the beginning (`Run.tally_add_le`).  So whoever waits for steps of one kind
waits for so many at most (`Run.awaits`); which steps come in between is nobody's business.
-/
import Reflector.Base.Run

namespace Base

variable {S L E : Type} {step : S → L → Option (S × List E)} {s₀ s : S} {tr : List (L × List E)}

/-! ## 1. Counting along a run -/

/-- How many of the steps count. -/
def tally (step : S → L → Option (S × List E)) (counts : S → L → Bool) : S → List L → ℕ
  | _, [] => 0
  | s, l :: ls =>
    (counts s l).toNat + match step s l with
      | none => 0
      | some (s', _) => tally step counts s' ls

theorem tally_append {counts : S → L → Bool} (h : Run step s₀ tr s) (ls : List L) :
    tally step counts s₀ (tr.map Prod.fst ++ ls)
      = tally step counts s₀ (tr.map Prod.fst) + tally step counts s ls := by
  induction h generalizing ls with
  | refl => simp [tally]
  | @tail tr s s' l es hr hs ih =>
    rw [List.map_append, List.append_assoc, ih, ih, Nat.add_assoc]
    simp [tally, hs]

/-- **The steps that count are paid for by the rank**, when all steps are good. -/
theorem Run.tally_add_le {counts : S → L → Bool} {rank : S → ℕ} {I : S → Prop}
    {good : S → L → Prop} (h : Run step s₀ tr s) (h₀ : I s₀)
    (hstep : ∀ s l s' es, I s → step s l = some (s', es) → good s l →
      I s' ∧ (counts s l).toNat + rank s' ≤ rank s) (hall : AllGood step s₀ good tr) :
    I s ∧ tally step counts s₀ (tr.map Prod.fst) + rank s ≤ rank s₀ := by
  induction h with
  | refl => exact ⟨h₀, by simp [tally]⟩
  | @tail tr s s' l es hr hs ih =>
    obtain ⟨hall, hlast⟩ := (allGood_concat hr).mp hall
    obtain ⟨hs₁, hle⟩ := ih hall
    obtain ⟨hs', hpaid⟩ := hstep s l s' es hs₁ hs hlast
    refine ⟨hs', ?_⟩
    rw [List.map_append, tally_append hr]
    simp only [List.map_cons, List.map_nil, tally, hs]
    omega

/-! ## 2. Waiting -/

/-- **A wait ends with the steps it waits for**: while `W` lasts each of them lowers the rank, and
the rank is never zero.  What is waited for is `Q`. -/
theorem Run.awaits {W Q : S → Prop} {awaited : L → Bool} {rank : S → ℕ} (h : Run step s₀ tr s)
    (h₀ : W s₀) (hpos : ∀ s, W s → 0 < rank s)
    (hstep : ∀ s l s' es, W s → step s l = some (s', es) →
      Q s' ∨ W s' ∧ (awaited l).toNat + rank s' ≤ rank s) :
    (∃ tr₁ tr₂ s₁, tr = tr₁ ++ tr₂ ∧ Run step s₀ tr₁ s₁ ∧ Q s₁ ∧
      tr₁.countP (fun x => awaited x.1) ≤ rank s₀) ∨
    W s ∧ tr.countP (fun x => awaited x.1) + rank s ≤ rank s₀ := by
  induction h with
  | refl => exact .inr ⟨h₀, by simp⟩
  | @tail tr s s' l es hr hs ih =>
    rcases ih with ⟨tr₁, tr₂, s₁, rfl, hr₁, hQ, hle⟩ | ⟨hW, hle⟩
    · exact .inl ⟨tr₁, tr₂ ++ [(l, es)], s₁, by simp, hr₁, hQ, hle⟩
    · have hone : [(l, es)].countP (fun x => awaited x.1) = (awaited l).toNat := by
        cases hl : awaited l <;> simp [hl]
      have hrank := hpos s hW
      rcases hstep s l s' es hW hs with hQ | ⟨hW', hpaid⟩
      · refine .inl ⟨tr ++ [(l, es)], [], s', by simp, hr.tail hs, hQ, ?_⟩
        have hlast := (awaited l).toNat_le
        rw [List.countP_append, hone]
        omega
      · refine .inr ⟨hW', ?_⟩
        rw [List.countP_append, hone]
        omega

end Base
