/-
# Pre- and postconditions for code that can throw

`Ends may post x`: the computation `x` returns something that satisfies `post`, or throws
something that `may` allows.  With `may` true of nothing it says that `x` returns.

The rules follow the ways a computation is put together: a return, a throw, one computation
behind another, and a loop that is run for as many turns as a measure of its state allows.
-/
import Mathlib.Data.Nat.Notation

namespace Base

variable {ε α β : Type} {may may' : ε → Prop} {post post' : α → Prop} {after : β → Prop}

def Ends (may : ε → Prop) (post : α → Prop) : Except ε α → Prop
  | .ok a => post a
  | .error e => may e

@[simp] theorem ends_ok {a : α} : Ends may post (.ok a) ↔ post a := Iff.rfl

@[simp] theorem ends_error {e : ε} : Ends may post (.error e : Except ε α) ↔ may e := Iff.rfl

/-- One computation behind another. -/
theorem Ends.bind {x : Except ε α} {f : α → Except ε β} (hx : Ends may post x)
    (hf : ∀ a, post a → Ends may after (f a)) : Ends may after (x >>= f) := by
  cases x with
  | error e => exact hx
  | ok a => exact hf a hx

/-- Less is known behind it, and more may have gone wrong. -/
theorem Ends.mono {x : Except ε α} (hx : Ends may post x) (hmay : ∀ e, may e → may' e)
    (hpost : ∀ a, post a → post' a) : Ends may' post' x := by
  cases x with
  | error e => exact hmay e hx
  | ok a => exact hpost a hx

theorem Ends.weaken {x : Except ε α} (hx : Ends may post x) (hpost : ∀ a, post a → post' a) :
    Ends may post' x :=
  hx.mono (fun _ h => h) hpost

theorem Ends.and {x : Except ε α} (h : Ends may post x) (h' : Ends may' post' x) :
    Ends may (fun a => post a ∧ post' a) x := by
  cases x with
  | error e => exact h
  | ok a => exact ⟨h, h'⟩

theorem Ends.of_ok {x : Except ε α} {a : α} (hx : Ends may post x) (h : x = .ok a) : post a := by
  subst h
  exact hx

theorem Ends.of_error {x : Except ε α} {e : ε} (hx : Ends may post x) (h : x = .error e) :
    may e := by
  subst h
  exact hx

/-- Nothing may be thrown, so something is returned. -/
theorem Ends.returns {x : Except ε α} (hx : Ends (fun _ => False) post x) :
    ∃ a, x = .ok a ∧ post a := by
  cases x with
  | error e => exact absurd hx id
  | ok a => exact ⟨a, rfl, hx⟩

/-- **A loop**: with a turn for each value its measure can still take, it ends as its body does.
`body` is given what the loop does with one turn less. -/
theorem Ends.loop {σ : Type*} (loop : ℕ → σ → Except ε β) (inv : σ → Prop) (measure : σ → ℕ)
    (turn : ∀ n s, inv s → measure s < n + 1 →
      (∀ s', inv s' → measure s' < n → Ends may after (loop n s')) →
      Ends may after (loop (n + 1) s)) :
    ∀ n s, inv s → measure s < n → Ends may after (loop n s) := by
  intro n
  induction n with
  | zero => exact fun s _ hn => absurd hn (Nat.not_lt_zero _)
  | succ n ih => exact fun s hs hn => turn n s hs hn ih

end Base
