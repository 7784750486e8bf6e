/-
# The C++ runtime, as the sources use it

What the translation units of the server take from the language and its library: the ways a
call can fail to return, `std::string::find` and `substr`, `std::vector::at`, and the
wrap-around of `size_t` on the 32-bit target that `makefile_x86` builds.

A failure is a value of `Raise`.  An uncaught exception and undefined behaviour both end the
process as far as this model goes, so both are errors of `Except Raise`; no code of the
server catches anything.
-/
import Reflector.Base.Printf

namespace Reflector

open Base

/-- How a call can fail to return. -/
inductive Raise
  /-- `std::out_of_range`, thrown by `at` and `substr`. -/
  | outOfRange
  /-- A load or a store outside the object it goes through. -/
  | outOfBounds
  /-- A null pointer where the callee needs an object. -/
  | nullPointer
  /-- A pointer to an object that has been deleted. -/
  | dangling
  /-- A formatting call with no documented result. -/
  | format
  /-- `std::bad_alloc` and its kind. -/
  | alloc
  /-- `Json::LogicError`, from an accessor that does not fit the value. -/
  | json
  deriving DecidableEq, Repr

/-- `std::vector::at`. -/
def atIndex {α : Type} (l : List α) (i : ℕ) : Except Raise α :=
  match l[i]? with
  | some x => .ok x
  | none => .error .outOfRange

/-- `std::string::find(pat, pos)`; `none` is `npos`. -/
def find (s pat : Bytes) (pos : ℕ) : Option ℕ :=
  ((s.drop pos).dropInfix? pat).map fun x => pos + x.1.length

/-- `std::string::substr(pos, n)`; a missing count goes to the end of the string. -/
def substr (s : Bytes) (pos : ℕ) (n : Option ℕ) : Except Raise Bytes :=
  if pos ≤ s.length then
    .ok (match n with | none => s.drop pos | some n => (s.drop pos).take n)
  else .error .outOfRange

/-- `std::string::npos` on the 32-bit target. -/
def npos : ℕ := 2 ^ 32 - 1

/-- `size_t` addition and subtraction. -/
def addSize (a b : ℕ) : ℕ := (a + b) % 2 ^ 32

def subSize (a b : ℕ) : ℕ := (a + 2 ^ 32 - b) % 2 ^ 32

@[simp] theorem atIndex_cons_zero {α : Type} (x : α) (l : List α) :
    atIndex (x :: l) 0 = .ok x := rfl

@[simp] theorem atIndex_cons_succ {α : Type} (x : α) (l : List α) (i : ℕ) :
    atIndex (x :: l) (i + 1) = atIndex l i := by
  simp [atIndex]

theorem substr_of_le {s : Bytes} {pos : ℕ} (h : pos ≤ s.length) :
    substr s pos none = .ok (s.drop pos) := by
  simp [substr, h]

@[simp] theorem substr_zero (s : Bytes) (n : ℕ) : substr s 0 (some n) = .ok (s.take n) := by
  simp [substr]

/-- A successful bind is a success followed by a success. -/
theorem bind_eq_ok {α β : Type} {x : Except Raise α} {f : α → Except Raise β} {b : β} :
    (x >>= f) = .ok b ↔ ∃ a, x = .ok a ∧ f a = .ok b := by
  cases x <;> simp [bind, Except.bind]

/-- A mapped success is a success. -/
theorem map_eq_ok {α β : Type} {x : Except Raise α} {f : α → β} {b : β} :
    x.map f = .ok b ↔ ∃ a, x = .ok a ∧ f a = b := by
  cases x <;> simp [Except.map]

@[simp] theorem ok_bind {α β : Type} (a : α) (f : α → Except Raise β) :
    ((.ok a : Except Raise α) >>= f) = f a := rfl

@[simp] theorem error_bind {α β : Type} (e : Raise) (f : α → Except Raise β) :
    ((.error e : Except Raise α) >>= f) = .error e := rfl

end Reflector
