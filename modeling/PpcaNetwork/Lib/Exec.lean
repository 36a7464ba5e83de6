import Mathlib

/-!
# Executions that can go wrong

What becomes of a piece of code that reads from buffers and loops: it returns, it
panics on an access outside a buffer, or it is still running when the rounds that a
loop was given are used up.

* `Exec` — the outcomes, as a monad.
* `Exec.index`, `Exec.slice` and the definitions after them — the accesses that can panic,
  each with the bound under which it does not.
* `Exec.fits`, `Exec.add32` — arithmetic that panics when it overflows.
-/

namespace PpcaNetwork

/-- How a piece of code ends. -/
inductive Exec (α : Type*) where
  /-- The code returns. -/
  | returns (result : α)
  /-- An access is out of bounds. -/
  | panics
  /-- The rounds of a loop are used up. -/
  | running
  deriving DecidableEq

namespace Exec

variable {α β : Type}

/-- What comes next runs only if what came before returned. -/
protected def bind (x : Exec α) (f : α → Exec β) : Exec β :=
  match x with
  | .returns a => f a
  | .panics => .panics
  | .running => .running

instance : Monad Exec where
  pure := .returns
  bind := Exec.bind

@[simp] theorem pure_eq (a : α) : (pure a : Exec α) = .returns a := rfl

@[simp] theorem returns_bind (a : α) (f : α → Exec β) : (Exec.returns a >>= f) = f a := rfl

@[simp] theorem panics_bind (f : α → Exec β) : (Exec.panics >>= f) = .panics := rfl

/-- What returns has returned at each step. -/
theorem exists_of_bind {x : Exec α} {f : α → Exec β} {b : β} (h : (x >>= f) = .returns b) :
    ∃ a, x = .returns a ∧ f a = .returns b := by
  cases x with
  | returns a => exact ⟨a, rfl, h⟩
  | panics => cases h
  | running => cases h

instance : LawfulMonad Exec :=
  LawfulMonad.mk' Exec (fun x => by cases x <;> rfl) (fun _ _ => rfl)
    (fun x _ _ => by cases x <;> rfl)

/-- `xs[i]`. -/
def index (xs : List α) (i : Nat) : Exec α :=
  match xs[i]? with
  | some a => .returns a
  | none => .panics

/-- `&xs[i..j]`. -/
def slice (xs : List α) (i j : Nat) : Exec (List α) :=
  if i ≤ j ∧ j ≤ xs.length then .returns ((xs.drop i).take (j - i)) else .panics

/-- `&xs[i..]`. -/
def sliceFrom (xs : List α) (i : Nat) : Exec (List α) :=
  if i ≤ xs.length then .returns (xs.drop i) else .panics

/-- Subtraction of unsigned numbers. -/
def sub (x y : Nat) : Exec Nat := if y ≤ x then .returns (x - y) else .panics

/-- `xs[i] = a`. -/
def set (xs : List α) (i : Nat) (a : α) : Exec (List α) :=
  if i < xs.length then .returns (xs.set i a) else .panics

/-- `xs[i..j].copy_from_slice(ys)`, where the lengths must agree. -/
def copyInto (xs : List α) (i j : Nat) (ys : List α) : Exec (List α) :=
  if i ≤ j ∧ j ≤ xs.length ∧ ys.length = j - i then
    .returns (xs.take i ++ ys ++ xs.drop (i + ys.length))
  else .panics

/-- A number that has to stay below a bound. -/
def fits (bound n : Nat) : Exec Nat := if n < bound then .returns n else .panics

/-- `x + y` on `u32`. -/
def add32 (x y : UInt32) : Exec UInt32 :=
  if x.toNat + y.toNat < 2 ^ 32 then .returns (x + y) else .panics

/-! ## Within bounds -/

theorem index_eq {xs : List α} {i : Nat} (h : i < xs.length) : index xs i = .returns xs[i] := by
  rw [index, List.getElem?_eq_getElem h]

theorem slice_eq {xs : List α} {i n : Nat} (h : i + n ≤ xs.length) :
    slice xs i (i + n) = .returns ((xs.drop i).take n) := by
  rw [slice, if_pos ⟨Nat.le_add_right i n, h⟩, Nat.add_sub_cancel_left]

theorem sliceFrom_eq {xs : List α} {i : Nat} (h : i ≤ xs.length) :
    sliceFrom xs i = .returns (xs.drop i) := if_pos h

theorem sub_eq {x y : Nat} (h : y ≤ x) : sub x y = .returns (x - y) := if_pos h

theorem set_eq {xs : List α} {i : Nat} (h : i < xs.length) (a : α) :
    set xs i a = .returns (xs.set i a) := if_pos h

theorem copyInto_eq {xs ys : List α} {i j : Nat} (hj : i + ys.length = j) (h : j ≤ xs.length) :
    copyInto xs i j ys = .returns (xs.take i ++ ys ++ xs.drop (i + ys.length)) :=
  if_pos ⟨by omega, h, by omega⟩

theorem fits_eq {bound n : Nat} (h : n < bound) : fits bound n = .returns n := if_pos h

theorem add32_eq {x y : UInt32} (h : x.toNat + y.toNat < 2 ^ 32) :
    add32 x y = .returns (x + y) := if_pos h

/-- An access within a slice. -/
theorem index_drop_take {xs : List α} {start n i : Nat} (h : start + n ≤ xs.length) (hi : i < n) :
    index ((xs.drop start).take n) i = .returns (xs.get ⟨start + i, by omega⟩) := by
  rw [index_eq (by rw [List.length_take, List.length_drop]; omega), List.getElem_take,
    List.getElem_drop, List.get_eq_getElem]

end Exec
end PpcaNetwork
