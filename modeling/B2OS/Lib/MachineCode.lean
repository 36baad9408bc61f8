import B2OS.Lib.BusProg
import Mathlib.Algebra.BigOperators.Group.Finset.Basic
import Mathlib.Data.Set.Function

/-!
# A Logic for Machine Code

Machine code is proved here against memory of the plainest kind: a part `W` that can be written,
and a rest that cannot (`Bus.stored`). A bus with more behind it, such as devices that a read
disturbs, behaves as storage for a program that reads inside some `R` and writes inside `W`.

A step of a machine has a price, taken from any additive monoid. `Reaches` adds the prices up
along the steps, and `Triple` is a rule about it with a pre- and a postcondition.

## Main results

* `BusProg.exec_storedOn`: a program that stays inside storage runs on the bus as it runs on
  storage.
* `Triple.seq`, `Triple.turns`: the rules of sequences and of loops.
-/

universe u v

/-! ### Storage behind a bus -/

/-- Storage of which the part `W` can be written; what is outside of it reads as `rom`. -/
def Bus.stored {α β : Type} [DecidableEq α] (W : Set α) [DecidablePred (· ∈ W)] (rom : α → β) :
    Bus α β (α → β) where
  read a ρ := (if a ∈ W then ρ a else rom a, ρ)
  write a v ρ := if a ∈ W then Function.update ρ a v else ρ

section Stored

variable {α β : Type} [DecidableEq α] {W : Set α} [DecidablePred (· ∈ W)] {rom ρ : α → β} {a : α}

theorem Bus.stored_read_of_mem (h : a ∈ W) : (Bus.stored W rom).read a ρ = (ρ a, ρ) :=
  congrArg (·, ρ) (if_pos h)

theorem Bus.stored_read_of_notMem (h : a ∉ W) : (Bus.stored W rom).read a ρ = (rom a, ρ) :=
  congrArg (·, ρ) (if_neg h)

theorem Bus.stored_write_of_mem (v : β) (h : a ∈ W) :
    (Bus.stored W rom).write a v ρ = Function.update ρ a v :=
  if_pos h

end Stored

/-- On `R` the bus **reads as storage** and on `W` it writes as storage, seen through `cell`: a
read has no effect, and a write changes the addressed cell only. -/
structure Bus.StoredOn {α β : Type} {σ : Type u} (bus : Bus α β σ) (R W : Set α)
    (cell : σ → α → β) : Prop where
  read : ∀ a ∈ R, ∀ s, bus.read a s = (cell s a, s)
  write_self : ∀ a ∈ W, ∀ v s, cell (bus.write a v s) a = v
  write_other : ∀ a ∈ W, ∀ v s, ∀ b ∈ R, b ≠ a → cell (bus.write a v s) b = cell s b

/-- The access reads inside `R` or writes inside `W`. -/
def Access.Within {α β : Type} (R W : Set α) : Access α β → Prop
  | .read a _ => a ∈ R
  | .write a _ => a ∈ W

/-- On `R` the cells of the bus hold what the storage holds. -/
def Bus.Agrees {α β : Type} {σ : Type u} (R W : Set α) [DecidablePred (· ∈ W)] (rom : α → β)
    (cell : σ → α → β) (s : σ) (ρ : α → β) : Prop :=
  ∀ a ∈ R, cell s a = if a ∈ W then ρ a else rom a

namespace BusProg

variable {α β ε γ : Type} {σ : Type u} [DecidableEq α] {R W : Set α} [DecidablePred (· ∈ W)]
  {rom : α → β} {bus : Bus α β σ} {cell : σ → α → β}

/-- **A program that stays inside storage runs on the bus as it runs on storage.** What the
writes inside `W` keep of the rest of the bus, the program keeps. -/
theorem exec_storedOn (h : bus.StoredOn R W cell) {I : σ → Prop}
    (hI : ∀ a ∈ W, ∀ v s, I s → I (bus.write a v s)) (p : BusProg α β ε γ) {s : σ} {ρ : α → β}
    (hs : Bus.Agrees R W rom cell s ρ) (hrest : I s)
    (hacc : ∀ e ∈ (p.exec (Bus.stored W rom) ρ).accesses, e.Within R W) :
    (p.exec bus s).val = (p.exec (Bus.stored W rom) ρ).val ∧
      (p.exec bus s).notes = (p.exec (Bus.stored W rom) ρ).notes ∧
      Bus.Agrees R W rom cell (p.exec bus s).state (p.exec (Bus.stored W rom) ρ).state ∧
      I (p.exec bus s).state := by
  induction p generalizing s ρ with
  | ret c => exact ⟨rfl, rfl, hs, hrest⟩
  | read a k ih =>
      have ha : a ∈ R := hacc _ List.mem_cons_self
      have hval : cell s a = ((Bus.stored W rom).read a ρ).1 := hs a ha
      simp only [exec_read, h.read a ha s, hval]
      exact ih _ hs hrest fun e he => hacc e (List.mem_cons_of_mem _ he)
  | write a v k ih =>
      have ha : a ∈ W := hacc _ List.mem_cons_self
      refine ih ?_ (hI a ha v s hrest) fun e he => hacc e (List.mem_cons_of_mem _ he)
      intro b hb
      simp only [Bus.stored, if_pos ha]
      by_cases hba : b = a
      · subst hba
        rw [h.write_self b ha v s, if_pos ha, Function.update_self]
      · rw [h.write_other a ha v s b hb hba, Function.update_of_ne hba]
        exact hs b hb
  | note e k ih =>
      obtain ⟨hval, hnotes, hagrees, hkept⟩ := ih hs hrest hacc
      exact ⟨hval, congrArg (e :: ·) hnotes, hagrees, hkept⟩

end BusProg

/-! ### Steps with a price -/

section Reaches

variable {τ : Type u} {κ : Type v} [AddCommMonoid κ]

/-- From `x` some number of steps, which cost `k` together, **reach** `y`. -/
inductive Reaches (step : τ → κ → τ → Prop) : τ → κ → τ → Prop
  | refl (x : τ) : Reaches step x 0 x
  | head {x y z : τ} {k l : κ} (first : step x k y) (rest : Reaches step y l z) :
      Reaches step x (k + l) z

/-- From `P` the steps reach `Q`, at the price `k`. -/
def Triple (step : τ → κ → τ → Prop) (P : τ → Prop) (k : κ) (Q : τ → Prop) : Prop :=
  ∀ x, P x → ∃ y, Reaches step x k y ∧ Q y

variable {step : τ → κ → τ → Prop} {x y z : τ} {k l : κ}

theorem Reaches.priced (h : Reaches step x k y) (hk : k = l) : Reaches step x l y :=
  hk ▸ h

theorem Reaches.single (h : step x k y) : Reaches step x k y := by
  have hreaches := Reaches.head h (.refl y)
  rwa [add_zero] at hreaches

theorem Reaches.trans (h : Reaches step x k y) (h' : Reaches step y l z) :
    Reaches step x (k + l) z := by
  induction h with
  | refl x => rwa [zero_add]
  | head first _ ih =>
      rw [add_assoc]
      exact .head first (ih h')

variable {P P' Q Q' : τ → Prop}

theorem Triple.priced (h : Triple step P k Q) (hk : k = l) : Triple step P l Q :=
  hk ▸ h

theorem Triple.conseq (h : Triple step P k Q) (hP : ∀ x, P' x → P x) (hQ : ∀ x, Q x → Q' x) :
    Triple step P' k Q' := by
  intro x hx
  obtain ⟨y, hreaches, hy⟩ := h x (hP x hx)
  exact ⟨y, hreaches, hQ y hy⟩

theorem Triple.seq {M : τ → Prop} (h : Triple step P k M) (h' : Triple step M l Q) :
    Triple step P (k + l) Q := by
  intro x hx
  obtain ⟨y, hfirst, hy⟩ := h x hx
  obtain ⟨z, hrest, hz⟩ := h' y hy
  exact ⟨z, hfirst.trans hrest, hz⟩

/-- `n` turns of a loop, turn `i` of which leads from `I i` to `I (i + 1)`. -/
theorem Triple.turns {I : ℕ → τ → Prop} {k : ℕ → κ} (n : ℕ)
    (h : ∀ i < n, Triple step (I i) (k i) (I (i + 1))) :
    Triple step (I 0) (∑ i ∈ Finset.range n, k i) (I n) := by
  induction n with
  | zero => exact fun x hx => ⟨x, .refl x, hx⟩
  | succ n ih =>
      rw [Finset.sum_range_succ]
      exact (ih fun i hi => h i (Nat.lt_succ_of_lt hi)).seq (h n (Nat.lt_succ_self n))

end Reaches
