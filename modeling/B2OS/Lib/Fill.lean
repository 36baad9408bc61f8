import B2OS.Lib.Run
import Mathlib.Data.Set.Basic

/-!
# Filling Cells

A program that stores the value `v i` into the cell `cell i`, for each index `i` of a set, and into
no other cell. Different indices may have the same cell, as long as their values agree; then it does
not matter in which order the program goes through them.

## Main results

* `Fills.union`: one program behind another.
* `fills_forUpTo`: the rule of a counted loop.
* `Fills.unique`: the cells and their values determine what is filled.
* `Fills.eq_iff`: filling changes nothing exactly when the values are there already.
-/

universe u v w

namespace Fill

variable {ι : Type u} {κ : Type v} {β : Type w}

/-- The cells of a set of indices hold their values, and all others are the same. -/
structure Fills (cell : ι → κ) (v : ι → β) (S : Set ι) (m m' : κ → β) : Prop where
  stored : ∀ i ∈ S, m' (cell i) = v i
  kept : ∀ a, (∀ i ∈ S, cell i ≠ a) → m' a = m a

/-- Indices with the same cell have the same value. -/
def Agree (cell : ι → κ) (v : ι → β) (S : Set ι) : Prop :=
  ∀ i ∈ S, ∀ j ∈ S, cell i = cell j → v i = v j

variable {cell : ι → κ} {v : ι → β} {S T : Set ι} {m m' m'' : κ → β}

theorem Agree.mono (h : Agree cell v T) (hST : S ⊆ T) : Agree cell v S := fun i hi j hj =>
  h i (hST hi) j (hST hj)

theorem Fills.empty (m : κ → β) : Fills cell v ∅ m m :=
  ⟨fun _ hi => absurd hi (Set.notMem_empty _), fun _ _ => rfl⟩

/-- One program behind another. -/
theorem Fills.union (h : Fills cell v S m m') (h' : Fills cell v T m' m'')
    (hagree : Agree cell v (S ∪ T)) : Fills cell v (S ∪ T) m m'' where
  stored := by
    rintro i (hi | hi)
    · by_cases hover : ∃ j ∈ T, cell j = cell i
      · obtain ⟨j, hj, hcell⟩ := hover
        rw [← hcell, h'.stored j hj]
        exact hagree j (Or.inr hj) i (Or.inl hi) hcell
      · rw [h'.kept (cell i) fun j hj hcell => hover ⟨j, hj, hcell⟩]
        exact h.stored i hi
    · exact h'.stored i hi
  kept := fun a ha =>
    (h'.kept a fun i hi => ha i (Or.inr hi)).trans (h.kept a fun i hi => ha i (Or.inl hi))

/-- A counted loop fills what its turns fill. -/
theorem fills_forUpTo {body : ℕ → (κ → β) → κ → β} {T : ℕ → Set ι} {n : ℕ}
    (hbody : ∀ i < n, ∀ m, Fills cell v (T i) m (body i m))
    (hagree : Agree cell v {j | ∃ i < n, j ∈ T i}) (m : κ → β) :
    Fills cell v {j | ∃ i < n, j ∈ T i} m (forUpTo body n m) := by
  induction n with
  | zero =>
      have hempty : {j | ∃ i < 0, j ∈ T i} = (∅ : Set ι) := by
        ext j
        simp
      rw [hempty]
      exact Fills.empty m
  | succ n ih =>
      have hsplit : {j | ∃ i < n + 1, j ∈ T i} = {j | ∃ i < n, j ∈ T i} ∪ T n := by
        ext j
        simp only [Set.mem_ofPred_eq, Set.mem_union, Nat.lt_succ_iff_lt_or_eq]
        constructor
        · rintro ⟨i, hi | rfl, hj⟩
          · exact Or.inl ⟨i, hi, hj⟩
          · exact Or.inr hj
        · rintro (⟨i, hi, hj⟩ | hj)
          · exact ⟨i, Or.inl hi, hj⟩
          · exact ⟨n, Or.inr rfl, hj⟩
      rw [hsplit] at hagree ⊢
      have hfirst := ih (fun i hi => hbody i (by omega)) (hagree.mono Set.subset_union_left)
      exact hfirst.union (hbody n (Nat.lt_succ_self n) _) hagree

/-- The cells and their values determine the memory. -/
theorem Fills.unique (h : Fills cell v S m m') (h' : Fills cell v S m m'') : m' = m'' := by
  funext a
  by_cases hin : ∃ i ∈ S, cell i = a
  · obtain ⟨i, hi, rfl⟩ := hin
    rw [h.stored i hi, h'.stored i hi]
  · have hout : ∀ i ∈ S, cell i ≠ a := fun i hi hcell => hin ⟨i, hi, hcell⟩
    rw [h.kept a hout, h'.kept a hout]

/-- Filling changes nothing exactly when the values are there already. -/
theorem Fills.eq_iff (h : Fills cell v S m m') : m' = m ↔ ∀ i ∈ S, m (cell i) = v i := by
  constructor
  · rintro rfl
    exact h.stored
  · intro hthere
    exact h.unique ⟨hthere, fun _ _ => rfl⟩

/-- What is at a cell behind a program. -/
theorem Fills.apply_eq_iff (h : Fills cell v S m m') (a : κ) (b : β) :
    m' a = b ↔ (∀ i ∈ S, cell i = a → v i = b) ∧ ((∀ i ∈ S, cell i ≠ a) → m a = b) := by
  by_cases hin : ∃ i ∈ S, cell i = a
  · obtain ⟨i, hi, rfl⟩ := hin
    rw [h.stored i hi]
    constructor
    · rintro rfl
      refine ⟨fun j hj hcell => ?_, fun hout => absurd rfl (hout i hi)⟩
      rw [← h.stored j hj, hcell, h.stored i hi]
    · rintro ⟨hvalue, -⟩
      exact hvalue i hi rfl
  · have hout : ∀ i ∈ S, cell i ≠ a := fun i hi hcell => hin ⟨i, hi, hcell⟩
    rw [h.kept a hout]
    exact ⟨fun heq => ⟨fun i hi hcell => absurd hcell (hout i hi), fun _ => heq⟩,
      fun hvalue => hvalue.2 hout⟩

end Fill
