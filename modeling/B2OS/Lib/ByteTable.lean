import Mathlib.Data.List.Basic

/-!
# Tables Keyed by Bit Vectors

A table that is searched by a bit vector, entry by entry. Comparing the keys as numbers finds
the same entry, and evaluates faster: a statement about a whole table is decided through
`findKey`.

## Main results

* `find?_eq_findKey`, `lookup_eq_findKey`: the searches of the library are `findKey`.
* `findKey_mem`: what is found is an entry of the table.
-/

universe u

namespace ByteTable

variable {α : Type u} {w : ℕ}

/-- The first entry whose key is the number `n`. -/
def findKey (key : α → BitVec w) (n : ℕ) : List α → Option α
  | [] => none
  | a :: l => bif Nat.beq (key a).toNat n then some a else findKey key n l

theorem beq_toNat (a b : BitVec w) : Nat.beq a.toNat b.toNat = (a == b) := by
  by_cases h : a = b
  · rw [h, Nat.beq_refl, beq_self_eq_true]
  · have hne : Nat.beq a.toNat b.toNat ≠ true :=
      fun hbeq => h (BitVec.eq_of_toNat_eq (Nat.eq_of_beq_eq_true hbeq))
    rw [beq_false_of_ne h, eq_false_of_ne_true hne]

theorem find?_eq_findKey (key : α → BitVec w) (k : BitVec w) (l : List α) :
    (l.find? fun a => key a == k) = findKey key k.toNat l := by
  induction l with
  | nil => rfl
  | cons a l ih =>
      rw [List.find?_cons, findKey, beq_toNat, ih]
      cases key a == k <;> rfl

theorem lookup_eq_findKey (k : BitVec w) (l : List (BitVec w × α)) :
    l.lookup k = (findKey Prod.fst k.toNat l).map Prod.snd := by
  induction l with
  | nil => rfl
  | cons a l ih =>
      rw [List.lookup_cons, findKey, beq_toNat, ih, BEq.comm (a := k)]
      cases a.1 == k <;> rfl

theorem findKey_mem {key : α → BitVec w} {k : BitVec w} {a : α} {l : List α}
    (h : findKey key k.toNat l = some a) : a ∈ l ∧ key a = k := by
  rw [← find?_eq_findKey] at h
  exact ⟨List.mem_of_find?_eq_some h, by simpa using List.find?_some h⟩

end ByteTable
