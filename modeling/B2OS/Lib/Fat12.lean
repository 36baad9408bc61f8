import Mathlib.Data.BitVec
import Mathlib.Logic.Function.Iterate

/-!
# FAT12 Cluster Chains

A file allocation table of packed 12-bit entries: the entry of a cluster `n` is in the word at
`3n / 2`, in its lower 12 bits for an even `n` and in its upper 12 bits for an odd one. The
entry of a cluster is the next cluster of its file, so that a file is the orbit of its start
cluster.

## Main results

* `entry_lt`: an entry has 12 bits.
* `FileChain.cluster_lt_iff`: up to the end of a file, a cluster is below the end marks
  exactly if it is one of the file.
-/

namespace Fat12

/-- The entry of the cluster `n` in a table of bytes. -/
def entry (fat : ℕ → BitVec 8) (n : ℕ) : ℕ :=
  let word := 256 * (fat (3 * n / 2 + 1)).toNat + (fat (3 * n / 2)).toNat
  if n % 2 = 0 then word % 4096 else word / 16

theorem entry_lt (fat : ℕ → BitVec 8) (n : ℕ) : entry fat n < 4096 := by
  have hlow := (fat (3 * n / 2)).isLt
  have hhigh := (fat (3 * n / 2 + 1)).isLt
  rw [entry]
  split_ifs <;> omega

/-- Tables that agree up to an entry. -/
theorem entry_congr {fat fat' : ℕ → BitVec 8} {n : ℕ}
    (h : ∀ k ≤ 3 * n / 2 + 1, fat' k = fat k) : entry fat' n = entry fat n := by
  rw [entry, entry, h _ (by omega), h _ (by omega)]

/-- The `i`-th cluster of the file that starts at `start`. -/
def cluster (fat : ℕ → BitVec 8) (start : ℕ) (i : ℕ) : ℕ := (entry fat)^[i] start

@[simp] theorem cluster_zero (fat : ℕ → BitVec 8) (start : ℕ) : cluster fat start 0 = start :=
  rfl

theorem cluster_succ (fat : ℕ → BitVec 8) (start i : ℕ) :
    cluster fat start (i + 1) = entry fat (cluster fat start i) :=
  Function.iterate_succ_apply' ..

/-- A file of `length` clusters: they are all data clusters, and the entry of the last one is
an end mark. No cluster comes twice, since a cycle has no end. -/
structure FileChain (fat : ℕ → BitVec 8) (start length : ℕ) : Prop where
  pos : 0 < length
  data : ∀ i < length, 2 ≤ cluster fat start i ∧ cluster fat start i ≤ 0xFEF
  ends : 0xFF0 ≤ cluster fat start length

theorem FileChain.cluster_lt_iff {fat : ℕ → BitVec 8} {start length i : ℕ}
    (h : FileChain fat start length) (hi : i ≤ length) :
    cluster fat start i < 0xFF0 ↔ i < length := by
  constructor
  · intro hlt
    refine lt_of_le_of_ne hi ?_
    rintro rfl
    exact absurd h.ends (by omega)
  · intro hlt
    have hdata := h.data i hlt
    omega

end Fat12
