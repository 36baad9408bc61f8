import Mathlib.Data.BitVec
import Mathlib.Logic.Function.Basic
import Mathlib.Tactic.IntervalCases

/-!
# Byte Memory with Words and Records

A memory of bytes with 32-bit addresses, little-endian words in it, and records of three
words and a flag, which is what the block headers of a linked-list allocator are.

What a program changes is bounded by `ChangedOnly m m' lo hi`: outside the addresses from
`lo` to `hi` the two memories agree. Words and records that lie outside are unchanged.

## Main results

* `load32_store32`, `ChangedOnly.store32`: a word store and its frame.
* `record_setWord0` and its companions: what setting one field does to a record.
* `ChangedOnly.record_eq`: the frame rule for records.
* `record_setWord0_of_apart` and its companions: setting a field of one record leaves the
  records apart from it alone.
* `ChangedOnly.setWord0` and its companions: setting fields of records inside a range changes
  that range only.
-/

namespace ByteMemory

/-- A 32-bit address. -/
abbrev Addr := BitVec 32

/-- A memory of bytes. -/
abbrev Memory := Addr → BitVec 8

/-- The little-endian word at an address. -/
def load32 (m : Memory) (a : Addr) : BitVec 32 :=
  BitVec.ofNat 32 ((m a).toNat + 2 ^ 8 * (m (a + 1)).toNat + 2 ^ 16 * (m (a + 2)).toNat +
    2 ^ 24 * (m (a + 3)).toNat)

def store8 (m : Memory) (a : Addr) (v : BitVec 8) : Memory :=
  fun x => if x = a then v else m x

def store16 (m : Memory) (a : Addr) (v : BitVec 16) : Memory :=
  store8 (store8 m a (BitVec.ofNat 8 v.toNat)) (a + 1) (BitVec.ofNat 8 (v.toNat / 2 ^ 8))

def store32 (m : Memory) (a : Addr) (v : BitVec 32) : Memory :=
  store8 (store8 (store8 (store8 m a (BitVec.ofNat 8 v.toNat))
    (a + 1) (BitVec.ofNat 8 (v.toNat / 2 ^ 8)))
    (a + 2) (BitVec.ofNat 8 (v.toNat / 2 ^ 16)))
    (a + 3) (BitVec.ofNat 8 (v.toNat / 2 ^ 24))

/-! ### Words -/

@[simp] theorem store8_self (m : Memory) (a : Addr) (v : BitVec 8) : store8 m a v a = v :=
  if_pos rfl

theorem store8_of_ne {m : Memory} {a x : Addr} {v : BitVec 8} (h : x ≠ a) :
    store8 m a v x = m x := if_neg h

/-- A word reads back what was stored. -/
theorem load32_store32 (m : Memory) (a : Addr) (v : BitVec 32) :
    load32 (store32 m a v) a = v := by
  have h01 : a ≠ a + 1 := by simp
  have h02 : a ≠ a + 2 := by simp
  have h03 : a ≠ a + 3 := by simp
  have h12 : a + 1 ≠ a + 2 := by simp
  have h13 : a + 1 ≠ a + 3 := by simp
  have h23 : a + 2 ≠ a + 3 := by simp
  apply BitVec.eq_of_toNat_eq
  have hv := v.isLt
  rw [load32, store32, store8_self, store8_of_ne h23, store8_self, store8_of_ne h13,
    store8_of_ne h12, store8_self, store8_of_ne h03, store8_of_ne h02, store8_of_ne h01,
    store8_self]
  simp only [BitVec.toNat_ofNat]
  omega

/-! ### Frames -/

/-- The memories differ in the addresses from `lo` to `hi` only. -/
def ChangedOnly (m m' : Memory) (lo hi : ℕ) : Prop :=
  ∀ x : Addr, x.toNat < lo ∨ hi ≤ x.toNat → m' x = m x

theorem ChangedOnly.refl (m : Memory) (lo hi : ℕ) : ChangedOnly m m lo hi :=
  fun _ _ => rfl

theorem ChangedOnly.trans {m m' m'' : Memory} {lo hi : ℕ} (h : ChangedOnly m m' lo hi)
    (h' : ChangedOnly m' m'' lo hi) : ChangedOnly m m'' lo hi :=
  fun x hx => (h' x hx).trans (h x hx)

theorem ChangedOnly.mono {m m' : Memory} {lo hi lo' hi' : ℕ} (h : ChangedOnly m m' lo hi)
    (hlo : lo' ≤ lo) (hhi : hi ≤ hi') : ChangedOnly m m' lo' hi' :=
  fun x hx => h x (by omega)

theorem ChangedOnly.store8 (m : Memory) (a : Addr) (v : BitVec 8) :
    ChangedOnly m (store8 m a v) a.toNat (a.toNat + 1) := by
  intro x hx
  refine store8_of_ne ?_
  rintro rfl
  omega

theorem toNat_add_lt {a : Addr} {n k : ℕ} (ha : a.toNat + n ≤ 2 ^ 32) (hk : k < n) :
    (a + BitVec.ofNat 32 k).toNat = a.toNat + k := by
  rw [BitVec.toNat_add, BitVec.toNat_ofNat]
  omega

/-- The addresses of the bytes of a word. -/
theorem toNat_bytes {a : Addr} (ha : a.toNat + 4 ≤ 2 ^ 32) :
    (a + 1).toNat = a.toNat + 1 ∧ (a + 2).toNat = a.toNat + 2 ∧
      (a + 3).toNat = a.toNat + 3 :=
  ⟨toNat_add_lt (k := 1) ha (by omega), toNat_add_lt (k := 2) ha (by omega),
    toNat_add_lt (k := 3) ha (by omega)⟩

theorem ChangedOnly.store32 (m : Memory) {a : Addr} (ha : a.toNat + 4 ≤ 2 ^ 32)
    (v : BitVec 32) : ChangedOnly m (store32 m a v) a.toNat (a.toNat + 4) := by
  obtain ⟨h1, h2, h3⟩ := toNat_bytes ha
  have hstore : ∀ (m : Memory) (b : Addr) (w : BitVec 8),
      a.toNat ≤ b.toNat ∧ b.toNat + 1 ≤ a.toNat + 4 →
        ChangedOnly m (ByteMemory.store8 m b w) a.toNat (a.toNat + 4) :=
    fun m b w hb => (ChangedOnly.store8 m b w).mono hb.1 hb.2
  exact (((hstore _ _ _ (by omega)).trans (hstore _ _ _ (by omega))).trans
    (hstore _ _ _ (by omega))).trans (hstore _ _ _ (by omega))

/-- A word outside the changed addresses is unchanged. -/
theorem ChangedOnly.load32_eq {m m' : Memory} {lo hi : ℕ} (h : ChangedOnly m m' lo hi)
    {a : Addr} (ha : a.toNat + 4 ≤ 2 ^ 32) (hout : a.toNat + 4 ≤ lo ∨ hi ≤ a.toNat) :
    load32 m' a = load32 m a := by
  obtain ⟨h1, h2, h3⟩ := toNat_bytes ha
  rw [load32, load32, h a (by omega), h (a + 1) (by omega), h (a + 2) (by omega),
    h (a + 3) (by omega)]

/-! ### Records of three words and a flag -/

/-- The content of a record. -/
structure Record where
  word0 : BitVec 32
  word1 : BitVec 32
  word2 : BitVec 32
  flag : Bool
deriving DecidableEq, Repr

/-- The size of a record with its padding. -/
def recordSize : ℕ := 16

/-- The addresses of the fields of a record. -/
theorem toNat_fields {p : Addr} (hp : p.toNat + 16 ≤ 2 ^ 32) :
    (p + 4).toNat = p.toNat + 4 ∧ (p + 8).toNat = p.toNat + 8 ∧
      (p + 12).toNat = p.toNat + 12 :=
  ⟨toNat_add_lt (k := 4) hp (by omega), toNat_add_lt (k := 8) hp (by omega),
    toNat_add_lt (k := 12) hp (by omega)⟩

/-- The address of the record in front of a pointer. -/
theorem toNat_sub_record {ptr size : Addr} {a : ℕ} (hsize : size.toNat = recordSize)
    (hptr : ptr.toNat = a + recordSize) : (ptr - size).toNat = a := by
  have hlt := ptr.isLt
  rw [recordSize] at hsize hptr
  rw [BitVec.toNat_sub, hsize]
  omega

/-- The record at an address. -/
def record (m : Memory) (p : Addr) : Record where
  word0 := load32 m p
  word1 := load32 m (p + 4)
  word2 := load32 m (p + 8)
  flag := m (p + 12) != 0

def setWord0 (m : Memory) (p : Addr) (v : BitVec 32) : Memory := store32 m p v
def setWord1 (m : Memory) (p : Addr) (v : BitVec 32) : Memory := store32 m (p + 4) v
def setWord2 (m : Memory) (p : Addr) (v : BitVec 32) : Memory := store32 m (p + 8) v
def setFlag (m : Memory) (p : Addr) (b : Bool) : Memory :=
  store8 m (p + 12) (if b then 1 else 0)

/-- A record outside the changed addresses is unchanged. -/
theorem ChangedOnly.record_eq {m m' : Memory} {lo hi : ℕ} (h : ChangedOnly m m' lo hi)
    {p : Addr} (hp : p.toNat + recordSize ≤ 2 ^ 32)
    (hout : p.toNat + recordSize ≤ lo ∨ hi ≤ p.toNat) : record m' p = record m p := by
  rw [recordSize] at hp hout
  obtain ⟨h4, h8, h12⟩ := toNat_fields hp
  rw [record, record, h.load32_eq (by omega) (by omega),
    h.load32_eq (by omega) (by omega), h.load32_eq (by omega) (by omega),
    h (p + 12) (by omega)]

section Fields

variable {m : Memory} {p : Addr} (hp : p.toNat + recordSize ≤ 2 ^ 32)
include hp

theorem changedOnly_setWord0 (v : BitVec 32) :
    ChangedOnly m (setWord0 m p v) p.toNat (p.toNat + 4) :=
  ChangedOnly.store32 m (by rw [recordSize] at hp; omega) v

theorem changedOnly_setWord1 (v : BitVec 32) :
    ChangedOnly m (setWord1 m p v) (p.toNat + 4) (p.toNat + 8) := by
  rw [recordSize] at hp
  obtain ⟨h4, h8, h12⟩ := toNat_fields hp
  have hstore := ChangedOnly.store32 m (a := p + 4) (by omega) v
  rwa [h4] at hstore

theorem changedOnly_setWord2 (v : BitVec 32) :
    ChangedOnly m (setWord2 m p v) (p.toNat + 8) (p.toNat + 12) := by
  rw [recordSize] at hp
  obtain ⟨h4, h8, h12⟩ := toNat_fields hp
  have hstore := ChangedOnly.store32 m (a := p + 8) (by omega) v
  rwa [h8] at hstore

theorem changedOnly_setFlag (b : Bool) :
    ChangedOnly m (setFlag m p b) (p.toNat + 12) (p.toNat + 13) := by
  rw [recordSize] at hp
  obtain ⟨h4, h8, h12⟩ := toNat_fields hp
  have hstore := ChangedOnly.store8 m (p + 12) (if b then 1 else 0)
  rwa [h12] at hstore

theorem record_setWord0 (v : BitVec 32) :
    record (setWord0 m p v) p = { record m p with word0 := v } := by
  have hch := changedOnly_setWord0 (m := m) hp v
  rw [recordSize] at hp
  obtain ⟨h4, h8, h12⟩ := toNat_fields hp
  rw [record, hch.load32_eq (a := p + 4) (by omega) (by omega),
    hch.load32_eq (a := p + 8) (by omega) (by omega), hch (p + 12) (by omega), setWord0,
    load32_store32]
  rfl

theorem record_setWord1 (v : BitVec 32) :
    record (setWord1 m p v) p = { record m p with word1 := v } := by
  have hch := changedOnly_setWord1 (m := m) hp v
  rw [recordSize] at hp
  obtain ⟨h4, h8, h12⟩ := toNat_fields hp
  rw [record, hch.load32_eq (a := p) (by omega) (by omega),
    hch.load32_eq (a := p + 8) (by omega) (by omega), hch (p + 12) (by omega), setWord1,
    load32_store32]
  rfl

theorem record_setWord2 (v : BitVec 32) :
    record (setWord2 m p v) p = { record m p with word2 := v } := by
  have hch := changedOnly_setWord2 (m := m) hp v
  rw [recordSize] at hp
  obtain ⟨h4, h8, h12⟩ := toNat_fields hp
  rw [record, hch.load32_eq (a := p) (by omega) (by omega),
    hch.load32_eq (a := p + 4) (by omega) (by omega), hch (p + 12) (by omega), setWord2,
    load32_store32]
  rfl

theorem record_setFlag (b : Bool) :
    record (setFlag m p b) p = { record m p with flag := b } := by
  have hch := changedOnly_setFlag (m := m) hp b
  rw [recordSize] at hp
  obtain ⟨h4, h8, h12⟩ := toNat_fields hp
  rw [record, hch.load32_eq (a := p) (by omega) (by omega),
    hch.load32_eq (a := p + 4) (by omega) (by omega),
    hch.load32_eq (a := p + 8) (by omega) (by omega), setFlag, store8_self]
  cases b <;> rfl

end Fields

section Apart

variable {m : Memory} {p q : Addr} (hp : p.toNat + recordSize ≤ 2 ^ 32)
  (hq : q.toNat + recordSize ≤ 2 ^ 32)
  (hpq : q.toNat + recordSize ≤ p.toNat ∨ p.toNat + recordSize ≤ q.toNat)
include hp hq hpq

theorem record_setWord0_of_apart (v : BitVec 32) :
    record (setWord0 m p v) q = record m q :=
  (changedOnly_setWord0 hp v).record_eq hq (by simp only [recordSize] at *; omega)

theorem record_setWord1_of_apart (v : BitVec 32) :
    record (setWord1 m p v) q = record m q :=
  (changedOnly_setWord1 hp v).record_eq hq (by simp only [recordSize] at *; omega)

theorem record_setWord2_of_apart (v : BitVec 32) :
    record (setWord2 m p v) q = record m q :=
  (changedOnly_setWord2 hp v).record_eq hq (by simp only [recordSize] at *; omega)

theorem record_setFlag_of_apart (b : Bool) : record (setFlag m p b) q = record m q :=
  (changedOnly_setFlag hp b).record_eq hq (by simp only [recordSize] at *; omega)

end Apart

/-! ### Records inside a range -/

/-- The record at `p` lies between `lo` and `hi`. -/
def Inside (p : Addr) (lo hi : ℕ) : Prop := lo ≤ p.toNat ∧ p.toNat + recordSize ≤ hi

section Inside

variable {m m' : Memory} {p : Addr} {lo hi : ℕ} (h : ChangedOnly m m' lo hi)
  (hp : Inside p lo hi) (hhi : hi ≤ 2 ^ 32)
include h hp hhi

theorem ChangedOnly.setWord0 (v : BitVec 32) : ChangedOnly m (setWord0 m' p v) lo hi := by
  obtain ⟨hlo, htop⟩ := hp
  refine h.trans ((changedOnly_setWord0 (htop.trans hhi) v).mono ?_ ?_) <;>
    simp only [recordSize] at * <;> omega

theorem ChangedOnly.setWord1 (v : BitVec 32) : ChangedOnly m (setWord1 m' p v) lo hi := by
  obtain ⟨hlo, htop⟩ := hp
  refine h.trans ((changedOnly_setWord1 (htop.trans hhi) v).mono ?_ ?_) <;>
    simp only [recordSize] at * <;> omega

theorem ChangedOnly.setWord2 (v : BitVec 32) : ChangedOnly m (setWord2 m' p v) lo hi := by
  obtain ⟨hlo, htop⟩ := hp
  refine h.trans ((changedOnly_setWord2 (htop.trans hhi) v).mono ?_ ?_) <;>
    simp only [recordSize] at * <;> omega

theorem ChangedOnly.setFlag (b : Bool) : ChangedOnly m (setFlag m' p b) lo hi := by
  obtain ⟨hlo, htop⟩ := hp
  refine h.trans ((changedOnly_setFlag (htop.trans hhi) b).mono ?_ ?_) <;>
    simp only [recordSize] at * <;> omega

end Inside

end ByteMemory
