import Mathlib.Data.BitVec
import Mathlib.Data.Set.BooleanAlgebra
import Mathlib.Logic.Function.Basic
import Mathlib.Order.CompletePartialOrder

/-!
# A Processor in Real Mode

The registers of a 16-bit program, a memory by linear address, and the instructions that
such a program is made of, as functions of the state. The stack is 16 bits wide: only the
lower half `sp` of ESP moves. A call pushes its return address, and the routine returns only
when it finds this address on top of the stack again.

The flags are left to the conditions of the jumps; only the carry, in which an interrupt
reports an error, is part of the state.

## Main results

* `word_storeWord`, `word_storeWord_of_apart`: words that are stored and read back.
* `State.word_pushAll`: the words that are pushed one after the other.
* `State.call_eq_some`: a routine that leaves the return address on top of the stack returns.
-/

namespace RealMode

abbrev Byte := BitVec 8

abbrev Word := BitVec 16

/-- The memory, by linear address. -/
abbrev Memory := ℕ → Byte

/-! ### Bytes and words -/

def low (v : Word) : Byte := v.setWidth 8

def high (v : Word) : Byte := v.extractLsb' 8 8

/-- A word with another lower byte. -/
def setLow (v : Word) (b : Byte) : Word := high v ++ b

/-- A word with another higher byte. -/
def setHigh (v : Word) (b : Byte) : Word := b ++ low v

theorem toNat_append (h l : Byte) : (h ++ l).toNat = 256 * h.toNat + l.toNat := by
  have hl := l.isLt
  rw [BitVec.toNat_append, ← Nat.shiftLeft_add_eq_or_of_lt hl, Nat.shiftLeft_eq]
  omega

theorem toNat_low (v : Word) : (low v).toNat = v.toNat % 256 := by
  rw [low, BitVec.toNat_setWidth]

theorem toNat_high (v : Word) : (high v).toNat = v.toNat / 256 := by
  have hv := v.isLt
  rw [high, BitVec.extractLsb'_toNat, Nat.shiftRight_eq_div_pow]
  omega

@[simp] theorem low_append (h l : Byte) : low (h ++ l) = l := by
  have hl := l.isLt
  apply BitVec.eq_of_toNat_eq
  rw [toNat_low, toNat_append]
  omega

@[simp] theorem high_append (h l : Byte) : high (h ++ l) = h := by
  have hl := l.isLt
  apply BitVec.eq_of_toNat_eq
  rw [toNat_high, toNat_append]
  omega

@[simp] theorem low_setLow (v : Word) (b : Byte) : low (setLow v b) = b := low_append _ _

@[simp] theorem high_setLow (v : Word) (b : Byte) : high (setLow v b) = high v :=
  high_append _ _

@[simp] theorem low_setHigh (v : Word) (b : Byte) : low (setHigh v b) = low v :=
  low_append _ _

@[simp] theorem high_setHigh (v : Word) (b : Byte) : high (setHigh v b) = b :=
  high_append _ _

theorem high_append_low (v : Word) : high v ++ low v = v := by
  apply BitVec.eq_of_toNat_eq
  rw [toNat_append, toNat_high, toNat_low]
  omega

/-! ### Memory -/

/-- The linear address of an offset in a segment. -/
def linear (seg off : Word) : ℕ := 16 * seg.toNat + off.toNat

@[simp] theorem linear_zero (off : Word) : linear 0 off = off.toNat := by
  rw [linear]
  simp

theorem toNat_add_one {v : Word} (h : v.toNat + 1 < 65536) : (v + 1).toNat = v.toNat + 1 :=
  BitVec.toNat_add_of_lt h

/-- The little-endian word at an address. -/
def word (mem : Memory) (a : ℕ) : Word := mem (a + 1) ++ mem a

def storeByte (mem : Memory) (a : ℕ) (b : Byte) : Memory := Function.update mem a b

def storeWord (mem : Memory) (a : ℕ) (v : Word) : Memory :=
  storeByte (storeByte mem a (low v)) (a + 1) (high v)

@[simp] theorem storeByte_self (mem : Memory) (a : ℕ) (b : Byte) : storeByte mem a b a = b :=
  Function.update_self ..

theorem storeByte_of_ne {mem : Memory} {a x : ℕ} {b : Byte} (h : x ≠ a) :
    storeByte mem a b x = mem x := Function.update_of_ne h ..

theorem storeWord_of_ne {mem : Memory} {a x : ℕ} {v : Word} (h : x ≠ a) (h' : x ≠ a + 1) :
    storeWord mem a v x = mem x := by
  rw [storeWord, storeByte_of_ne h', storeByte_of_ne h]

/-- A word reads back what was stored. -/
@[simp] theorem word_storeWord (mem : Memory) (a : ℕ) (v : Word) :
    word (storeWord mem a v) a = v := by
  rw [word, storeWord, storeByte_self, storeByte_of_ne (by omega), storeByte_self,
    high_append_low]

/-- Memories that agree on its two bytes agree on a word. -/
theorem word_congr {mem mem' : Memory} {a : ℕ} (h : mem' a = mem a)
    (h' : mem' (a + 1) = mem (a + 1)) : word mem' a = word mem a := by
  rw [word, word, h, h']

theorem word_storeWord_of_apart {mem : Memory} {a b : ℕ} {v : Word} (h : a + 2 ≤ b ∨ b + 2 ≤ a) :
    word (storeWord mem b v) a = word mem a :=
  word_congr (storeWord_of_ne (by omega) (by omega)) (storeWord_of_ne (by omega) (by omega))

/-! ### The machine -/

/-- The registers, the carry flag and the memory. `espHigh` is the upper half of ESP. -/
structure State where
  ax : Word
  bx : Word
  cx : Word
  dx : Word
  sp : Word
  espHigh : Word
  ebp : BitVec 32
  ds : Word
  es : Word
  ss : Word
  carry : Bool
  mem : Memory

namespace State

def esp (s : State) : BitVec 32 := s.espHigh ++ s.sp

/-- `mov esp, v`. -/
def setEsp (s : State) (v : BitVec 32) : State :=
  { s with sp := v.setWidth 16, espHigh := v.extractLsb' 16 16 }

/-- The word at an offset in the data segment. -/
def wordAt (s : State) (off : Word) : Word := word s.mem (linear s.ds off)

/-- The byte at an offset in the data segment. -/
def byteAt (s : State) (off : Word) : Byte := s.mem (linear s.ds off)

/-- `mov byte [off], b`. -/
def storeByteAt (s : State) (off : Word) (b : Byte) : State :=
  { s with mem := storeByte s.mem (linear s.ds off) b }

/-- The address `[ebp - k]`, which is in the stack segment. -/
def frame (s : State) (k : BitVec 32) : ℕ := 16 * s.ss.toNat + (s.ebp - k).toNat

/-- `mov [ebp - k], v`. -/
def storeFrame (s : State) (k : BitVec 32) (v : Word) : State :=
  { s with mem := storeWord s.mem (s.frame k) v }

def push (s : State) (v : Word) : State :=
  { s with sp := s.sp - 2, mem := storeWord s.mem (linear s.ss (s.sp - 2)) v }

/-- The word on top of the stack. -/
def top (s : State) : Word := word s.mem (linear s.ss s.sp)

/-- The stack without the word on top. A `pop` is `top` and `drop`. -/
def drop (s : State) : State := { s with sp := s.sp + 2 }

/-- `push` of 32 bits. -/
def push32 (s : State) (v : BitVec 32) : State :=
  (s.push (v.extractLsb' 16 16)).push (v.setWidth 16)

/-- `mul v`: the product of AX and `v` in DX:AX. -/
def mul (s : State) (v : Word) : State :=
  { s with
    ax := BitVec.ofNat 16 (s.ax.toNat * v.toNat)
    dx := BitVec.ofNat 16 (s.ax.toNat * v.toNat / 65536) }

/-- `div v`: the quotient of DX:AX in AX, the remainder in DX; `none` is the divide error. -/
def div (s : State) (v : Word) : Option State :=
  let n := 65536 * s.dx.toNat + s.ax.toNat
  if v = 0 ∨ 65536 ≤ n / v.toNat then none
  else some { s with ax := BitVec.ofNat 16 (n / v.toNat), dx := BitVec.ofNat 16 (n % v.toNat) }

/-- A call of a routine, which ends in `ret`. A return to another address is not followed. -/
def call (s : State) (ret : Word) (routine : State → Option State) : Option State := do
  let s ← routine (s.push ret)
  if s.top = ret then some s.drop else none

/-- A routine that leaves the return address on top of the stack returns. -/
theorem call_eq_some {s t : State} {ret : Word} {routine : State → Option State}
    (h : routine (s.push ret) = some t) (htop : t.top = ret) :
    s.call ret routine = some t.drop := by
  rw [call, h, Option.bind_eq_bind, Option.bind_some, if_pos htop]

/-- A routine that returned has found its return address on top of the stack. -/
theorem call_cases {s t : State} {ret : Word} {routine : State → Option State}
    (h : s.call ret routine = some t) :
    ∃ u, routine (s.push ret) = some u ∧ u.top = ret ∧ t = u.drop := by
  rw [call, Option.bind_eq_bind, Option.bind_eq_some_iff] at h
  obtain ⟨u, hroutine, hret⟩ := h
  split_ifs at hret with htop
  exact ⟨u, hroutine, htop, (Option.some.inj hret).symm⟩

section Stack

variable {s : State}

theorem toNat_sp_push (v : Word) (h : 2 ≤ s.sp.toNat) :
    (s.push v).sp.toNat = s.sp.toNat - 2 := by
  have hsp := s.sp.isLt
  rw [push, BitVec.toNat_sub]
  simp only [BitVec.reduceToNat]
  omega

/-- A push in segment 0 changes the two bytes below the top of the stack. -/
theorem push_mem_of_apart (v : Word) (hss : s.ss = 0) (h : 2 ≤ s.sp.toNat) {a : ℕ}
    (ha : a + 2 < s.sp.toNat ∨ s.sp.toNat ≤ a) : (s.push v).mem a = s.mem a := by
  have hsp : (s.sp - 2).toNat = s.sp.toNat - 2 := toNat_sp_push v h
  rw [push]
  dsimp only
  rw [hss, linear_zero, hsp]
  exact storeWord_of_ne (by omega) (by omega)

/-- The word that is pushed. -/
@[simp] theorem top_push (s : State) (v : Word) : (s.push v).top = v := word_storeWord ..

/-- The word that is pushed, by its address in segment 0. -/
theorem word_push_self (v : Word) (hss : s.ss = 0) (h : 2 ≤ s.sp.toNat) :
    word (s.push v).mem (s.sp.toNat - 2) = v := by
  have hsp : (s.sp - 2).toNat = s.sp.toNat - 2 := toNat_sp_push v h
  have htop : word (s.push v).mem (linear s.ss (s.sp - 2)) = v := top_push s v
  rwa [hss, linear_zero, hsp] at htop

/-- Words pushed one after the other. -/
def pushAll (s : State) (l : List Word) : State := l.foldl push s

theorem pushAll_cons (s : State) (v : Word) (l : List Word) :
    s.pushAll (v :: l) = (s.push v).pushAll l := rfl

theorem toNat_sp_pushAll {l : List Word} (h : 2 * l.length ≤ s.sp.toNat) :
    (s.pushAll l).sp.toNat = s.sp.toNat - 2 * l.length := by
  induction l generalizing s with
  | nil => rfl
  | cons v l ih =>
      rw [List.length_cons] at h ⊢
      have hsp := toNat_sp_push v (s := s) (by omega)
      rw [pushAll_cons, ih (by omega), hsp]
      omega

/-- A push changes the stack pointer and the memory only. -/
theorem pushAll_eq (l : List Word) :
    s.pushAll l = { s with sp := (s.pushAll l).sp, mem := (s.pushAll l).mem } := by
  induction l generalizing s with
  | nil => rfl
  | cons v l ih => exact ih

theorem ds_pushAll (l : List Word) : (s.pushAll l).ds = s.ds := by rw [pushAll_eq]

theorem es_pushAll (l : List Word) : (s.pushAll l).es = s.es := by rw [pushAll_eq]

theorem ss_pushAll (l : List Word) : (s.pushAll l).ss = s.ss := by rw [pushAll_eq]

theorem espHigh_pushAll (l : List Word) : (s.pushAll l).espHigh = s.espHigh := by rw [pushAll_eq]

theorem ebp_pushAll (l : List Word) : (s.pushAll l).ebp = s.ebp := by rw [pushAll_eq]

theorem pushAll_mem_of_apart {l : List Word} (hss : s.ss = 0) (h : 2 * l.length ≤ s.sp.toNat)
    {a : ℕ} (ha : a + 2 * l.length < s.sp.toNat ∨ s.sp.toNat ≤ a) :
    (s.pushAll l).mem a = s.mem a := by
  induction l generalizing s with
  | nil => rfl
  | cons v l ih =>
      rw [List.length_cons] at h ha
      have hsp := toNat_sp_push v (s := s) (by omega)
      rw [pushAll_cons, ih (s := s.push v) hss (by omega) (by omega)]
      exact push_mem_of_apart v hss (by omega) (by omega)

/-- The words lie below each other. -/
theorem word_pushAll {l : List Word} (hss : s.ss = 0) (h : 2 * l.length ≤ s.sp.toNat) {i : ℕ}
    (hi : i < l.length) : word (s.pushAll l).mem (s.sp.toNat - 2 * (i + 1)) = l[i] := by
  induction l generalizing s i with
  | nil => exact absurd hi (Nat.not_lt_zero i)
  | cons v l ih =>
      rw [List.length_cons] at h hi
      have hsp := toNat_sp_push v (s := s) (by omega)
      rw [pushAll_cons]
      cases i with
      | zero =>
          have hkept : ∀ a, s.sp.toNat - 2 ≤ a →
              ((s.push v).pushAll l).mem a = (s.push v).mem a := fun a ha =>
            pushAll_mem_of_apart (s := s.push v) hss (by omega) (by omega)
          rw [Nat.zero_add, Nat.mul_one, word_congr (hkept _ (by omega)) (hkept _ (by omega))]
          exact word_push_self v hss (by omega)
      | succ i =>
          have hword := ih (s := s.push v) hss (by omega) (i := i) (by omega)
          rw [hsp, Nat.sub_sub, Nat.add_comm 2] at hword
          exact hword

theorem push_sp_add (s : State) (v : Word) : (s.push v).sp + 2 = s.sp :=
  BitVec.sub_add_cancel ..

end Stack

/-- The segments and the stack frame are the same. -/
structure SameFrame (s t : State) : Prop where
  ds : t.ds = s.ds
  es : t.es = s.es
  ss : t.ss = s.ss
  sp : t.sp = s.sp
  espHigh : t.espHigh = s.espHigh
  ebp : t.ebp = s.ebp

theorem SameFrame.trans {s t u : State} (h : SameFrame s t) (h' : SameFrame t u) :
    SameFrame s u where
  ds := h'.ds.trans h.ds
  es := h'.es.trans h.es
  ss := h'.ss.trans h.ss
  sp := h'.sp.trans h.sp
  espHigh := h'.espHigh.trans h.espHigh
  ebp := h'.ebp.trans h.ebp

/-- `pusha`. SI and DI are not part of the state. -/
def pusha (s : State) (si di : Word) : State :=
  s.pushAll [s.ax, s.cx, s.dx, s.bx, s.sp, s.ebp.setWidth 16, si, di]

/-- `popa`, which skips the word of SP, and here also those of SI and DI. -/
def popa (s : State) : State :=
  let s := s.drop.drop
  let s := { s.drop with ebp := s.ebp.extractLsb' 16 16 ++ s.top }
  let s := s.drop
  let s := { s.drop with bx := s.top }
  let s := { s.drop with dx := s.top }
  let s := { s.drop with cx := s.top }
  { s.drop with ax := s.top }

/-- The general registers come back from a stack that has been left alone. -/
theorem popa_pusha {s t : State} {si di : Word} (hss : s.ss = 0) (hroom : 16 ≤ s.sp.toNat)
    (hframe : (s.pusha si di).SameFrame t)
    (hmem : ∀ a, s.sp.toNat - 16 ≤ a → a < s.sp.toNat → t.mem a = (s.pusha si di).mem a) :
    t.popa = { t with ax := s.ax, bx := s.bx, cx := s.cx, dx := s.dx, sp := s.sp } := by
  let l : List Word := [s.ax, s.cx, s.dx, s.bx, s.sp, s.ebp.setWidth 16, si, di]
  have htss : t.ss = 0 := hframe.ss.trans ((ss_pushAll l).trans hss)
  have htsp : t.sp = s.sp - 16 := by
    rw [hframe.sp]
    simp only [pusha, pushAll, List.foldl_cons, List.foldl_nil, push, BitVec.sub_sub,
      BitVec.reduceAdd]
    rfl
  -- the words, by their distance from the top
  have hword : ∀ i (hi : i < 8),
      word t.mem (t.sp + BitVec.ofNat 16 (14 - 2 * i)).toNat = l.get ⟨i, hi⟩ := by
    intro i hi
    have hsum : (t.sp + BitVec.ofNat 16 (14 - 2 * i)).toNat = s.sp.toNat - 2 * (i + 1) := by
      rw [htsp]
      bv_omega
    rw [hsum, word_congr (hmem _ (by omega) (by omega)) (hmem _ (by omega) (by omega))]
    exact word_pushAll (l := l) hss hroom hi
  have hebp : (t.ebp.extractLsb' 16 16 ++ s.ebp.setWidth 16 : BitVec 32) = t.ebp := by
    rw [hframe.ebp, pusha, ebp_pushAll, BitVec.setWidth_eq_extractLsb' (by omega)]
    exact BitVec.extractLsb'_append_extractLsb'
  have hax := hword 0 (by omega)
  have hcx := hword 1 (by omega)
  have hdx := hword 2 (by omega)
  have hbx := hword 3 (by omega)
  have hbp := hword 5 (by omega)
  simp only [Nat.reduceMul, Nat.reduceSub] at hax hcx hdx hbx hbp
  have hback : t.sp + 16#16 = s.sp := by
    rw [htsp]
    exact BitVec.sub_add_cancel ..
  simp only [popa, drop, top, htss, linear_zero, BitVec.add_assoc, BitVec.reduceAdd]
  rw [hax, hcx, hdx, hbx, hbp, hback]
  change ({ t with
    ax := s.ax, bx := s.bx, cx := s.cx, dx := s.dx, sp := s.sp, ss := 0
    ebp := t.ebp.extractLsb' 16 16 ++ s.ebp.setWidth 16 } : State) = _
  rw [hebp]

theorem div_of_lt {s : State} {v : Word} (hdx : s.dx = 0) (hv : v ≠ 0) :
    s.div v = some { s with
      ax := BitVec.ofNat 16 (s.ax.toNat / v.toNat)
      dx := BitVec.ofNat 16 (s.ax.toNat % v.toNat) } := by
  have hlt : s.ax.toNat / v.toNat < 65536 := (Nat.div_le_self _ _).trans_lt s.ax.isLt
  have hdx' : s.dx.toNat = 0 := by rw [hdx]; rfl
  rw [div, hdx', Nat.mul_zero, Nat.zero_add, if_neg (not_or.mpr ⟨hv, by omega⟩)]

end State

end RealMode
