import B2OS.Lib.DigitChain
import B2OS.Apple2.Refine
import Mathlib.Tactic.LinearCombination

/-!
# Additions of Several Bytes

Programs for the 6502 add long numbers byte by byte from the low end: `ADC` adds two bytes
and the carry, and leaves the carry for the next bytes. This module runs `ac_Execute_ADC`
and `ac_Execute_SBC` in such chains, in binary and in decimal mode.

In decimal mode one expression corrects both digits of a byte at once. It is right for
`ac_Execute_ADC`. `ac_Execute_SBC` hands the complement of its operand to it, whose digits
are no decimal digits, and the low digit of the result is wrong every time.

## Main results

* `acExecuteADC_chain`: chains of `ac_Execute_ADC`, binary and decimal.
* `acExecuteSBC_chain_iff`: chains of `ac_Execute_SBC` are right in binary mode only.
-/

namespace B2OS

/-! ### One byte -/

/-- The word that `ac_Execute_ADC` computes, before it is cut to a byte. -/
def adcWord (D : Bool) (a v : BYTE) (C : Bool) : WORD :=
  let Result : WORD := a.setWidth 16 + v.setWidth 16 + (if C then 1 else 0)
  if D then
    Result + (((Result + 0x66) ^^^ a.setWidth 16 ^^^ v.setWidth 16) >>> 3 &&& 0x22) * 3
  else Result

/-- The byte and the carry that `ac_Execute_ADC` leaves. -/
def adcStep (D : Bool) (a v : BYTE) (C : Bool) : BYTE × Bool :=
  ((adcWord D a v C &&& 0xFF).setWidth 8, decide (adcWord D a v C &&& 0xFF00 > 0))

/-- The registers after `ac_Execute_ADC`. -/
def adcCpu (v : BYTE) (c : Cpu) : Cpu :=
  let r := adcStep c.PS.D c.A v c.PS.C
  { c with
    A := r.1
    PS := { c.PS with
      Z := r.1 == 0
      N := decide (r.1 &&& FLAG_NEGATIVE > 0)
      C := r.2
      V := ((c.A ^^^ v) &&& FLAG_NEGATIVE == 0) && ((r.1 ^^^ v) &&& FLAG_NEGATIVE != 0) } }

theorem acExecuteADC_eq (v : BYTE) (c : Cpu) : acExecuteADC v c = .ret ((), adcCpu v c) := rfl

theorem acExecuteSBC_eq (v : BYTE) (c : Cpu) :
    acExecuteSBC v c = .ret ((), adcCpu (~~~v) c) := rfl

/-- The byte and the carry of a word below `512`. -/
theorem low_and_carry {r : WORD} (h : r.toNat < 512) :
    ((r &&& 0xFF).setWidth 8).toNat + 256 * (decide (r &&& 0xFF00 > 0)).toNat = r.toNat := by
  have key : ∀ r : BitVec 9, ((r.setWidth 16 &&& 0xFF#16).setWidth 8).toNat +
      256 * (decide (r.setWidth 16 &&& 0xFF00#16 > 0#16)).toNat = r.toNat := by
    decide +kernel
  have hr : r = (BitVec.ofNat 9 r.toNat).setWidth 16 := by
    refine BitVec.eq_of_toNat_eq ?_
    rw [BitVec.toNat_setWidth, BitVec.toNat_ofNat, Nat.mod_eq_of_lt h,
      Nat.mod_eq_of_lt r.isLt]
  have hnat : (BitVec.ofNat 9 r.toNat).toNat = r.toNat := by
    rw [BitVec.toNat_ofNat, Nat.mod_eq_of_lt h]
  have hkey := key (BitVec.ofNat 9 r.toNat)
  rwa [← hr, hnat] at hkey

theorem getLsbD_eq_decide {w : ℕ} (x : BitVec w) (i : ℕ) :
    x.getLsbD i = decide (x.toNat / 2 ^ i % 2 = 1) :=
  Nat.testBit_eq_decide_div_mod_eq

/-- The correction adds 6 for bit 4 and `$60` for bit 8. -/
theorem adjust_eq (x : WORD) :
    (x >>> 3 &&& 0x22) * 3 =
      (if x.getLsbD 4 then 6 else 0) + if x.getLsbD 8 then 0x60 else 0 := by
  have hmask : (0x22 : WORD) = BitVec.twoPow 16 1 ||| BitVec.twoPow 16 5 := by decide
  rw [hmask, BitVec.and_or_distrib_left, BitVec.and_twoPow, BitVec.and_twoPow,
    BitVec.getLsbD_ushiftRight, BitVec.getLsbD_ushiftRight]
  cases x.getLsbD 4 <;> cases x.getLsbD 8 <;> decide

/-- Bit `i` of the exclusive or of a sum with its operands is the carry into that bit. -/
theorem bit_of_xor (s a v : WORD) (i : ℕ) :
    (s ^^^ a ^^^ v).getLsbD i = decide
      ((s.toNat / 2 ^ i + a.toNat / 2 ^ i + v.toNat / 2 ^ i) % 2 = 1) := by
  rw [BitVec.getLsbD_xor, BitVec.getLsbD_xor, getLsbD_eq_decide, getLsbD_eq_decide,
    getLsbD_eq_decide]
  rcases Nat.mod_two_eq_zero_or_one (s.toNat / 2 ^ i) with hs | hs <;>
  rcases Nat.mod_two_eq_zero_or_one (a.toNat / 2 ^ i) with ha | ha <;>
  rcases Nat.mod_two_eq_zero_or_one (v.toNat / 2 ^ i) with hv | hv <;>
  simp [hs, ha, hv, Nat.add_mod]

section Word

variable (a v : BYTE) (C : Bool)

theorem sum_toNat :
    (a.setWidth 16 + v.setWidth 16 + (if C then 1 else 0) : WORD).toNat =
      a.toNat + v.toNat + C.toNat := by
  have ha := a.isLt
  have hv := v.isLt
  cases C <;> simp <;> omega

/-- The binary sum. -/
theorem adcWord_binary : (adcWord false a v C).toNat = a.toNat + v.toNat + C.toNat :=
  sum_toNat a v C

/-- The corrected sum: 6 when the low digits carry, `$60` when the sum reaches `$9A`. -/
theorem adcWord_decimal (hlow : a.toNat % 16 + v.toNat % 16 + C.toNat < 26) :
    (adcWord true a v C).toNat = a.toNat + v.toNat + C.toNat +
      ((if 10 ≤ a.toNat % 16 + v.toNat % 16 + C.toNat then 6 else 0) +
        if 256 ≤ a.toNat + v.toNat + C.toNat + 0x66 ∧
          a.toNat + v.toNat + C.toNat + 0x66 < 512 then 0x60 else 0) := by
  have ha := a.isLt
  have hv := v.isLt
  have hC := Bool.toNat_le C
  have hsum := sum_toNat a v C
  have hs : ((a.setWidth 16 + v.setWidth 16 + (if C then 1 else 0) : WORD) + 0x66).toNat =
      a.toNat + v.toNat + C.toNat + 0x66 := by
    rw [BitVec.toNat_add, hsum]
    simp
    omega
  have haw : (a.setWidth 16).toNat = a.toNat := by simp; omega
  have hvw : (v.setWidth 16).toNat = v.toNat := by simp; omega
  have hbit4 : ((((a.setWidth 16 + v.setWidth 16 + (if C then 1 else 0) : WORD) + 0x66) ^^^
      a.setWidth 16 ^^^ v.setWidth 16).getLsbD 4) =
        decide (10 ≤ a.toNat % 16 + v.toNat % 16 + C.toNat) := by
    rw [bit_of_xor, hs, haw, hvw, decide_eq_decide]
    omega
  have hbit8 : ((((a.setWidth 16 + v.setWidth 16 + (if C then 1 else 0) : WORD) + 0x66) ^^^
      a.setWidth 16 ^^^ v.setWidth 16).getLsbD 8) =
        decide (256 ≤ a.toNat + v.toNat + C.toNat + 0x66 ∧
          a.toNat + v.toNat + C.toNat + 0x66 < 512) := by
    rw [bit_of_xor, hs, haw, hvw, decide_eq_decide]
    omega
  rw [adcWord]
  simp only [if_true, adjust_eq, hbit4, hbit8, decide_eq_true_eq]
  rw [BitVec.toNat_add, hsum]
  split_ifs <;> simp <;> omega

end Word

/-- What `ac_Execute_ADC` leaves, when the corrected sum is below `512`. -/
theorem adcStep_value {D : Bool} {a v : BYTE} {C : Bool} (h : (adcWord D a v C).toNat < 512) :
    (adcStep D a v C).1.toNat + 256 * (adcStep D a v C).2.toNat = (adcWord D a v C).toNat :=
  low_and_carry h

theorem adcStep_addsAt_binary (a v : BYTE) :
    AddsAt 256 BitVec.toNat BitVec.toNat (adcStep false) a v := by
  intro C
  have ha := a.isLt
  have hv := v.isLt
  have hC := Bool.toNat_le C
  refine ⟨?_, (adcStep false a v C).1.isLt⟩
  rw [adcStep_value (by rw [adcWord_binary]; omega), adcWord_binary]

/-! ### Decimal digits -/

/-- A byte of two decimal digits. -/
def IsBcd (b : BYTE) : Prop := b.toNat % 16 ≤ 9 ∧ b.toNat / 16 ≤ 9

/-- The value of two decimal digits. -/
def bcd (b : BYTE) : ℕ := 10 * (b.toNat / 16) + b.toNat % 16

/-- In decimal mode two bytes of decimal digits add to one, with a decimal carry. -/
theorem adcStep_decimal {a v : BYTE} (ha : IsBcd a) (hv : IsBcd v) (C : Bool) :
    IsBcd (adcStep true a v C).1 ∧
      bcd (adcStep true a v C).1 + 100 * (adcStep true a v C).2.toNat =
        bcd a + bcd v + C.toNat := by
  have hC := Bool.toNat_le C
  obtain ⟨hal, hah⟩ := ha
  obtain ⟨hvl, hvh⟩ := hv
  have hword := adcWord_decimal a v C (by omega)
  have hlt : (adcWord true a v C).toNat < 512 := by
    rw [hword]
    split_ifs <;> omega
  have hvalue := adcStep_value hlt
  rw [hword] at hvalue
  have hbyte := (adcStep true a v C).1.isLt
  have hcarry := Bool.toNat_le (adcStep true a v C).2
  simp only [IsBcd, bcd]
  split_ifs at hvalue <;> omega

theorem adcStep_addsAt_decimal {a v : BYTE} (ha : IsBcd a) (hv : IsBcd v) :
    AddsAt 100 bcd bcd (adcStep true) a v := by
  intro C
  obtain ⟨⟨hlow, hhigh⟩, hvalue⟩ := adcStep_decimal ha hv C
  refine ⟨hvalue, ?_⟩
  rw [bcd]
  omega

/-! ### Chains -/

/-- Run `op` byte by byte from the low end: load a byte of the first number into `A`, run
`op` on the byte of the second one, keep what it leaves in `A`. -/
def runChain (op : BYTE → AcM Unit) : List (BYTE × BYTE) → AcM (List BYTE)
  | [] => return []
  | (a, b) :: l => do
      setA a
      op b
      let r := (← get).A
      let rs ← runChain op l
      return r :: rs

/-- The registers after a chain of additions. -/
def chainCpu (f : BYTE → BYTE) : List (BYTE × BYTE) → Cpu → Cpu
  | [], c => c
  | (a, b) :: l, c => chainCpu f l (adcCpu (f b) { c with A := a })

theorem chainCpu_D (f : BYTE → BYTE) (l : List (BYTE × BYTE)) (c : Cpu) :
    (chainCpu f l c).PS.D = c.PS.D := by
  induction l generalizing c with
  | nil => rfl
  | cons p l ih => exact ih _

/-- A chain whose operation adds `f b` runs the digit adder of `ac_Execute_ADC`. -/
theorem runChain_eq {op : BYTE → AcM Unit} {f : BYTE → BYTE}
    (hop : ∀ v c, op v c = .ret ((), adcCpu (f v) c)) (l : List (BYTE × BYTE)) (c : Cpu) :
    runChain op l c =
      .ret ((addDigits (fun a v => adcStep c.PS.D a (f v)) l c.PS.C).1, chainCpu f l c) ∧
    (chainCpu f l c).PS.C = (addDigits (fun a v => adcStep c.PS.D a (f v)) l c.PS.C).2 := by
  induction l generalizing c with
  | nil => exact ⟨rfl, rfl⟩
  | cons p l ih =>
      obtain ⟨a, b⟩ := p
      obtain ⟨hrun, hcarry⟩ := ih (adcCpu (f b) { c with A := a })
      constructor
      · calc runChain op ((a, b) :: l) c
            = (op b { c with A := a } >>= fun r =>
                runChain op l r.2 >>= fun rs => .ret (r.2.A :: rs.1, rs.2)) := rfl
          _ = (runChain op l (adcCpu (f b) { c with A := a }) >>= fun rs =>
                .ret ((adcCpu (f b) { c with A := a }).A :: rs.1, rs.2)) := by
              rw [hop]
              rfl
          _ = _ := by
              rw [hrun]
              rfl
      · exact hcarry

/-! ### Two's complement -/

/-- The two's complement reading of a number of `n` bytes. -/
def signed (n x : ℕ) : ℤ := if 2 * x < 256 ^ n then x else x - 256 ^ n

/-- The sign of a number of several bytes is the sign of the last one. -/
theorem signed_concat {n x : ℕ} (t : BYTE) (hx : x < 256 ^ n) :
    signed (n + 1) (x + 256 ^ n * t.toNat) = x + 256 ^ n * t.toInt := by
  have ht := t.isLt
  have hpow : 256 ^ (n + 1) = 256 * 256 ^ n := by ring
  have hcast : ((256 ^ n : ℕ) : ℤ) = 256 ^ n := by push_cast; rfl
  rw [signed, BitVec.toInt_eq_toNat_cond, hpow]
  by_cases hneg : 2 * t.toNat < 2 ^ 8
  · have hmul : 256 ^ n * t.toNat ≤ 256 ^ n * 127 := Nat.mul_le_mul_left _ (by omega)
    rw [if_pos (by omega), if_pos hneg]
    push_cast
    ring
  · have hmul : 256 ^ n * 128 ≤ 256 ^ n * t.toNat := Nat.mul_le_mul_left _ (by omega)
    rw [if_neg (by omega), if_neg hneg]
    push_cast
    ring

theorem adcStep_fst_binary (a v : BYTE) (C : Bool) :
    (adcStep false a v C).1 = BitVec.ofNat 8 (a.toNat + v.toNat + C.toNat) := by
  obtain ⟨hvalue, hlt⟩ := adcStep_addsAt_binary a v C
  refine BitVec.eq_of_toNat_eq ?_
  rw [BitVec.toNat_ofNat]
  omega

/-- `V` after one binary addition. -/
theorem adcCpu_overflow (v : BYTE) (c : Cpu) (hD : c.PS.D = false) :
    (adcCpu v c).PS.V = true ↔
      c.A.toInt + v.toInt + c.PS.C.toNat < -128 ∨
        127 < c.A.toInt + v.toInt + c.PS.C.toNat := by
  have hsigns := overflow_of_signs c.A v c.PS.C
  rw [← flag_negative_ne] at hsigns
  have hV : (adcCpu v c).PS.V = ((c.A ^^^ v) &&& FLAG_NEGATIVE == 0#8 &&
      ((adcStep c.PS.D c.A v c.PS.C).1 ^^^ v) &&& FLAG_NEGATIVE != 0#8) := rfl
  rw [hV, hD, adcStep_fst_binary, hsigns, Bool.or_eq_true, decide_eq_true_iff,
    decide_eq_true_iff]

theorem chainCpu_concat (f : BYTE → BYTE) (l : List (BYTE × BYTE)) (a b : BYTE) (c : Cpu) :
    chainCpu f (l ++ [(a, b)]) c = adcCpu (f b) { chainCpu f l c with A := a } := by
  induction l generalizing c with
  | nil => rfl
  | cons p l ih => exact ih _

/-- The two's complement sum of a list of pairs of bytes, and a carry. -/
def signedSum (l : List (BYTE × BYTE)) (C : Bool) : ℤ :=
  signed l.length (fstValue 256 BitVec.toNat l) + signed l.length (sndValue 256 BitVec.toNat l) +
    C.toNat

/-- A digit in front of a number decides whether it fits in two's complement. -/
theorem overflow_iff {P r T : ℤ} (hr : 0 ≤ r) (hlt : r < P) :
    (T < -128 ∨ 127 < T) ↔ ¬ (-(256 * P) ≤ 2 * (r + P * T) ∧ 2 * (r + P * T) < 256 * P) := by
  have hP : 0 ≤ P := by omega
  constructor
  · rintro (hT | hT) ⟨hlo, hhi⟩
    · have hmul : P * T ≤ P * (-129) := mul_le_mul_of_nonneg_left (by omega) hP
      omega
    · have hmul : P * 128 ≤ P * T := mul_le_mul_of_nonneg_left (by omega) hP
      omega
  · intro hout
    by_contra hin
    have hlo : P * (-128) ≤ P * T := mul_le_mul_of_nonneg_left (by omega) hP
    have hhi : P * T ≤ P * 127 := mul_le_mul_of_nonneg_left (by omega) hP
    exact hout ⟨by omega, by omega⟩

/-- `V` after a chain of binary additions. -/
theorem chainCpu_overflow {l : List (BYTE × BYTE)} (hl : l ≠ []) {c : Cpu}
    (hD : c.PS.D = false) :
    (chainCpu id l c).PS.V = true ↔
      ¬ (-256 ^ l.length ≤ 2 * signedSum l c.PS.C ∧ 2 * signedSum l c.PS.C < 256 ^ l.length) := by
  obtain ⟨low, ⟨a, b⟩, rfl⟩ := (List.eq_nil_or_concat' l).resolve_left hl
  have hadd : ∀ p ∈ low, AddsAt 256 BitVec.toNat BitVec.toNat (adcStep false) p.1 p.2 :=
    fun p _ => adcStep_addsAt_binary p.1 p.2
  have hvalue := addDigits_value hadd c.PS.C
  have hlow := ofDigits_map_lt (by omega) (addDigits_lt hadd c.PS.C)
  rw [addDigits_length] at hlow
  have hcarry : (chainCpu id low c).PS.C = (addDigits (adcStep false) low c.PS.C).2 := by
    rw [← hD]
    exact (runChain_eq acExecuteADC_eq low c).2
  have hfst : fstValue 256 BitVec.toNat low < 256 ^ low.length :=
    fstValue_lt (by omega) fun p _ => p.1.isLt
  have hsnd : sndValue 256 BitVec.toNat low < 256 ^ low.length :=
    sndValue_lt (by omega) fun p _ => p.2.isLt
  have hsum : signedSum (low ++ [(a, b)]) c.PS.C =
      (Nat.ofDigits 256 ((addDigits (adcStep false) low c.PS.C).1.map BitVec.toNat) : ℕ) +
        256 ^ low.length * (a.toInt + b.toInt + (chainCpu id low c).PS.C.toNat) := by
    have hint := congrArg (Nat.cast : ℕ → ℤ) hvalue
    push_cast at hint
    rw [signedSum, fstValue_concat, sndValue_concat, List.length_append, List.length_singleton,
      signed_concat a hfst, signed_concat b hsnd, hcarry]
    push_cast
    linear_combination -hint
  have hpow : (256 : ℤ) ^ (low ++ [(a, b)]).length = 256 * 256 ^ low.length := by
    rw [List.length_append, List.length_singleton]
    ring
  rw [chainCpu_concat, adcCpu_overflow _ _ (by rw [← hD]; exact chainCpu_D id low c), hsum,
    hpow]
  exact overflow_iff (Int.natCast_nonneg _) (by exact_mod_cast hlow)

/-! ### Chains of `ac_Execute_ADC` -/

/-- The results of a chain are the sum in base `B`, where `val` reads a byte: the bytes
modulo `B ^ n`, and the carry out of them. -/
structure ChainSum (B : ℕ) (val : BYTE → ℕ) (l : List (BYTE × BYTE)) (C : Bool)
    (rs : List BYTE) (c' : Cpu) : Prop where
  length : rs.length = l.length
  digits : Nat.ofDigits B (rs.map val) =
    (fstValue B val l + sndValue B val l + C.toNat) % B ^ l.length
  carry : c'.PS.C = true ↔ B ^ l.length ≤ fstValue B val l + sndValue B val l + C.toNat

/-- **Decimal and binary addition**, for numbers of any length and any carry. -/
theorem acExecuteADC_chain (l : List (BYTE × BYTE)) (c : Cpu) :
    ∃ rs c', runChain acExecuteADC l c = .ret (rs, c') ∧
      (c.PS.D = false → ChainSum 256 BitVec.toNat l c.PS.C rs c' ∧
        (l ≠ [] → (c'.PS.V = true ↔ ¬ (-256 ^ l.length ≤ 2 * signedSum l c.PS.C ∧
          2 * signedSum l c.PS.C < 256 ^ l.length)))) ∧
      (c.PS.D = true → (∀ p ∈ l, IsBcd p.1 ∧ IsBcd p.2) →
        ChainSum 100 bcd l c.PS.C rs c' ∧ ∀ r ∈ rs, IsBcd r) := by
  obtain ⟨hrun, hcarry⟩ := runChain_eq (f := id) acExecuteADC_eq l c
  refine ⟨_, _, hrun, fun hD => ⟨⟨addDigits_length _ _ _, ?_, ?_⟩, fun hl => ?_⟩,
    fun hD hbcd => ⟨⟨addDigits_length _ _ _, ?_, ?_⟩, ?_⟩⟩
  · rw [hD]
    exact addDigits_mod (by omega) (fun p _ => adcStep_addsAt_binary p.1 p.2) c.PS.C
  · rw [hcarry, hD]
    exact addDigits_carry (by omega) (fun p _ => adcStep_addsAt_binary p.1 p.2) c.PS.C
  · exact chainCpu_overflow hl hD
  · rw [hD]
    exact addDigits_mod (by omega)
      (fun p hp => adcStep_addsAt_decimal (hbcd p hp).1 (hbcd p hp).2) c.PS.C
  · rw [hcarry, hD]
    exact addDigits_carry (by omega)
      (fun p hp => adcStep_addsAt_decimal (hbcd p hp).1 (hbcd p hp).2) c.PS.C
  · rw [hD]
    exact addDigits_forall (fun p hp C => (adcStep_decimal (hbcd p hp).1 (hbcd p hp).2 C).1)
      c.PS.C

/-! ### Chains of `ac_Execute_SBC` -/

/-- The results of a chain are the difference in base `B`, where `val` reads a byte: the
bytes modulo `B ^ n`, and a carry when nothing was borrowed. -/
structure ChainDifference (B : ℕ) (val : BYTE → ℕ) (l : List (BYTE × BYTE)) (rs : List BYTE)
    (c' : Cpu) : Prop where
  length : rs.length = l.length
  digits : ((Nat.ofDigits B (rs.map val) : ℕ) : ℤ) =
    (fstValue B val l - sndValue B val l : ℤ) % B ^ l.length
  carry : c'.PS.C = true ↔ sndValue B val l ≤ fstValue B val l

/-- What a chain of subtractions should leave, in either mode. -/
def SubtractsRight (l : List (BYTE × BYTE)) (c : Cpu) : Prop :=
  ∃ rs c', runChain acExecuteSBC l c = .ret (rs, c') ∧
    (c.PS.D = false → ChainDifference 256 BitVec.toNat l rs c') ∧
    (c.PS.D = true → ChainDifference 100 bcd l rs c' ∧ ∀ r ∈ rs, IsBcd r)

/-- Adding the complement adds the digit that is missing to `$FF`. -/
theorem adcStep_addsAt_complement (a v : BYTE) :
    AddsAt 256 BitVec.toNat (fun v : BYTE => 256 - 1 - v.toNat)
      (fun a v => adcStep false a (~~~v)) a v := by
  intro C
  obtain ⟨hvalue, hlt⟩ := adcStep_addsAt_binary a (~~~v) C
  refine ⟨?_, hlt⟩
  rw [hvalue, BitVec.toNat_not]

theorem subtractsRight_binary (l : List (BYTE × BYTE)) {c : Cpu} (hC : c.PS.C = true)
    (hD : c.PS.D = false) : SubtractsRight l c := by
  obtain ⟨hrun, hcarry⟩ := runChain_eq acExecuteSBC_eq l c
  rw [hC, hD] at hrun hcarry
  have hcomp : sndValue 256 (fun v : BYTE => 256 - 1 - v.toNat) l +
      sndValue 256 BitVec.toNat l + 1 = 256 ^ l.length :=
    sndValue_complement fun p _ => p.2.isLt
  refine ⟨_, _, hrun, fun _ => ⟨addDigits_length _ _ _, ?_, ?_⟩, fun hD' => ?_⟩
  · rw [addDigits_mod (by omega) (fun p _ => adcStep_addsAt_complement p.1 p.2) true]
    have hsum : ((fstValue 256 BitVec.toNat l +
        sndValue 256 (fun v : BYTE => 256 - 1 - v.toNat) l + true.toNat : ℕ) : ℤ) =
          fstValue 256 BitVec.toNat l - sndValue 256 BitVec.toNat l + 256 ^ l.length := by
      have hint := congrArg (Nat.cast : ℕ → ℤ) hcomp
      push_cast at hint ⊢
      rw [← hint]
      simp only [Bool.toNat_true, Nat.cast_one]
      ring
    rw [Int.natCast_mod, hsum]
    push_cast
    exact Int.add_emod_right _ _
  · rw [hcarry, addDigits_carry (by omega) (fun p _ => adcStep_addsAt_complement p.1 p.2) true,
      Bool.toNat_true]
    omega
  · rw [hD] at hD'
    cases hD'

/-- In decimal mode the low digit of the first byte is always wrong. -/
theorem adcStep_decimal_complement {a v : BYTE} (ha : IsBcd a) (hv : IsBcd v) :
    ¬ (IsBcd (adcStep true a (~~~v) true).1 ∧
      ((bcd (adcStep true a (~~~v) true).1 : ℤ) - (bcd a - bcd v)) % 10 = 0) := by
  obtain ⟨hal, hah⟩ := ha
  obtain ⟨hvl, hvh⟩ := hv
  have hnot : (~~~v).toNat = 255 - v.toNat := by rw [BitVec.toNat_not]
  have hC : true.toNat = 1 := rfl
  have hword := adcWord_decimal a (~~~v) true (by omega)
  have hlt : (adcWord true a (~~~v) true).toNat < 512 := by
    rw [hword]
    split_ifs <;> omega
  have hvalue := adcStep_value hlt
  rw [hword] at hvalue
  simp only [IsBcd, bcd]
  split_ifs at hvalue <;> omega

/-- In decimal mode no chain of subtractions but the empty one is right. -/
theorem not_subtractsRight_decimal {l : List (BYTE × BYTE)} {c : Cpu} (hC : c.PS.C = true)
    (hD : c.PS.D = true) (hbcd : ∀ p ∈ l, IsBcd p.1 ∧ IsBcd p.2) (hl : l ≠ []) :
    ¬ SubtractsRight l c := by
  rintro ⟨rs, c', hrun, -, hdec⟩
  obtain ⟨⟨-, hdigits, -⟩, hall⟩ := hdec hD
  obtain ⟨⟨a, b⟩, l, rfl⟩ := List.exists_cons_of_ne_nil hl
  obtain ⟨ha, hb⟩ : IsBcd a ∧ IsBcd b := hbcd _ (List.mem_cons_self ..)
  have hrs : rs = _ := congrArg Prod.fst
    (BusProg.ret.inj (hrun.symm.trans (runChain_eq acExecuteSBC_eq ((a, b) :: l) c).1))
  rw [hC, hD, addDigits] at hrs
  refine adcStep_decimal_complement ha hb ⟨hall _ (by rw [hrs]; exact List.mem_cons_self ..), ?_⟩
  have hdvd : (10 : ℤ) ∣ (100 : ℕ) ^ ((a, b) :: l).length :=
    Dvd.dvd.trans (by decide) (dvd_pow_self _ (by simp))
  have hmod := congrArg (· % (10 : ℤ)) hdigits
  simp only [Int.emod_emod_of_dvd _ hdvd, hrs, fstValue, sndValue, List.map_cons,
    Nat.ofDigits_cons] at hmod
  push_cast at hmod
  omega

/-- **Decimal subtraction.** From a set carry, a chain of `ac_Execute_SBC` is right exactly
in binary mode, or when it is empty. -/
theorem acExecuteSBC_chain_iff (l : List (BYTE × BYTE)) (c : Cpu) (hC : c.PS.C = true)
    (hbcd : c.PS.D = true → ∀ p ∈ l, IsBcd p.1 ∧ IsBcd p.2) :
    SubtractsRight l c ↔ c.PS.D = false ∨ l = [] := by
  constructor
  · intro hright
    by_contra hne
    obtain ⟨hD, hl⟩ := not_or.mp hne
    rw [Bool.not_eq_false] at hD
    exact not_subtractsRight_decimal hC hD (hbcd hD) hl hright
  · rintro (hD | rfl)
    · exact subtractsRight_binary l hC hD
    · exact ⟨[], c, rfl, fun _ => ⟨rfl, rfl, by simp [hC, fstValue, sndValue]⟩,
        fun _ => ⟨⟨rfl, rfl, by simp [hC, fstValue, sndValue]⟩, by simp⟩⟩

/-- `$5021 - $1234` in binary. -/
theorem acExecuteSBC_chain_binary :
    SubtractsRight [(0x21, 0x34), (0x50, 0x12)]
        { Cpu.initial with PS := { Cpu.initial.PS with C := true } } ↔
      false = false ∨ [((0x21 : BYTE), (0x34 : BYTE)), (0x50, 0x12)] = [] :=
  acExecuteSBC_chain_iff _ _ rfl fun hD => by cases hD

/-- In decimal mode `05 - 03` leaves `$68`. -/
theorem acExecuteSBC_decimal_wrong :
    ¬ ∀ (l : List (BYTE × BYTE)) (c : Cpu), c.PS.C = true →
      (c.PS.D = true → ∀ p ∈ l, IsBcd p.1 ∧ IsBcd p.2) → SubtractsRight l c := by
  intro h
  have hbcd : ∀ p ∈ [((0x05 : BYTE), (0x03 : BYTE))], IsBcd p.1 ∧ IsBcd p.2 := by
    rw [List.forall_mem_singleton]
    exact ⟨(by decide : 0x05 % 16 ≤ 9 ∧ 0x05 / 16 ≤ 9), (by decide : 0x03 % 16 ≤ 9 ∧ 0x03 / 16 ≤ 9)⟩
  exact not_subtractsRight_decimal
    (c := { Cpu.initial with PS := { Cpu.initial.PS with C := true, D := true } })
    rfl rfl hbcd (by simp) (h _ _ rfl fun _ => hbcd)

end B2OS
