import B2OS.Lib.Run
import B2OS.Lib.TextBuffer
import Mathlib.Data.BitVec

/-!
# Numerals of the Kernel

This module embeds `itoa` of `Src/console.c`. The pointers `p`, `p1` and `p2` are offsets into the
buffer. The digits come out of the divisions from the last one on, and the loop at the end turns
them round behind the sign.

The reference is `Nat.toDigits`: `numeral` in a base, and `signedNumeral` with the sign in front.

## Main results

* `itoaDigits_spec`: the first loop leaves the digits of the numeral from the back.
* `itoa_spec`: `itoa` leaves the numeral of its argument and a terminator, and no other offset
  changes.
-/

namespace B2OS.Console

/-- The code of a character. -/
def code (c : Char) : BitVec 8 := BitVec.ofNat 8 c.toNat

/-- The numeral of a number in a base. -/
def numeral (b n : ℕ) : List (BitVec 8) := (Nat.toDigits b n).map code

/-- The decimal numeral of an integer. -/
def signedNumeral (i : ℤ) : List (BitVec 8) :=
  if i < 0 then code '-' :: numeral 10 i.natAbs else numeral 10 i.natAbs

/-! ### The function -/

/-- The variables of the first loop: the buffer, the offset `p` and the number `ud`. -/
structure Itoa where
  buf : ℕ → BitVec 8
  p : ℕ
  ud : BitVec 32

/-- A turn of the first loop, with the division in its condition. -/
def itoaDigit (divisor : BitVec 32) (s : Itoa) : Itoa :=
  let remainder := s.ud % divisor
  let ch := if remainder.slt 10 then remainder + 0x30 else remainder + 0x61 - 10
  { buf := Function.update s.buf s.p (ch.setWidth 8)
    p := s.p + 1
    ud := s.ud / divisor }

/-- `do { .. } while (ud /= divisor)`. -/
def itoaDigits (divisor : BitVec 32) (fuel : ℕ) (s : Itoa) : Option Itoa :=
  doWhile (fun s => some (itoaDigit divisor s)) (fun s => s.ud != 0) fuel s

def itoa (fuel : ℕ) (buf : ℕ → BitVec 8) (base : BitVec 8) (d : BitVec 32) :
    Option (ℕ → BitVec 8) := do
  let negative := base = code 'd' ∧ d.slt 0
  let s : Itoa := if negative then ⟨Function.update buf 0 (code '-'), 1, -d⟩ else ⟨buf, 0, d⟩
  let start := s.p
  let divisor : BitVec 32 := if ¬ negative ∧ base = code 'x' then 16 else 10
  let s ← itoaDigits divisor fuel s
  let buf := Function.update s.buf s.p 0
  reverseLoop fuel start (s.p - 1) buf

/-! ### Digits -/

/-- The character of a digit. -/
theorem itoaDigit_char {r : BitVec 32} (h : r.toNat < 16) :
    (if r.slt 10 then r + 0x30 else r + 0x61 - 10).setWidth 8 = code (Nat.digitChar r.toNat) := by
  obtain ⟨n, rfl⟩ : ∃ n : Fin 16, r = BitVec.ofNat 32 n :=
    ⟨⟨r.toNat, h⟩, by simp⟩
  revert n
  decide

/-- A number below the base has one digit; another one ends in its remainder. -/
theorem numeral_eq {b n : ℕ} (hb : 1 < b) :
    numeral b n = if n < b then [code (Nat.digitChar n)]
      else numeral b (n / b) ++ [code (Nat.digitChar (n % b))] := by
  rw [numeral, Nat.toDigits_eq_if hb]
  split_ifs
  · rfl
  · rw [List.map_append]
    rfl

theorem length_numeral_pos (b n : ℕ) : 0 < (numeral b n).length := by
  rw [numeral, List.length_map]
  exact Nat.length_toDigits_pos

theorem length_numeral_le {b n k : ℕ} (hb : 1 < b) (hk : 0 < k) (h : n < b ^ k) :
    (numeral b n).length ≤ k := by
  rw [numeral, List.length_map]
  exact (Nat.length_toDigits_le_iff hb hk).mpr h

/-- From base 10 on, a word has at most ten digits. -/
theorem length_numeral_word {b n : ℕ} (hb : 10 ≤ b) (hn : n < 2 ^ 32) :
    (numeral b n).length ≤ 10 :=
  length_numeral_le (by omega) (by decide)
    (hn.trans (lt_of_lt_of_le (by decide) (Nat.pow_le_pow_left hb 10)))

theorem code_digitChar_ne_zero (n : ℕ) : code (Nat.digitChar n) ≠ 0 := by
  rcases Nat.lt_or_ge n 16 with hlt | hge
  · revert n
    decide
  · rw [Nat.digitChar_eq_star.mpr hge]
    decide

/-- A numeral has no terminator in it. -/
theorem zero_not_mem_numeral {b : ℕ} (hb : 1 < b) (n : ℕ) : 0 ∉ numeral b n := by
  induction n using Nat.strong_induction_on with
  | _ n ih =>
      rw [numeral_eq hb]
      split_ifs with hlt
      · exact fun h => code_digitChar_ne_zero n (List.mem_singleton.mp h).symm
      · have hless : n / b < n := Nat.div_lt_self (by omega) hb
        rw [List.mem_append, not_or]
        exact ⟨ih _ hless, fun h => code_digitChar_ne_zero _ (List.mem_singleton.mp h).symm⟩

/-- What a turn of the first loop leaves. -/
theorem itoaDigit_spec {divisor : BitVec 32} (hlo : 1 < divisor.toNat) (hhi : divisor.toNat ≤ 16)
    (s : Itoa) :
    itoaDigit divisor s =
      ⟨Function.update s.buf s.p (code (Nat.digitChar (s.ud.toNat % divisor.toNat))), s.p + 1,
        s.ud / divisor⟩ := by
  have hlt : s.ud.toNat % divisor.toNat < divisor.toNat := Nat.mod_lt _ (by omega)
  have hchar := itoaDigit_char (r := s.ud % divisor) (by rw [BitVec.toNat_umod]; omega)
  rw [BitVec.toNat_umod] at hchar
  rw [itoaDigit, hchar]

/-- The first loop leaves the digits of the numeral from the back. -/
theorem itoaDigits_spec {divisor : BitVec 32} (hlo : 1 < divisor.toNat) (hhi : divisor.toNat ≤ 16)
    {fuel : ℕ} (s : Itoa) (hfuel : (numeral divisor.toNat s.ud.toNat).length ≤ fuel) :
    ∃ s', itoaDigits divisor fuel s = some s' ∧
      s'.p = s.p + (numeral divisor.toNat s.ud.toNat).length ∧
      HoldsAt s'.buf s.p (numeral divisor.toNat s.ud.toNat).reverse ∧
      ∀ j, (j < s.p ∨ s'.p ≤ j) → s'.buf j = s.buf j := by
  induction fuel generalizing s with
  | zero => exact absurd hfuel (Nat.not_le.mpr (length_numeral_pos _ _))
  | succ fuel ih =>
      have hud : (s.ud / divisor).toNat = s.ud.toNat / divisor.toNat := BitVec.toNat_udiv
      have hother : ∀ j, j ≠ s.p → (itoaDigit divisor s).buf j = s.buf j := fun j hj => by
        rw [itoaDigit_spec hlo hhi]
        exact Function.update_of_ne hj ..
      have hself : (itoaDigit divisor s).buf s.p =
          code (Nat.digitChar (s.ud.toNat % divisor.toNat)) := by
        rw [itoaDigit_spec hlo hhi]
        exact Function.update_self ..
      rw [itoaDigits, doWhile, Option.bind_eq_bind, Option.bind_some]
      rw [numeral_eq hlo] at hfuel ⊢
      by_cases hlast : s.ud.toNat < divisor.toNat
      · have hzero : s.ud / divisor = 0 := by
          apply BitVec.eq_of_toNat_eq
          rw [hud, Nat.div_eq_of_lt hlast]
          rfl
        rw [if_neg (by simp [itoaDigit, hzero]), if_pos hlast]
        rw [Nat.mod_eq_of_lt hlast] at hself
        refine ⟨_, rfl, rfl, ?_, fun j hj => hother j ?_⟩
        · rw [List.reverse_singleton, holdsAt_cons]
          exact ⟨hself, holdsAt_nil _ _⟩
        · have hp : (itoaDigit divisor s).p = s.p + 1 := rfl
          omega
      · have hmore : s.ud / divisor ≠ 0 := by
          intro hzero
          rw [hzero] at hud
          have hdiv := Nat.div_pos (Nat.not_lt.mp hlast) (by omega)
          exact absurd hud (by simp; omega)
        have hud' : (itoaDigit divisor s).ud = s.ud / divisor := rfl
        have hp : (itoaDigit divisor s).p = s.p + 1 := rfl
        rw [if_neg hlast, List.length_append, List.length_singleton] at hfuel
        obtain ⟨s', hloop, hp', hholds, hrest⟩ := ih (itoaDigit divisor s)
          (by rw [hud', hud]; omega)
        rw [hud', hud, hp] at hp' hholds
        rw [if_pos (bne_iff_ne.mpr (hud' ▸ hmore)), if_neg hlast, List.length_append,
          List.length_singleton, List.reverse_append]
        refine ⟨s', hloop, by omega, ?_, fun j hj => ?_⟩
        · rw [List.reverse_singleton, List.singleton_append, holdsAt_cons]
          refine ⟨?_, hholds⟩
          rw [hrest s.p (.inl (by omega)), hself]
        · rw [hrest j (by omega), hother j (by omega)]

/-! ### The numeral -/

/-- The text that `itoa` makes. -/
def itoaText (base : BitVec 8) (d : BitVec 32) : List (BitVec 8) :=
  if base = code 'd' then signedNumeral d.toInt
  else if base = code 'x' then numeral 16 d.toNat
  else numeral 10 d.toNat

theorem zero_not_mem_itoaText (base : BitVec 8) (d : BitVec 32) : 0 ∉ itoaText base d := by
  have hdecimal := zero_not_mem_numeral (b := 10) (by decide)
  rw [itoaText, signedNumeral]
  split_ifs
  · rw [List.mem_cons, not_or]
    exact ⟨by decide, hdecimal _⟩
  · exact hdecimal _
  · exact zero_not_mem_numeral (by decide) _
  · exact hdecimal _

/-- The text and its terminator take at most twelve bytes. -/
theorem length_itoaText_le (base : BitVec 8) (d : BitVec 32) : (itoaText base d).length ≤ 11 := by
  have hd := d.isLt
  have hdecimal : ∀ n < 2 ^ 32, (numeral 10 n).length ≤ 10 := fun n hn =>
    length_numeral_word (by decide) hn
  have habs : d.toInt.natAbs < 2 ^ 32 := by
    have hint := BitVec.toInt_eq_toNat_cond d
    split_ifs at hint <;> omega
  rw [itoaText, signedNumeral]
  split_ifs
  · exact Nat.succ_le_succ (hdecimal _ habs)
  · exact (hdecimal _ habs).trans (by decide)
  · exact (length_numeral_le (by decide) (by decide) (hd.trans_le (by decide))).trans
      (show 8 ≤ 11 by decide)
  · exact (hdecimal _ hd).trans (by decide)

/-- From `s` on the digits are made, terminated and turned round. -/
theorem itoa_digits {divisor : BitVec 32} (hlo : 10 ≤ divisor.toNat) (hhi : divisor.toNat ≤ 16)
    {fuel : ℕ} (hfuel : 10 ≤ fuel) (s : Itoa) :
    ∃ s' buf, itoaDigits divisor fuel s = some s' ∧
      reverseLoop fuel s.p (s'.p - 1) (Function.update s'.buf s'.p 0) = some buf ∧
      HoldsAt buf s.p (numeral divisor.toNat s.ud.toNat ++ [0]) ∧
      ∀ j, (j < s.p ∨ s.p + (numeral divisor.toNat s.ud.toNat).length < j) → buf j = s.buf j := by
  have hlength := length_numeral_word hlo s.ud.isLt
  have hpos := length_numeral_pos divisor.toNat s.ud.toNat
  obtain ⟨s', hdigits, hp, hholds, hother⟩ := itoaDigits_spec (by omega) hhi s (hlength.trans hfuel)
  obtain ⟨buf, hloop, hbuf⟩ := reverseLoop_spec (show s'.p - 1 < s.p + fuel by omega)
    (by omega) (Function.update s'.buf s'.p 0)
  refine ⟨s', buf, hdigits, hloop, holdsAt_append.mpr ⟨?_, ?_⟩, fun j hj => ?_⟩
  · rw [← List.reverse_reverse (numeral divisor.toNat s.ud.toNat)]
    refine HoldsAt.reverse hholds fun j hj hlt => ?_
    rw [List.length_reverse] at hlt ⊢
    rw [hbuf j, if_pos (by omega), Function.update_of_ne (by omega)]
    congr 1
    omega
  · rw [holdsAt_cons, ← hp, hbuf, if_neg (by omega), Function.update_self]
    exact ⟨rfl, holdsAt_nil _ _⟩
  · rw [hbuf j, if_neg (by omega), Function.update_of_ne (by omega)]
    exact hother j (by omega)

/-- `itoa` leaves the numeral of its argument and a terminator in the buffer, and no other offset
changes. -/
theorem itoa_spec {fuel : ℕ} (hfuel : 10 ≤ fuel) (buf : ℕ → BitVec 8) (base : BitVec 8)
    (d : BitVec 32) :
    ∃ buf', itoa fuel buf base d = some buf' ∧ HoldsAt buf' 0 (itoaText base d ++ [0]) ∧
      ∀ j, (itoaText base d).length < j → buf' j = buf j := by
  have hint := BitVec.toInt_eq_toNat_cond d
  have hd := d.isLt
  have hsign : d.slt 0 = true ↔ d.toInt < 0 := by
    rw [BitVec.slt_iff_toInt_lt]
    rfl
  by_cases hnegative : base = code 'd' ∧ d.slt 0 = true
  · obtain ⟨hbase, hslt⟩ := hnegative
    have hneg := hsign.mp hslt
    have habs : (-d).toNat = d.toInt.natAbs := by
      rw [BitVec.toNat_neg]
      split_ifs at hint <;> omega
    have htext : itoaText base d = code '-' :: numeral 10 (-d).toNat := by
      rw [itoaText, if_pos hbase, signedNumeral, if_pos hneg, habs]
    obtain ⟨s', buf', hdigits, hloop, hholds, hother⟩ := itoa_digits
      (show 10 ≤ (10 : BitVec 32).toNat by decide) (by decide) hfuel
      ⟨Function.update buf 0 (code '-'), 1, -d⟩
    refine ⟨buf', ?_, ?_, fun j hj => ?_⟩
    · simp only [itoa, hbase, hslt, and_self, if_true, not_true, false_and, if_false]
      rw [hdigits]
      exact hloop
    · rw [htext, List.cons_append, holdsAt_cons]
      refine ⟨?_, hholds⟩
      rw [hother 0 (.inl Nat.zero_lt_one)]
      exact Function.update_self 0 (code '-') buf
    · rw [htext, List.length_cons] at hj
      rw [hother j (.inr (by rw [Nat.add_comm]; exact hj))]
      change Function.update buf 0 (code '-') j = buf j
      rw [Function.update_of_ne (by omega)]
  · obtain ⟨divisor, hdivisor, hlo, hhi, htext⟩ : ∃ divisor : BitVec 32,
        (if base = code 'x' then (16 : BitVec 32) else 10) = divisor ∧ 10 ≤ divisor.toNat ∧
          divisor.toNat ≤ 16 ∧ itoaText base d = numeral divisor.toNat d.toNat := by
      by_cases hx : base = code 'x'
      · subst hx
        exact ⟨16, rfl, by decide, by decide, rfl⟩
      · refine ⟨10, if_neg hx, by decide, by decide, ?_⟩
        rw [itoaText, if_neg hx]
        split_ifs with hd
        · have hsigned : ¬ d.toInt < 0 := fun h => hnegative ⟨hd, hsign.mpr h⟩
          have habs : d.toInt.natAbs = d.toNat := by
            split_ifs at hint <;> omega
          rw [signedNumeral, if_neg hsigned, habs]
          rfl
        · rfl
    obtain ⟨s', buf', hdigits, hloop, hholds, hother⟩ := itoa_digits hlo hhi hfuel ⟨buf, 0, d⟩
    refine ⟨buf', ?_, htext ▸ hholds, fun j hj => hother j (.inr ?_)⟩
    · simp only [itoa, hnegative, not_false_eq_true, true_and, if_false, hdivisor]
      rw [hdigits]
      exact hloop
    · rw [htext] at hj
      rw [Nat.zero_add]
      exact hj

end B2OS.Console
