import Mathlib.Data.Nat.Find
import Mathlib.Logic.Function.Basic

/-!
# Texts in Buffers

A buffer is a function from offsets to characters, and a text stands in it when the characters
follow one another from some offset on. Numerals are made in a buffer from the last digit to the
first and then turned round in place by two offsets that move towards each other.

## Main results

* `holdsAt_cons`, `holdsAt_append`: a text stands where its parts stand.
* `reverseLoop_spec`: the loop turns a stretch of the buffer round and leaves the rest.
* `mem_reverseLoopLogged`: it stores to this stretch only.
* `HoldsAt.reverse`: what a stretch holds when it has been turned round.
* `Terminated.scan_end`: the scan for the terminator of a text ends there.
-/

universe u

variable {α : Type u}

/-- The text `l` stands in the buffer from offset `p` on. -/
def HoldsAt (buf : ℕ → α) (p : ℕ) (l : List α) : Prop :=
  ∀ k c, l[k]? = some c → buf (p + k) = c

theorem holdsAt_nil (buf : ℕ → α) (p : ℕ) : HoldsAt buf p [] := fun k c h => by simp at h

theorem holdsAt_cons {buf : ℕ → α} {p : ℕ} {c : α} {l : List α} :
    HoldsAt buf p (c :: l) ↔ buf p = c ∧ HoldsAt buf (p + 1) l := by
  constructor
  · intro h
    refine ⟨h 0 c rfl, fun k d hk => ?_⟩
    have hnext := h (k + 1) d hk
    rwa [← Nat.add_assoc, Nat.add_right_comm] at hnext
  · rintro ⟨hc, hl⟩ k d hk
    cases k with
    | zero => exact hc.trans (Option.some.inj hk)
    | succ k =>
        have hnext := hl k d hk
        rwa [Nat.add_right_comm] at hnext

theorem holdsAt_append {buf : ℕ → α} {p : ℕ} {l l' : List α} :
    HoldsAt buf p (l ++ l') ↔ HoldsAt buf p l ∧ HoldsAt buf (p + l.length) l' := by
  induction l generalizing p with
  | nil => simp [holdsAt_nil]
  | cons c l ih =>
      rw [List.cons_append, holdsAt_cons, holdsAt_cons, ih, and_assoc, List.length_cons,
        Nat.add_right_comm, Nat.add_assoc]

/-- A text stands where the buffer has not changed. -/
theorem HoldsAt.congr {buf buf' : ℕ → α} {p : ℕ} {l : List α} (h : HoldsAt buf p l)
    (hsame : ∀ j, p ≤ j → j < p + l.length → buf' j = buf j) : HoldsAt buf' p l := by
  intro k c hk
  have hlt := (List.getElem?_eq_some_iff.mp hk).1
  rw [hsame (p + k) (by omega) (by omega), h k c hk]

/-- Two offsets move towards each other and swap what they meet. -/
def reverseLoop : ℕ → ℕ → ℕ → (ℕ → α) → Option (ℕ → α)
  | 0, _, _, _ => none
  | fuel + 1, p₁, p₂, buf =>
      if p₁ < p₂ then
        let tmp := buf p₁
        let buf := Function.update buf p₁ (buf p₂)
        let buf := Function.update buf p₂ tmp
        reverseLoop fuel (p₁ + 1) (p₂ - 1) buf
      else some buf

/-- The loop turns the stretch between the offsets round and leaves the rest. -/
theorem reverseLoop_spec {fuel p₁ p₂ : ℕ} (hfuel : p₂ < p₁ + fuel) (hpos : 0 < fuel)
    (buf : ℕ → α) :
    ∃ buf', reverseLoop fuel p₁ p₂ buf = some buf' ∧
      ∀ j, buf' j = if p₁ ≤ j ∧ j ≤ p₂ then buf (p₁ + p₂ - j) else buf j := by
  induction fuel generalizing p₁ p₂ buf with
  | zero => cases hpos
  | succ fuel ih =>
      rw [reverseLoop]
      split_ifs with hlt
      · obtain ⟨buf', hloop, hbuf⟩ := ih (show p₂ - 1 < p₁ + 1 + fuel by omega) (by omega)
          (Function.update (Function.update buf p₁ (buf p₂)) p₂ (buf p₁))
        refine ⟨buf', hloop, fun j => ?_⟩
        rw [hbuf]
        have hsum : p₁ + 1 + (p₂ - 1) = p₁ + p₂ := by omega
        simp only [hsum, Function.update_apply]
        rcases Nat.lt_trichotomy j p₁ with hj | rfl | hj
        · rw [if_neg (by omega), if_neg (by omega), if_neg (by omega), if_neg (by omega)]
        · rw [if_neg (by omega), if_neg (by omega), if_pos rfl, if_pos (by omega)]
          congr 1
          omega
        rcases Nat.lt_trichotomy j p₂ with hj' | rfl | hj'
        · rw [if_pos (by omega), if_neg (by omega), if_neg (by omega), if_pos (by omega)]
        · rw [if_neg (by omega), if_pos rfl, if_pos (by omega)]
          congr 1
          omega
        · rw [if_neg (by omega), if_neg (by omega), if_neg (by omega), if_neg (by omega)]
      · refine ⟨buf, rfl, fun j => ?_⟩
        split_ifs with hj
        · congr 1
          omega
        · rfl

/-- The same loop, with a ledger of the offsets that it stores to. -/
def reverseLoopLogged : ℕ → ℕ → ℕ → (ℕ → α) × List ℕ → Option ((ℕ → α) × List ℕ)
  | 0, _, _, _ => none
  | fuel + 1, p₁, p₂, (buf, ledger) =>
      if p₁ < p₂ then
        let tmp := buf p₁
        let buf := Function.update buf p₁ (buf p₂)
        let buf := Function.update buf p₂ tmp
        reverseLoopLogged fuel (p₁ + 1) (p₂ - 1) (buf, ledger ++ [p₁, p₂])
      else some (buf, ledger)

/-- Forgetting the ledger gives the loop. -/
theorem reverseLoopLogged_fst (fuel p₁ p₂ : ℕ) (x : (ℕ → α) × List ℕ) :
    (reverseLoopLogged fuel p₁ p₂ x).map Prod.fst = reverseLoop fuel p₁ p₂ x.1 := by
  induction fuel generalizing p₁ p₂ x with
  | zero => rfl
  | succ fuel ih =>
      rw [reverseLoopLogged, reverseLoop]
      split_ifs
      · exact ih (p₁ + 1) (p₂ - 1) _
      · rfl

/-- The loop stores to the stretch only. -/
theorem mem_reverseLoopLogged {fuel p₁ p₂ : ℕ} {x y : (ℕ → α) × List ℕ}
    (h : reverseLoopLogged fuel p₁ p₂ x = some y) :
    ∀ j ∈ y.2, j ∈ x.2 ∨ (p₁ ≤ j ∧ j ≤ p₂) := by
  induction fuel generalizing p₁ p₂ x with
  | zero =>
      rw [reverseLoopLogged] at h
      cases h
  | succ fuel ih =>
      rw [reverseLoopLogged] at h
      intro j hj
      split_ifs at h with hlt
      · rcases ih h j hj with hold | hin
        · rcases List.mem_append.mp hold with hold | hnew
          · exact .inl hold
          · simp only [List.mem_cons, List.not_mem_nil, or_false] at hnew
            omega
        · omega
      · obtain rfl := Option.some.inj h
        exact .inl hj

/-- A stretch that has been turned round holds its text from the back. -/
theorem HoldsAt.reverse {buf buf' : ℕ → α} {p : ℕ} {l : List α} (h : HoldsAt buf p l)
    (hbuf : ∀ j, p ≤ j → j < p + l.length → buf' j = buf (p + (p + l.length - 1) - j)) :
    HoldsAt buf' p l.reverse := by
  intro k c hk
  have hlt : k < l.length := by
    simpa using (List.getElem?_eq_some_iff.mp hk).1
  rw [List.getElem?_reverse hlt] at hk
  rw [hbuf (p + k) (by omega) (by omega), ← h _ c hk]
  congr 1
  omega

/-! ### Terminated texts -/

/-- The text `l` stands at the start of the buffer, and the first `z` behind it. -/
structure Terminated (z : α) (buf : ℕ → α) (l : List α) : Prop where
  holds : HoldsAt buf 0 l
  terminator : buf l.length = z
  inner : z ∉ l

theorem Terminated.of_holdsAt {z : α} {buf : ℕ → α} {l : List α} (h : HoldsAt buf 0 (l ++ [z]))
    (hl : z ∉ l) : Terminated z buf l := by
  obtain ⟨hholds, hz⟩ := holdsAt_append.mp h
  rw [Nat.zero_add, holdsAt_cons] at hz
  exact ⟨hholds, hz.1, hl⟩

/-- Before its terminator a text has no terminator. -/
theorem Terminated.ne {z : α} {buf : ℕ → α} {l : List α} (h : Terminated z buf l) {k : ℕ}
    (hk : k < l.length) : buf k = l[k] ∧ l[k] ≠ z := by
  have hbuf := h.holds k l[k] (List.getElem?_eq_getElem hk)
  rw [Nat.zero_add] at hbuf
  exact ⟨hbuf, fun hz => h.inner (hz ▸ List.getElem_mem hk)⟩

/-- A buffer with a terminator starts with a text. -/
theorem exists_terminated [DecidableEq α] {z : α} {buf : ℕ → α} (h : ∃ k, buf k = z) :
    ∃ l, Terminated z buf l := by
  refine ⟨(List.range (Nat.find h)).map buf, fun k c hk => ?_, ?_, fun hmem => ?_⟩
  · rw [Nat.zero_add]
    simp only [List.getElem?_map, Option.map_eq_some_iff] at hk
    obtain ⟨j, hj, rfl⟩ := hk
    have hlt := (List.getElem?_eq_some_iff.mp hj).1
    rw [List.length_range] at hlt
    rw [List.getElem?_range hlt] at hj
    rw [Option.some.inj hj]
  · rw [List.length_map, List.length_range]
    exact Nat.find_spec h
  · obtain ⟨j, hj, hz⟩ := List.mem_map.mp hmem
    exact Nat.find_min h (List.mem_range.mp hj) hz

/-- The offset of the first `z` from an offset on: `for (; *p; p++) ;`. -/
def scanLoop [DecidableEq α] (z : α) (buf : ℕ → α) : ℕ → ℕ → Option ℕ
  | 0, _ => none
  | fuel + 1, p => if buf p = z then some p else scanLoop z buf fuel (p + 1)

/-- The scan of a text comes to its terminator. -/
theorem Terminated.scan_end [DecidableEq α] {z : α} {buf : ℕ → α} {l : List α}
    (h : Terminated z buf l) {fuel p : ℕ} (hp : p ≤ l.length) (hfuel : l.length < p + fuel) :
    scanLoop z buf fuel p = some l.length := by
  induction fuel generalizing p with
  | zero => omega
  | succ fuel ih =>
      rw [scanLoop]
      rcases Nat.eq_or_lt_of_le hp with rfl | hlt
      · rw [if_pos h.terminator]
      · obtain ⟨hbuf, hne⟩ := h.ne hlt
        rw [if_neg (hbuf ▸ hne)]
        exact ih hlt (by omega)

/-- A text ends at the first terminator. -/
theorem Terminated.length_le {z : α} {buf : ℕ → α} {l : List α} (h : Terminated z buf l) {k : ℕ}
    (hk : buf k = z) : l.length ≤ k := by
  by_contra hlt
  obtain ⟨hbuf, hne⟩ := h.ne (Nat.lt_of_not_le hlt)
  exact hne (hbuf ▸ hk)

/-- A list with terminators behind it is a terminated text. -/
theorem terminated_getD {z : α} {l : List α} (h : z ∉ l) :
    Terminated z (fun k => l.getD k z) l where
  holds k c hk := by
    rw [Nat.zero_add]
    change l.getD k z = c
    rw [List.getD_eq_getElem?_getD, hk, Option.getD_some]
  terminator := by
    rw [List.getD_eq_getElem?_getD, List.getElem?_eq_none (Nat.le_refl _), Option.getD_none]
  inner := h
