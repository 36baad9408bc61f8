import B2OS.Apple2.Render
import Mathlib.Tactic.IntervalCases

/-!
# High Resolution

What the high resolution path of `ad_Render` draws. A group of 14 dots is drawn when its
video memory is not what its cache says, when `flashCycle` is zero, or when the last dot of
the group to its left is not the one that `previousBit` has for it.

A group that is not drawn keeps the `previousBit` of the next one. That is right when the
lines are `Kept`: the bit of a group is the last dot of the group to its left as cached.

## Main results

* `dotLoop_eq`: the loop over the dots of a group.
* `hiResLine_spec`: the groups of a line, from left to right.
* `hiResLines_spec`: all the lines.
-/

namespace B2OS

open Raster

namespace Device

/-! ### The dots of a group -/

/-- The bit of the `k`-th dot of a group; bits 7 and 15 select the colours. -/
def dotBit (k : ℕ) : ℕ := if k < 7 then k else k + 1

/-- The colour of the `k`-th dot of a group, with the dot left of the group. -/
def groupDot (word : WORD) (left : BYTE) (k : ℕ) : BYTE :=
  (if k % 2 = 1 then 8 else 0) + bits word (if k < 7 then 7 else 15) * 4 +
    (bits word (dotBit k) <<< 1) + if k = 0 then left else bits word (dotBit (k - 1))

/-- The last dot of a group. -/
def lastDot (word : WORD) : BYTE := bits word 14

section Dots

variable (word : WORD) (left : BYTE) (line x0 : ℕ) (buf : ℕ → BYTE)

/-- The loop variables before the `k`-th dot. -/
def dotsBefore (k : ℕ) : Dots where
  bit := if k ≤ 7 then k else k + 1
  colorSet := bits word (if k ≤ 7 then 7 else 15) * 4
  pbit := if k = 0 then left else bits word (dotBit (k - 1))
  even := if k % 2 = 1 then 8 else 0
  x := x0 + k
  colorbuffer :=
    forUpTo (fun k buf => plot SCREENSIZE_X (x0 + k) line (groupDot word left k) buf) k buf

theorem dotStep_dotsBefore {k : ℕ} (hk : k < 14) :
    dotStep word line (dotsBefore word left line x0 buf k) =
      dotsBefore word left line x0 buf (k + 1) := by
  interval_cases k <;> rfl

theorem dotLoop_dotsBefore {k n : ℕ} (hk : k ≤ 14) (hn : 15 ≤ k + n) :
    dotLoop word line n (dotsBefore word left line x0 buf k) =
      dotsBefore word left line x0 buf 14 := by
  induction n generalizing k with
  | zero => omega
  | succ n ih =>
      rw [dotLoop]
      by_cases hlast : k = 14
      · subst hlast
        rfl
      · have hbit : (dotsBefore word left line x0 buf k).bit < 15 := by
          simp only [dotsBefore]
          split_ifs <;> omega
        rw [if_pos hbit, dotStep_dotsBefore word left line x0 buf (by omega)]
        exact ih (by omega) (by omega)

/-- The loop draws the 14 dots and ends with the last one. -/
theorem dotLoop_eq :
    dotLoop word line 15
      { bit := 0, colorSet := bits word 7 * 4, pbit := left, even := 0, x := x0,
        colorbuffer := buf } = dotsBefore word left line x0 buf 14 :=
  dotLoop_dotsBefore word left line x0 buf (k := 0) (by omega) (by omega)

end Dots

/-! ### A group -/

/-- Only the variables of the high resolution path differ. -/
def HiResFrame (d d' : Device) : Prop :=
  ∃ cache prev buf, d' = { d with HiResCache := cache, previousBit := prev, colorbuffer := buf }

theorem HiResFrame.refl (d : Device) : HiResFrame d d := ⟨_, _, _, rfl⟩

theorem HiResFrame.trans {d d' d'' : Device} (h : HiResFrame d d') (h' : HiResFrame d' d'') :
    HiResFrame d d'' := by
  obtain ⟨cache, prev, buf, rfl⟩ := h
  obtain ⟨cache', prev', buf', rfl⟩ := h'
  exact ⟨cache', prev', buf', rfl⟩

theorem HiResFrame.flashCycle {d d' : Device} (h : HiResFrame d d') :
    d'.flashCycle = d.flashCycle := by
  obtain ⟨cache, prev, buf, rfl⟩ := h
  rfl

section Groups

variable {readByte : WORD → BYTE}

/-- The two bytes of group `g` of a line in the page at `d.videoAddress`. -/
def wordAt (readByte : WORD → BYTE) (d : Device) (line g : ℕ) : WORD :=
  ((readByte (d.videoAddress + offsetHGR line + BitVec.ofNat 16 (2 * g) + 1)).setWidth 16 <<< 8) +
    (readByte (d.videoAddress + offsetHGR line + BitVec.ofNat 16 (2 * g))).setWidth 16

theorem HiResFrame.wordAt {d d' : Device} (h : HiResFrame d d') :
    wordAt readByte d' = Device.wordAt readByte d := by
  obtain ⟨cache, prev, buf, rfl⟩ := h
  rfl

/-- The path draws a group when it comes to it. -/
def Redraws (readByte : WORD → BYTE) (d : Device) (line g : ℕ) : Prop :=
  d.HiResCache line (2 * g) ≠ (wordAt readByte d line g).toNat ∨ d.flashCycle = 0

instance (d : Device) (line g : ℕ) : Decidable (Redraws readByte d line g) :=
  inferInstanceAs (Decidable (_ ∨ _))

/-- The last dot of a group differs from the bit that its right neighbour has. -/
def Fringes (readByte : WORD → BYTE) (d : Device) (line g : ℕ) : Prop :=
  2 * g < 37 ∧ d.previousBit line (2 * g + 2) ≠ lastDot (wordAt readByte d line g)

instance (d : Device) (line g : ℕ) : Decidable (Fringes readByte d line g) :=
  inferInstanceAs (Decidable (_ ∧ _))

/-- A group that is drawn. -/
def drawGroup (readByte : WORD → BYTE) (line g : ℕ) (d : Device) : Device :=
  let word := wordAt readByte d line g
  let cache := setAt2 d.HiResCache line (2 * g) word.toNat
  { d with
    colorbuffer := forUpTo (fun k buf => plot SCREENSIZE_X (2 * g * 7 + k) line
      (groupDot word (d.previousBit line (2 * g)) k) buf) 14 d.colorbuffer
    HiResCache := if Fringes readByte d line g then setAt2 cache line (2 * g + 2) (-1) else cache
    previousBit :=
      if Fringes readByte d line g then
        setAt2 d.previousBit line (2 * g + 2) (lastDot word)
      else d.previousBit }

theorem hiResGroup_eq (d : Device) (line g : ℕ) :
    d.hiResGroup readByte line (2 * g) =
      if Redraws readByte d line g then drawGroup readByte line g d else d := by
  rw [hiResGroup, dotLoop_eq]
  by_cases hdraw : Redraws readByte d line g
  · rw [if_pos hdraw]
    refine (if_pos hdraw).trans ?_
    rw [drawGroup]
    by_cases hfringe : Fringes readByte d line g
    · simp only [if_pos hfringe]
      exact if_pos hfringe
    · simp only [if_neg hfringe]
      exact if_neg hfringe
  · rw [if_neg hdraw]
    exact if_neg hdraw

/-- What a group does to the device. -/
structure GroupSpec (readByte : WORD → BYTE) (line g : ℕ) (d d' : Device) : Prop where
  frame : HiResFrame d d'
  cache : d'.HiResCache line (2 * g) = (wordAt readByte d line g).toNat
  cache_next : d'.HiResCache line (2 * g + 2) =
    if Redraws readByte d line g ∧ Fringes readByte d line g then -1
    else d.HiResCache line (2 * g + 2)
  cache_other : ∀ l c, (l = line → c ≠ 2 * g ∧ c ≠ 2 * g + 2) →
    d'.HiResCache l c = d.HiResCache l c
  prev_next : d'.previousBit line (2 * g + 2) =
    if Redraws readByte d line g ∧ Fringes readByte d line g then
      lastDot (wordAt readByte d line g)
    else d.previousBit line (2 * g + 2)
  prev_other : ∀ l c, (l = line → c ≠ 2 * g + 2) → d'.previousBit l c = d.previousBit l c
  pixel : g < 20 → ∀ x y, x < SCREENSIZE_X → pixel SCREENSIZE_X d'.colorbuffer x y =
    if g = x / 14 ∧ (y = line ∧ Redraws readByte d line g) then
      groupDot (wordAt readByte d line g) (d.previousBit line (2 * g)) (x % 14)
    else pixel SCREENSIZE_X d.colorbuffer x y

theorem drawGroup_spec {d : Device} {line g : ℕ} (hdraw : Redraws readByte d line g) :
    GroupSpec readByte line g d (drawGroup readByte line g d) where
  frame := ⟨_, _, _, rfl⟩
  cache := by
    simp only [drawGroup]
    split_ifs
    · rw [setAt2_apply, if_neg (by omega), setAt2_apply, if_pos ⟨rfl, rfl⟩]
    · rw [setAt2_apply, if_pos ⟨rfl, rfl⟩]
  cache_next := by
    simp only [drawGroup, hdraw, true_and]
    split_ifs
    · rw [setAt2_apply, if_pos ⟨rfl, rfl⟩]
    · rw [setAt2_apply, if_neg (by omega)]
  cache_other := by
    intro l c h
    simp only [drawGroup]
    split_ifs
    · rw [setAt2_apply, if_neg (by tauto), setAt2_apply, if_neg (by tauto)]
    · rw [setAt2_apply, if_neg (by tauto)]
  prev_next := by
    simp only [drawGroup, hdraw, true_and]
    split_ifs
    · rw [setAt2_apply, if_pos ⟨rfl, rfl⟩]
    · rfl
  prev_other := by
    intro l c h
    simp only [drawGroup]
    split_ifs
    · rw [setAt2_apply, if_neg (by tauto)]
    · rfl
  pixel := by
    intro hg x y hx
    simp only [drawGroup]
    rw [pixel_plotRow (by rw [SCREENSIZE_X]; omega) hx
      fun k => groupDot (wordAt readByte d line g) (d.previousBit line (2 * g)) k]
    by_cases hy : y = line ∧ g = x / 14
    · rw [if_pos (by omega), if_pos ⟨hy.2, hy.1, hdraw⟩]
      congr 1
      omega
    · rw [if_neg (by omega), if_neg fun h => hy ⟨h.2.1, h.1⟩]

theorem hiResGroup_spec (d : Device) (line g : ℕ) :
    GroupSpec readByte line g d (d.hiResGroup readByte line (2 * g)) := by
  rw [hiResGroup_eq]
  by_cases hdraw : Redraws readByte d line g
  · rw [if_pos hdraw]
    exact drawGroup_spec hdraw
  · rw [if_neg hdraw]
    exact {
      frame := .refl d
      cache := not_not.mp (not_or.mp hdraw).1
      cache_next := (if_neg fun h => hdraw h.1).symm
      cache_other := fun _ _ _ => rfl
      prev_next := (if_neg fun h => hdraw h.1).symm
      prev_other := fun _ _ _ => rfl
      pixel := fun _ _ _ _ => (if_neg fun h => hdraw h.2.2).symm }

/-! ### A line -/

/-- The dot to the left of a group; the first group of a line keeps its bit. -/
def leftDot (readByte : WORD → BYTE) (d : Device) (line : ℕ) : ℕ → BYTE
  | 0 => d.previousBit line 0
  | g + 1 => lastDot (wordAt readByte d line g)

/-- The bit of a group is the last dot of the group to its left as cached. -/
def Kept (d : Device) (line : ℕ) : Prop :=
  ∀ g < 19, ∀ word : WORD, d.HiResCache line (2 * g) = word.toNat →
    d.previousBit line (2 * g + 2) = lastDot word

/-- The frame that starts in `d` draws the group. -/
def HiDrawn (readByte : WORD → BYTE) (d : Device) (line g : ℕ) : Prop :=
  Redraws readByte d line g ∨ d.previousBit line (2 * g) ≠ leftDot readByte d line g

instance (d : Device) (line g : ℕ) : Decidable (HiDrawn readByte d line g) :=
  inferInstanceAs (Decidable (_ ∨ _))

/-- The line with its first `n` groups done. -/
structure LineDone (readByte : WORD → BYTE) (line n : ℕ) (d e : Device) : Prop where
  frame : HiResFrame d e
  cache : ∀ g < n, e.HiResCache line (2 * g) = (wordAt readByte d line g).toNat
  cache_next : n < 20 → e.HiResCache line (2 * n) =
    if d.previousBit line (2 * n) ≠ leftDot readByte d line n then -1
    else d.HiResCache line (2 * n)
  cache_rest : ∀ g, n < g → e.HiResCache line (2 * g) = d.HiResCache line (2 * g)
  prev : ∀ g ≤ n, g < 20 → e.previousBit line (2 * g) = leftDot readByte d line g
  prev_rest : ∀ g, n < g → e.previousBit line (2 * g) = d.previousBit line (2 * g)
  other : ∀ l ≠ line, ∀ c, e.HiResCache l c = d.HiResCache l c ∧
    e.previousBit l c = d.previousBit l c

theorem LineDone.redraws {line n : ℕ} {d e : Device} (h : LineDone readByte line n d e)
    (hn : n < 20) : Redraws readByte e line n ↔ HiDrawn readByte d line n := by
  have hcache := h.cache_next hn
  rw [HiDrawn, Redraws, Redraws, hcache, h.frame.wordAt, h.frame.flashCycle]
  by_cases hleft : d.previousBit line (2 * n) ≠ leftDot readByte d line n
  · rw [if_pos hleft]
    refine iff_of_true (Or.inl ?_) (Or.inr hleft)
    omega
  · rw [if_neg hleft]
    exact (or_iff_left hleft).symm

/-- The next group of a line whose bits are kept. -/
theorem LineDone.next {line n : ℕ} {d e : Device} (h : LineDone readByte line n d e)
    (hkept : Kept d line) (hn : n < 20) :
    LineDone readByte line (n + 1) d (e.hiResGroup readByte line (2 * n)) := by
  have hgroup : GroupSpec readByte line n e _ := hiResGroup_spec e line n
  have hword : wordAt readByte e line n = wordAt readByte d line n := by rw [h.frame.wordAt]
  have hprev := h.prev_rest (n + 1) (by omega)
  have hrest := h.cache_rest (n + 1) (by omega)
  rw [Nat.mul_add, Nat.mul_one] at hprev hrest
  -- a group that is skipped has a cache that is up to date, which its neighbour's bit follows
  have hskip : n < 19 → ¬ Redraws readByte e line n →
      d.previousBit line (2 * n + 2) = lastDot (wordAt readByte d line n) := by
    intro hlast hskip
    have hcache := not_not.mp (not_or.mp hskip).1
    have hnext := h.cache_next hn
    rw [hcache, hword] at hnext
    refine hkept n hlast _ ?_
    split_ifs at hnext
    exact hnext.symm
  have hfringe : Fringes readByte e line n ↔ 2 * n < 37 ∧
      d.previousBit line (2 * n + 2) ≠ lastDot (wordAt readByte d line n) := by
    rw [Fringes, hprev, hword]
  refine ⟨h.frame.trans hgroup.frame, ?_, ?_, ?_, ?_, ?_, ?_⟩
  · intro g hg
    by_cases hlast : g = n
    · rw [hlast, hgroup.cache, hword]
    · rw [hgroup.cache_other _ _ fun _ => by omega]
      exact h.cache g (by omega)
  · intro hlast
    rw [Nat.mul_add, Nat.mul_one, hgroup.cache_next, hrest]
    by_cases hdraw : Redraws readByte e line n
    · refine if_congr ?_ rfl rfl
      rw [hfringe, leftDot]
      exact ⟨fun h => h.2.2, fun h => ⟨hdraw, by omega, h⟩⟩
    · rw [if_neg fun h => hdraw h.1, leftDot, hskip (by omega) hdraw, if_neg (not_not.mpr rfl)]
  · intro g hg
    rw [hgroup.cache_other _ _ fun _ => by omega]
    exact h.cache_rest g (by omega)
  · intro g hg hlast
    by_cases hnext : g = n + 1
    · rw [hnext, Nat.mul_add, Nat.mul_one, hgroup.prev_next, hword, hprev, leftDot]
      by_cases hdraw : Redraws readByte e line n
      · split_ifs with h
        · rfl
        · rw [hfringe] at h
          exact not_not.mp fun hne => h ⟨hdraw, by omega, hne⟩
      · rw [if_neg fun h => hdraw h.1]
        exact hskip (by omega) hdraw
    · rw [hgroup.prev_other _ _ fun _ => by omega]
      exact h.prev g (by omega) hlast
  · intro g hg
    rw [hgroup.prev_other _ _ fun _ => by omega]
    exact h.prev_rest g (by omega)
  · intro l hl c
    rw [hgroup.cache_other l c fun heq => absurd heq hl,
      hgroup.prev_other l c fun heq => absurd heq hl]
    exact h.other l hl c

/-- One line of groups. -/
def hiResLine (readByte : WORD → BYTE) (line : ℕ) (d : Device) : Device :=
  forUpTo (fun i d => d.hiResGroup readByte line (2 * i)) 20 d

/-- What a line does: its groups are cached, and those that are drawn show their dots. -/
structure LineSpec (readByte : WORD → BYTE) (line : ℕ) (d d' : Device) : Prop where
  done : LineDone readByte line 20 d d'
  pixel : ∀ x y, x < SCREENSIZE_X → pixel SCREENSIZE_X d'.colorbuffer x y =
    if x / 14 < 20 ∧ (y = line ∧ HiDrawn readByte d line (x / 14)) then
      groupDot (wordAt readByte d line (x / 14)) (leftDot readByte d line (x / 14)) (x % 14)
    else pixel SCREENSIZE_X d.colorbuffer x y

theorem hiResLine_spec {d : Device} {line : ℕ} (hkept : Kept d line) :
    LineSpec readByte line d (hiResLine readByte line d) := by
  have hstart : LineDone readByte line 0 d d := by
    refine ⟨.refl d, ?_, ?_, fun _ _ => rfl, ?_, fun _ _ => rfl, fun _ _ _ => ⟨rfl, rfl⟩⟩
    · intro g hg
      omega
    · exact fun _ => (if_neg (not_not.mpr rfl)).symm
    · intro g hg _
      rw [Nat.le_zero.mp hg]
      rfl
  have hstep : ∀ n < 20, ∀ e, LineDone readByte line n d e →
      LineDone readByte line (n + 1) d (e.hiResGroup readByte line (2 * n)) :=
    fun n hn e h => h.next hkept hn
  refine ⟨forUpTo_inv _ hstart hstep, fun x y hx => ?_⟩
  refine forUpTo_cell (fun n e => LineDone readByte line n d e)
    (fun e => Raster.pixel SCREENSIZE_X e.colorbuffer x y) hstart hstep ?_
  intro n hn e h
  rw [(hiResGroup_spec e line n).pixel hn x y hx, h.prev n le_rfl hn, h.frame.wordAt]
  by_cases hgroup : n = x / 14
  · rw [← hgroup]
    exact if_congr (by rw [h.redraws hn]) rfl rfl
  · rw [if_neg fun h => hgroup h.1, if_neg fun h => hgroup h.1]

/-! ### The lines -/

/-- Lines `0` to `n`, which starts in `d`, are done; those from `n` on are as they were. -/
structure LinesDone (readByte : WORD → BYTE) (n : ℕ) (d e : Device) : Prop where
  frame : HiResFrame d e
  cache : ∀ l < n, ∀ g < 20, e.HiResCache l (2 * g) = (wordAt readByte d l g).toNat
  prev : ∀ l < n, ∀ g < 20, e.previousBit l (2 * g) = leftDot readByte d l g
  rest : ∀ l, n ≤ l → ∀ c, e.HiResCache l c = d.HiResCache l c ∧
    e.previousBit l c = d.previousBit l c

theorem LinesDone.leftDot {n : ℕ} {d e : Device} (h : LinesDone readByte n d e) {l : ℕ}
    (hl : n ≤ l) : leftDot readByte e l = Device.leftDot readByte d l := by
  funext g
  cases g with
  | zero => exact (h.rest l hl 0).2
  | succ g => exact congrArg (fun w : ℕ → ℕ → WORD => lastDot (w l g)) h.frame.wordAt

theorem LinesDone.kept {n : ℕ} {d e : Device} (h : LinesDone readByte n d e) {l : ℕ}
    (hl : n ≤ l) (hkept : Kept d l) : Kept e l := by
  intro g hg word hword
  rw [(h.rest l hl _).1] at hword
  rw [(h.rest l hl _).2]
  exact hkept g hg word hword

/-- A line that is done keeps its bits. -/
theorem LinesDone.kept_of_lt {n : ℕ} {d e : Device} (h : LinesDone readByte n d e) {l : ℕ}
    (hl : l < n) : Kept e l := by
  intro g hg word hword
  rw [h.cache l hl g (by omega)] at hword
  have hsame : wordAt readByte d l g = word := BitVec.eq_of_toNat_eq (Int.ofNat.inj hword)
  have hprev := h.prev l hl (g + 1) (by omega)
  rw [Nat.mul_add, Nat.mul_one] at hprev
  rw [hprev, Device.leftDot, hsame]

theorem LinesDone.hiDrawn {n : ℕ} {d e : Device} (h : LinesDone readByte n d e) {l : ℕ}
    (hl : n ≤ l) (g : ℕ) : HiDrawn readByte e l g ↔ HiDrawn readByte d l g := by
  rw [HiDrawn, HiDrawn, Redraws, Redraws, (h.rest l hl _).1, (h.rest l hl _).2, h.leftDot hl,
    h.frame.wordAt, h.frame.flashCycle]

/-- The high resolution path from `d`, whose address is set. -/
theorem hiResLines_spec (readByte : WORD → BYTE) {d : Device} {rows : ℕ}
    (hkept : ∀ l < rows, Kept d l) :
    LinesDone readByte rows d (forUpTo (hiResLine readByte) rows d) ∧
      ∀ x y, x < SCREENSIZE_X →
        pixel SCREENSIZE_X (forUpTo (hiResLine readByte) rows d).colorbuffer x y =
          if y < rows ∧ HiDrawn readByte d y (x / 14) then
            groupDot (wordAt readByte d y (x / 14)) (leftDot readByte d y (x / 14)) (x % 14)
          else pixel SCREENSIZE_X d.colorbuffer x y := by
  have hstart : LinesDone readByte 0 d d :=
    ⟨.refl d, fun l hl => absurd hl (Nat.not_lt_zero l),
      fun l hl => absurd hl (Nat.not_lt_zero l), fun _ _ _ => ⟨rfl, rfl⟩⟩
  have hline : ∀ n < rows, ∀ e, LinesDone readByte n d e →
      LineSpec readByte n e (hiResLine readByte n e) :=
    fun n hn e h => hiResLine_spec (h.kept le_rfl (hkept n hn))
  have hstep : ∀ n < rows, ∀ e, LinesDone readByte n d e →
      LinesDone readByte (n + 1) d (hiResLine readByte n e) := by
    intro n hn e h
    obtain ⟨hdone, -⟩ := hline n hn e h
    refine ⟨h.frame.trans hdone.frame, ?_, ?_, ?_⟩
    · intro l hl g hg
      by_cases hlast : l = n
      · rw [hlast, hdone.cache g hg, h.frame.wordAt]
      · rw [(hdone.other l hlast _).1]
        exact h.cache l (by omega) g hg
    · intro l hl g hg
      by_cases hlast : l = n
      · rw [hlast, hdone.prev g (by omega) hg, h.leftDot le_rfl]
      · rw [(hdone.other l hlast _).2]
        exact h.prev l (by omega) g hg
    · intro l hl c
      rw [(hdone.other l (by omega) c).1, (hdone.other l (by omega) c).2]
      exact h.rest l (by omega) c
  refine ⟨forUpTo_inv _ hstart hstep, fun x y hx => ?_⟩
  refine forUpTo_cell (fun n e => LinesDone readByte n d e)
    (fun e => pixel SCREENSIZE_X e.colorbuffer x y) hstart hstep ?_
  intro n hn e h
  have hcol : x / 14 < 20 := by
    rw [SCREENSIZE_X] at hx
    omega
  rw [(hline n hn e h).pixel x y hx, h.leftDot le_rfl, h.frame.wordAt]
  by_cases hy : y = n
  · rw [hy]
    refine if_congr ?_ rfl rfl
    rw [h.hiDrawn le_rfl]
    tauto
  · rw [if_neg fun h => hy h.2.1, if_neg fun h => hy h.1.symm]

theorem renderHiRes_eq (d : Device) : d.renderHiRes readByte =
    forUpTo (hiResLine readByte) (if d.mixedMode then 160 else 192)
      { d with videoAddress := d.videoPage.setWidth 16 * 0x2000 } := rfl

end Groups

end Device

end B2OS
