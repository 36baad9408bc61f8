import B2OS.Apple2.MonitorText
import B2OS.Apple2.FontTables

/-!
# Clearing the Screen

`HOME` is the Monitor's routine that clears the text window, line by line through `CLEOP1`. What
the guest asks for in this way has to come out on the screen: its code runs in the loop of
`ac_Run`, the blanks go to video memory, and `ad_Render` draws them with the font that `ad_Create`
has cut.

## Main results

* `Mos6502.home_spec`: what `HOME` leaves, what it takes and what it is charged.
* `acRun_home`: the same of the emulator, up to the frames behind it.
-/

namespace B2OS

open Fill

namespace Mos6502

section Home

variable {lowFirst : Bool} {rom ρ ρ' : WORD → BYTE} {r : Regs}

/-! ### The text window -/

/-- A window of the text screen. -/
structure TextWindow where
  left : ℕ
  width : ℕ
  top : ℕ
  bottom : ℕ
  width_pos : 0 < width
  fits : left + width ≤ 40
  top_lt : top < bottom
  bottom_le : bottom ≤ 24

namespace TextWindow

variable (w : TextWindow)

/-- The Monitor keeps the window in page zero. -/
structure In (ρ : WORD → BYTE) : Prop where
  left : (ρ (zp 0x20)).toNat = w.left
  width : (ρ (zp 0x21)).toNat = w.width
  top : (ρ (zp 0x22)).toNat = w.top
  bottom : (ρ (zp 0x23)).toNat = w.bottom

/-- The cells of the lines from `first` on, before `last`. -/
def cells (first last : ℕ) : Set (ℕ × ℕ) :=
  {p | (first ≤ p.1 ∧ p.1 < last) ∧ w.left ≤ p.2 ∧ p.2 < w.left + w.width}

instance (first last : ℕ) (p : ℕ × ℕ) : Decidable (p ∈ w.cells first last) :=
  inferInstanceAs (Decidable ((first ≤ p.1 ∧ p.1 < last) ∧ w.left ≤ p.2 ∧ p.2 < w.left + w.width))

theorem cells_union {first middle last : ℕ} (h : first ≤ middle) (h' : middle ≤ last) :
    w.cells first middle ∪ w.cells middle last = w.cells first last := by
  ext p
  simp only [cells, Set.mem_union, Set.mem_ofPred_eq]
  omega

end TextWindow

/-- The cells `S` are blanks, and outside of them and of `T` nothing has changed. -/
structure Cleared (T : Set WORD) (S : Set (ℕ × ℕ)) (ρ ρ' : WORD → BYTE) : Prop where
  blank : ∀ p ∈ S, ρ' (textAddress p.1 p.2) = 0xA0
  kept : ∀ a ∉ T, (∀ p ∈ S, textAddress p.1 p.2 ≠ a) → ρ' a = ρ a

theorem Cleared.of_eqOn {T : Set WORD} (h : Set.EqOn ρ' ρ Tᶜ) : Cleared T ∅ ρ ρ' :=
  ⟨fun _ hp => absurd hp (Set.notMem_empty _), fun _ ha _ => h ha⟩

theorem Cleared.mono {T T' : Set WORD} {S : Set (ℕ × ℕ)} (h : Cleared T S ρ ρ') (hT : T ⊆ T') :
    Cleared T' S ρ ρ' :=
  ⟨h.blank, fun a ha => h.kept a fun hin => ha (hT hin)⟩

theorem Cleared.union {ρ'' : WORD → BYTE} {T : Set WORD} {S S' : Set (ℕ × ℕ)}
    (h : Cleared T S ρ ρ') (h' : Cleared T S' ρ' ρ'')
    (hfree : ∀ p ∈ S, textAddress p.1 p.2 ∉ T) : Cleared T (S ∪ S') ρ ρ'' where
  blank := by
    rintro p (hp | hp)
    · by_cases hover : ∃ q ∈ S', textAddress q.1 q.2 = textAddress p.1 p.2
      · obtain ⟨q, hq, heq⟩ := hover
        rw [← heq]
        exact h'.blank q hq
      · rw [h'.kept _ (hfree p hp) fun q hq heq => hover ⟨q, hq, heq⟩]
        exact h.blank p hp
    · exact h'.blank p hp
  kept := fun a ha hout =>
    (h'.kept a ha fun p hp => hout p (.inr hp)).trans (h.kept a ha fun p hp => hout p (.inl hp))

theorem TextWindow.cells_mem (w : TextWindow) {first last : ℕ} (hlast : last ≤ 24) :
    ∀ p ∈ w.cells first last, textAddress p.1 p.2 ∈ highArea ∩ ramArea := by
  rintro p ⟨⟨-, hline⟩, -, hcol⟩
  exact textAddress_mem (hline.trans_le hlast) (hcol.trans_le w.fits)

theorem Cleared.kept_low {T : Set WORD} {S : Set (ℕ × ℕ)} (h : Cleared T S ρ ρ')
    (hS : ∀ p ∈ S, textAddress p.1 p.2 ∈ highArea ∩ ramArea) {a : WORD} (ha : a ∉ T)
    (hlow : a ∉ highArea) : ρ' a = ρ a :=
  h.kept a ha fun p hp heq => hlow (heq ▸ (hS p hp).1)

/-! ### The lines of the window -/

/-- From the return of `CLEOLZ` to the branch: the line comes back from the stack, and is counted
on. -/
theorem cleop_tail (lowFirst : Bool) (line : BYTE) (h : homeCode.In rom) (hpc : r.pc = 0xFC4D)
    (hc : r.c = true) (hline : ρ (stack (r.sp + 1#8)) = line) (hlt : line.toNat < 24) :
    Triple (GuestStep lowFirst rom) (At r (· = ρ)) (11, 1)
      (At { r with
        pc := 0xFC54
        sp := r.sp + 1#8
        a := line + 1
        y := 0
        c := (ρ (zp 0x23)).toNat ≤ line.toNat + 1 } (· = ρ)) := by
  rintro ⟨s, ρ⟩ ⟨rfl, hd, rfl⟩
  have hldy : Fetch rom 0xFC4D [0xA0, 0x00] 0xFC4F := h.fetch (by decide) (by decide)
  have hpla : Fetch rom 0xFC4F [0x68] 0xFC50 := h.fetch (by decide) (by decide)
  have hadc : Fetch rom 0xFC50 [0x69, 0x00] 0xFC52 := h.fetch (by decide) (by decide)
  have hcmp : Fetch rom 0xFC52 [0xC5, 0x23] 0xFC54 := h.fetch (by decide) (by decide)
  have hsc : s.c = true := hc
  have hpulled : ρ (stack (s.sp + 1#8)) = line := hline
  have hcount : BitVec.ofNat 8 ((ρ (stack (s.sp + 1#8))).toNat + (0x00 : BYTE).toNat +
      s.c.toNat) = line + 1 := by
    rw [hpulled, hsc]
    change BitVec.ofNat 8 (line.toNat + 0 + 1) = line + 1
    bv_omega
  have hcarry : decide ((ρ (zp 0x23)).toNat ≤ (BitVec.ofNat 8 ((ρ (stack (s.sp + 1#8))).toNat +
      (0x00 : BYTE).toNat + s.c.toNat)).toNat) = decide ((ρ (zp 0x23)).toNat ≤ line.toNat + 1) := by
    have hnat : (line + 1).toNat = line.toNat + 1 := by bv_omega
    rw [hcount, hnat]
  exact ⟨_, .head (ldy_im ⟨hpc, hd⟩ hldy) (.head (pla ⟨rfl, hd⟩ hpla)
    (.head (adc_im ⟨rfl, hd⟩ hadc) (.single (cmp_zp ⟨rfl, hd⟩ hcmp)))),
    Regs.ext rfl rfl hcount rfl rfl hcarry, hd, rfl⟩

/-- From `CLEOP1` to the call of `CLEOLZ`: the line goes to the stack, and its address to the
pointer. -/
theorem cleop_address (h : homeCode.In rom) (hpc : r.pc = 0xFC46) (hlt : r.a.toNat < 24)
    (hleft : (ρ (zp 0x20)).toNat < 40) :
    Triple (GuestStep lowFirst rom) (At r (· = ρ)) (67 + r.a.toNat % 2, 7)
      (At { r with
        pc := 0xFC4A
        sp := r.sp - 1#8
        a := lineLow r.a + ρ (zp 0x20)
        c := false } fun ρ₁ =>
          pointer ρ₁ 0x28 = textAddress r.a.toNat (ρ (zp 0x20)).toNat ∧
            Set.EqOn ρ₁ ρ (workArea r.sp 6)ᶜ ∧ ρ₁ (stack r.sp) = r.a) := by
  have hpha : Fetch rom 0xFC46 [0x48] 0xFC47 := h.fetch (by decide) (by decide)
  have hjsr : Fetch rom 0xFC47 [0x20, 0x24, 0xFC] 0xFC4A := h.fetch (by decide) (by decide)
  let ρ₀ := Function.update ρ (stack r.sp) r.a
  have hpush : Triple (GuestStep lowFirst rom) (At r (· = ρ)) (3, 0)
      (At { r with pc := 0xFC47, sp := r.sp - 1#8 } (· = ρ₀)) := by
    rintro ⟨s, ρ⟩ ⟨rfl, hd, rfl⟩
    exact ⟨_, .single (pha ⟨hpc, hd⟩ hpha), rfl, hd, rfl⟩
  have hwindow : pushReturn ρ₀ (r.sp - 1#8) (0xFC4A - 1#16) (zp 0x20) = ρ (zp 0x20) :=
    (pushReturn_eqOn _ _ _ (zp_notMem_stackArea _ _ _)).trans
      (Function.update_of_ne (zp_ne_stack _ _) _ _)
  have hcall : Triple (GuestStep lowFirst rom)
      (At { r with pc := 0xFC47, sp := r.sp - 1#8 } (· = ρ₀)) ((6, 1) + (58 + r.a.toNat % 2, 6))
      (At { r with
        pc := 0xFC4A
        sp := r.sp - 1#8
        a := lineLow r.a + ρ (zp 0x20)
        c := false } fun ρ₁ =>
          pointer ρ₁ 0x28 = textAddress r.a.toNat (ρ (zp 0x20)).toNat ∧
            Set.EqOn ρ₁ (pushReturn ρ₀ (r.sp - 1#8) (0xFC4A - 1#16))
              (workArea (r.sp - 1#8 - 1#8 - 1#8) 3)ᶜ) := by
    have hvtabz := vtabz_spec lowFirst
      (ρ := pushReturn ρ₀ (r.sp - 1#8) (0xFC4A - 1#16))
      (r := { r with pc := 0xFC24, sp := r.sp - 1#8 - 1#8 - 1#8 }) h rfl hlt (hwindow ▸ hleft)
    rw [hwindow] at hvtabz
    exact Returns.call (r := { r with pc := 0xFC47, sp := r.sp - 1#8 }) hjsr (by decide) rfl hvtabz
  have hpushed : stack r.sp ∈ workArea r.sp 6 := by
    refine .inl ⟨0, by decide, ?_⟩
    rw [BitVec.sub_zero]
  have hcallee : workArea (r.sp - 1#8) 5 ⊆ workArea r.sp 6 :=
    Set.union_subset_union_left _ (stackArea_sub r.sp 1 5)
  refine (hpush.seq (hcall.conseq (fun _ => id) ?_)).priced (Prod.ext ?_ rfl)
  · rintro x ⟨hregs, hd, hpointer, heq⟩
    have hkept : Set.EqOn x.2 ρ₀ (workArea (r.sp - 1#8) 5)ᶜ := workArea_call heq
    refine ⟨hregs, hd, hpointer, ?_, ?_⟩
    · exact (hkept.mono (Set.compl_subset_compl.mpr hcallee)).trans
        (eqOn_update (Set.eqOn_refl _ _) hpushed _)
    · have hout : stack r.sp ∉ workArea (r.sp - 1#8) 5 := by
        have hnot := stack_notMem_workArea (r.sp - 1#8) (k := 1) (n := 5) (by decide) (by decide)
        rwa [BitVec.sub_add_cancel] at hnot
      exact (hkept hout).trans (Function.update_self _ _ _)
  · simp only [Prod.fst_add]
    omega

/-- The call of `CLEOLZ`. -/
theorem cleop_clear (lowFirst : Bool) (h : homeCode.In rom) (w : TextWindow) {line : ℕ}
    (hlt : line < 24) (hwidth : (ρ (zp 0x21)).toNat = w.width) (hpc : r.pc = 0xFC4A)
    (hy : r.y = 0) (hc : r.c = false) (hpointer : pointer ρ 0x28 = textAddress line w.left) :
    Triple (GuestStep lowFirst rom) (At r (· = ρ))
      ((6, 1) + (14 * w.width + 7, 4 * w.width + 2))
      (At { r with pc := 0xFC4D, a := 0xA0, y := ρ (zp 0x21), c := true }
        (Cleared (stackArea r.sp 2) (w.cells line (line + 1)) ρ)) := by
  have hjsr : Fetch rom 0xFC4A [0x20, 0x9E, 0xFC] 0xFC4D := h.fetch (by decide) (by decide)
  obtain ⟨n, hn⟩ : ∃ n, w.width = n + 1 := Nat.exists_eq_succ_of_ne_zero w.width_pos.ne'
  have hfits := w.fits
  have hcells : ∀ j ≤ n, textAddress line w.left + BitVec.ofNat 16 j ∈ highArea ∩ ramArea := by
    intro j hj
    rw [textAddress_add]
    exact textAddress_mem hlt (by omega)
  let ρ₁ := pushReturn ρ r.sp (0xFC4D - 1#16)
  have hkept : ∀ b, ρ₁ (zp b) = ρ (zp b) := fun b =>
    pushReturn_eqOn _ _ _ (zp_notMem_stackArea b _ _)
  have hp : pointer ρ₁ 0x28 = textAddress line w.left := by
    rw [← hpointer, pointer, pointer, hkept, hkept]
  have hwide : (ρ₁ (zp 0x21)).toNat = n + 1 := by
    rw [hkept, hwidth, hn]
  have hcleolz := cleolz_spec lowFirst
    (r := { r with pc := 0xFC9E, sp := r.sp - 1#8 - 1#8 }) h rfl hy hc hp hwide hcells
  rw [hkept, ← hn] at hcleolz
  refine (Returns.call hjsr (by decide) hpc hcleolz).conseq (fun _ => id) ?_
  rintro x ⟨hregs, hd, hblank⟩
  refine ⟨hregs, hd, ?_, ?_⟩
  · rintro ⟨l, col⟩ ⟨⟨hfirst, hlast⟩, hleft, hright⟩
    dsimp only at hfirst hlast hleft hright ⊢
    obtain rfl : l = line := by omega
    have hstored := Fills.stored hblank (col - w.left) (Set.mem_Iio.mpr (by omega))
    rwa [textAddress_add, Nat.add_sub_cancel' hleft] at hstored
  · intro a ha hout
    refine (Fills.kept hblank a fun j hj => ?_).trans (pushReturn_eqOn _ _ _ ha)
    have hj : j < w.width := hj
    rw [textAddress_add]
    exact hout (line, w.left + j) ⟨⟨le_rfl, Nat.lt_succ_self _⟩, by dsimp only; omega⟩

/-- One line of the window. -/
theorem cleop_line (lowFirst : Bool) (h : homeCode.In rom) (w : TextWindow) (hwindow : w.In ρ)
    (hpc : r.pc = 0xFC46) (hy : r.y = 0) (hlt : r.a.toNat < 24) :
    Triple (GuestStep lowFirst rom) (At r (· = ρ))
      (91 + 14 * w.width + r.a.toNat % 2, 11 + 4 * w.width)
      (At { r with pc := 0xFC54, a := r.a + 1, y := 0, c := w.bottom ≤ r.a.toNat + 1 }
        (Cleared (workArea r.sp 6) (w.cells r.a.toNat (r.a.toNat + 1)) ρ)) := by
  have hleft : (ρ (zp 0x20)).toNat < 40 := by
    have hfits := w.fits
    have hpos := w.width_pos
    rw [hwindow.left]
    omega
  refine ((cleop_address h hpc hlt hleft).seq (At.triple fun ρ₁ ⟨hpointer, hkept, hline⟩ => ?_)
    ).priced (k := (67 + r.a.toNat % 2, 7) + ((6, 1) + (14 * w.width + 7, 4 * w.width + 2) +
      (11, 1))) (Prod.ext ?_ ?_)
  · have hzp : ∀ b, b ≠ 0x28 → b ≠ 0x29 → ρ₁ (zp b) = ρ (zp b) := fun b hlow hhigh =>
      hkept (zp_notMem_workArea hlow hhigh)
    have hclear := cleop_clear lowFirst (ρ := ρ₁)
      (r := { r with
        pc := 0xFC4A
        sp := r.sp - 1#8
        a := lineLow r.a + ρ (zp 0x20)
        c := false }) h w hlt (by rw [hzp _ (by decide) (by decide)]; exact hwindow.width) rfl hy
      rfl (by rw [hpointer, hwindow.left])
    refine hclear.seq (At.triple fun ρ₂ hρ₂ => ?_)
    have hcells : ∀ p ∈ w.cells r.a.toNat (r.a.toNat + 1),
        textAddress p.1 p.2 ∈ highArea ∩ ramArea := w.cells_mem hlt
    have hpulled : ρ₂ (stack (r.sp - 1#8 + 1#8)) = r.a := by
      have hout : stack (r.sp - 1#8 + 1#8) ∉ stackArea (r.sp - 1#8) 2 :=
        stack_notMem_stackArea (r.sp - 1#8) (k := 1) (by decide) (by decide)
      rw [hρ₂.kept_low hcells hout (stack_notMem_highArea _), BitVec.sub_add_cancel]
      exact hline
    have hbottom : (ρ₂ (zp 0x23)).toNat = w.bottom := by
      rw [hρ₂.kept_low hcells (zp_notMem_stackArea _ _ _) (zp_notMem_highArea _),
        hzp _ (by decide) (by decide)]
      exact hwindow.bottom
    have harea : stackArea (r.sp - 1#8) 2 ⊆ workArea r.sp 6 :=
      ((stackArea_sub r.sp 1 2).trans (stackArea_mono r.sp (by decide))).trans
        Set.subset_union_left
    have hcleared : Cleared (workArea r.sp 6) (w.cells r.a.toNat (r.a.toNat + 1)) ρ ρ₂ := by
      have hboth := (Cleared.of_eqOn hkept).union (hρ₂.mono harea)
        fun _ hp => absurd hp (Set.notMem_empty _)
      rwa [Set.empty_union] at hboth
    have htail := cleop_tail lowFirst r.a (ρ := ρ₂)
      (r := { r with pc := 0xFC4D, sp := r.sp - 1#8, a := 0xA0, y := ρ₁ (zp 0x21), c := true })
      h rfl rfl hpulled hlt
    refine htail.conseq (fun _ => id) ?_
    rintro x ⟨hregs, hd, rfl⟩
    refine ⟨hregs.trans (Regs.ext rfl (BitVec.sub_add_cancel _ _) rfl rfl rfl ?_), hd, hcleared⟩
    exact congrArg (fun n : ℕ => decide (n ≤ r.a.toNat + 1)) hbottom
  · simp only [Prod.fst_add]
    omega
  · simp only [Prod.snd_add]
    omega

/-! ### The routine -/

section Window

variable {w : TextWindow} {sp : BYTE} {first last : ℕ}

theorem cells_free (hlast : last ≤ 24) (n : ℕ) :
    ∀ p ∈ w.cells first last, textAddress p.1 p.2 ∉ workArea sp n := by
  rintro p ⟨⟨-, hline⟩, -, hcol⟩
  exact textAddress_notMem_workArea (hline.trans_le hlast) (hcol.trans_le w.fits) sp n

/-- What clearing leaves of page zero. -/
theorem Cleared.zp_kept (h : Cleared (workArea sp 6) (w.cells first last) ρ ρ') (hlast : last ≤ 24)
    {b : BYTE} (hlow : b ≠ 0x28) (hhigh : b ≠ 0x29) : ρ' (zp b) = ρ (zp b) :=
  h.kept_low (w.cells_mem hlast) (zp_notMem_workArea hlow hhigh) (zp_notMem_highArea b)

theorem TextWindow.In.congr (hwindow : w.In ρ)
    (h : ∀ b, 0x20 ≤ b.toNat → b.toNat < 0x24 → ρ' (zp b) = ρ (zp b)) : w.In ρ' := by
  constructor
  · rw [h _ (by decide) (by decide)]
    exact hwindow.left
  · rw [h _ (by decide) (by decide)]
    exact hwindow.width
  · rw [h _ (by decide) (by decide)]
    exact hwindow.top
  · rw [h _ (by decide) (by decide)]
    exact hwindow.bottom

theorem TextWindow.In.cleared (hwindow : w.In ρ)
    (h : Cleared (workArea sp 6) (w.cells first last) ρ ρ') (hlast : last ≤ 24) : w.In ρ' := by
  refine hwindow.congr fun b _ hlt => h.zp_kept hlast ?_ ?_
  · rintro rfl
    exact absurd hlt (by decide)
  · rintro rfl
    exact absurd hlt (by decide)

theorem Cleared.returnAddress (h : Cleared (workArea sp 6) (w.cells first last) ρ ρ')
    (hlast : last ≤ 24) : returnAddress ρ' sp = Mos6502.returnAddress ρ sp := by
  have hkept : ∀ k, 0 < k → k ≤ 2 →
      ρ' (stack (sp + BitVec.ofNat 8 k)) = ρ (stack (sp + BitVec.ofNat 8 k)) := fun k hk hle =>
    h.kept_low (w.cells_mem hlast) (stack_notMem_workArea sp hk (by omega))
      (stack_notMem_highArea _)
  have htwo : sp + 1#8 + 1#8 = sp + 2#8 := BitVec.add_assoc _ _ _
  rw [Mos6502.returnAddress, Mos6502.returnAddress, htwo]
  exact congrArg₂ (fun h l : BYTE => (h ++ l : WORD) + 1#16) (hkept 2 (by decide) le_rfl)
    (hkept 1 (by decide) (by decide))

end Window

/-- The registers at `CLEOP1` before line `i` of the window, whatever the carry. -/
def AtLine (w : TextWindow) (r : Regs) (ρ : WORD → BYTE) (i : ℕ) (x : State × (WORD → BYTE)) :
    Prop :=
  ∃ c, At { r with pc := 0xFC46, a := BitVec.ofNat 8 (w.top + i), y := 0, c := c }
    (Cleared (workArea r.sp 6) (w.cells w.top (w.top + i)) ρ) x

/-- A line of the window, up to the branch. -/
theorem atLine_body (lowFirst : Bool) (h : homeCode.In rom) {w : TextWindow} (hwindow : w.In ρ)
    {i : ℕ} (hi : w.top + i < w.bottom) :
    Triple (GuestStep lowFirst rom) (AtLine w r ρ i)
      (91 + 14 * w.width + (w.top + i) % 2, 11 + 4 * w.width)
      (At { r with
        pc := 0xFC54
        a := BitVec.ofNat 8 (w.top + (i + 1))
        y := 0
        c := w.bottom ≤ w.top + (i + 1) }
        (Cleared (workArea r.sp 6) (w.cells w.top (w.top + (i + 1))) ρ)) := by
  have hbottom := w.bottom_le
  have hline : (BitVec.ofNat 8 (w.top + i)).toNat = w.top + i := Nat.mod_eq_of_lt (by omega)
  rintro ⟨s, ρ₁⟩ ⟨c, hat⟩
  have hwindow₁ := hwindow.cleared hat.ram (by omega)
  have hbody := cleop_line lowFirst (ρ := ρ₁)
    (r := { r with pc := 0xFC46, a := BitVec.ofNat 8 (w.top + i), y := 0, c := c }) h w hwindow₁ rfl
    rfl (by rw [hline]; omega)
  rw [hline] at hbody
  obtain ⟨y, hreaches, hregs, hd, hcleared⟩ := hbody (s, ρ₁) ⟨hat.regs, hat.decimal, rfl⟩
  refine ⟨y, hreaches, hregs.trans (Regs.ext rfl rfl ?_ rfl rfl rfl), hd, ?_⟩
  · exact (BitVec.ofNat_add (w.top + i) 1).symm
  · have hboth := hat.ram.union hcleared (cells_free (by omega) 6)
    rwa [w.cells_union (Nat.le_add_right _ _) (Nat.le_succ _)] at hboth

/-- What `n` lines from `top` on cost, of which the odd ones take a cycle more. -/
theorem sum_lines (top width n : ℕ) :
    ∑ i ∈ Finset.range n, (94 + 14 * width + (top + i) % 2, 11 + 4 * width) =
      ((94 + 14 * width) * n + ((top + n) / 2 - top / 2), (11 + 4 * width) * n) := by
  induction n with
  | zero =>
      rw [Finset.sum_range_zero]
      exact Prod.ext (by simp) rfl
  | succ n ih =>
      rw [Finset.sum_range_succ, ih, Nat.mul_succ, Nat.mul_succ]
      refine Prod.ext ?_ rfl
      simp only [Prod.fst_add]
      omega

/-- All lines of the window, and then the pointer to the first one. -/
theorem cleop_spec (lowFirst : Bool) (h : homeCode.In rom) {w : TextWindow} (hwindow : w.In ρ)
    (hline : ρ (zp 0x25) = ρ (zp 0x22)) (hpc : r.pc = 0xFC46) (ha : r.a = ρ (zp 0x22))
    (hy : r.y = 0) :
    Returns lowFirst rom r ρ
      ((94 + 14 * w.width) * (w.bottom - w.top) + (w.bottom / 2 - w.top / 2) + 63 + w.top % 2,
        (11 + 4 * w.width) * (w.bottom - w.top) + 6)
      { r with a := lineLow (ρ (zp 0x22)) + ρ (zp 0x20), y := 0, c := false }
      fun ρ' => Cleared (workArea r.sp 6) (w.cells w.top w.bottom) ρ ρ' ∧
        pointer ρ' 0x28 = textAddress w.top w.left := by
  have hbcc : Fetch rom 0xFC54 [0x90, 0xF0] 0xFC56 := h.fetch (by decide) (by decide)
  have hbcs : Fetch rom 0xFC56 [0xB0, 0xCA] 0xFC58 := h.fetch (by decide) (by decide)
  have hlda : Fetch rom 0xFC22 [0xA5, 0x25] 0xFC24 := h.fetch (by decide) (by decide)
  have hbottom := w.bottom_le
  obtain ⟨n, hn⟩ : ∃ n, w.bottom = w.top + n + 1 := Nat.exists_eq_add_of_lt w.top_lt
  have hstart : ∀ x, At r (· = ρ) x → AtLine w r ρ 0 x := by
    rintro x ⟨hregs, hd, hram⟩
    have hfirst : r.a = BitVec.ofNat 8 (w.top + 0) := by
      rw [ha, Nat.add_zero, ← hwindow.top, BitVec.ofNat_toNat, BitVec.setWidth_eq]
    refine ⟨r.c, hregs.trans (Regs.ext hpc rfl hfirst rfl hy rfl), hd, ?_, ?_⟩
    · rintro p ⟨⟨hle, hlt⟩, -⟩
      omega
    · intro a _ _
      rw [hram]
  have hturn : ∀ i < n, Triple (GuestStep lowFirst rom) (AtLine w r ρ i)
      (94 + 14 * w.width + (w.top + i) % 2, 11 + 4 * w.width) (AtLine w r ρ (i + 1)) := by
    intro i hi
    have hbody := atLine_body lowFirst (r := r) h hwindow (i := i) (by omega)
    have hmore : decide (w.bottom ≤ w.top + (i + 1)) = false := decide_eq_false (by omega)
    rw [hmore] at hbody
    refine ((hbody.seq (At.bcc_to hbcc rfl rfl (by decide) (by decide))).conseq (fun _ => id)
      fun x hx => ⟨false, hx⟩).priced (Prod.ext ?_ rfl)
    simp only [Prod.fst_add]
    omega
  have hlast : Triple (GuestStep lowFirst rom) (AtLine w r ρ n)
      (99 + 14 * w.width + (w.top + n) % 2, 11 + 4 * w.width)
      (At { r with pc := 0xFC24, a := ρ (zp 0x22), y := 0, c := true }
        (Cleared (workArea r.sp 6) (w.cells w.top w.bottom) ρ)) := by
    have hbody := atLine_body lowFirst (r := r) h hwindow (i := n) (by omega)
    have hdone : decide (w.bottom ≤ w.top + (n + 1)) = true := decide_eq_true (by omega)
    have hend : w.top + (n + 1) = w.bottom := by omega
    rw [hdone, hend] at hbody
    have hcv : ∀ ρ₁, Cleared (workArea r.sp 6) (w.cells w.top w.bottom) ρ ρ₁ →
        ρ₁ (zp 0x25) = ρ (zp 0x22) := fun ρ₁ hρ₁ =>
      (hρ₁.zp_kept hbottom (by decide) (by decide)).trans hline
    refine (hbody.seq ((At.bcc_past hbcc rfl rfl).seq
      ((At.bcs_to hbcs rfl rfl (by decide) (by decide)).seq
        (At.lda_zp hlda rfl hcv)))).priced (Prod.ext ?_ rfl)
    simp only [Prod.fst_add]
    omega
  have hreturn : ∀ ρ₁, Cleared (workArea r.sp 6) (w.cells w.top w.bottom) ρ ρ₁ →
      Triple (GuestStep lowFirst rom)
        (At { r with pc := 0xFC24, a := ρ (zp 0x22), y := 0, c := true } (· = ρ₁))
        (58 + w.top % 2, 6)
        (At { r with
          pc := returnAddress ρ r.sp
          sp := r.sp + 1#8 + 1#8
          a := lineLow (ρ (zp 0x22)) + ρ (zp 0x20)
          y := 0
          c := false } fun ρ' => Cleared (workArea r.sp 6) (w.cells w.top w.bottom) ρ ρ' ∧
            pointer ρ' 0x28 = textAddress w.top w.left) := by
    intro ρ₁ hρ₁
    have hleft : ρ₁ (zp 0x20) = ρ (zp 0x20) := hρ₁.zp_kept hbottom (by decide) (by decide)
    have htop := w.top_lt
    have hpos := w.width_pos
    have hfits := w.fits
    have hvtabz := vtabz_spec lowFirst (ρ := ρ₁)
      (r := { r with pc := 0xFC24, a := ρ (zp 0x22), y := 0, c := true }) h rfl
      (by rw [hwindow.top]; omega) (by rw [hleft, hwindow.left]; omega)
    rw [hwindow.top, hleft, hwindow.left] at hvtabz
    refine hvtabz.conseq (fun _ => id) ?_
    rintro x ⟨hregs, hd, hpointer, hkept⟩
    have harea : workArea r.sp 3 ⊆ workArea r.sp 6 :=
      Set.union_subset_union_left _ (stackArea_mono r.sp (by decide))
    have hboth := hρ₁.union ((Cleared.of_eqOn hkept).mono harea) (cells_free hbottom 6)
    rw [Set.union_empty] at hboth
    exact ⟨hregs.trans (Regs.ext (hρ₁.returnAddress hbottom) rfl rfl rfl rfl rfl), hd, hboth,
      hpointer⟩
  have hloop := ((Triple.turns n hturn).seq (hlast.seq (At.triple hreturn))).conseq hstart
    fun _ => id
  have hrows : w.bottom - w.top = n + 1 := by omega
  rw [sum_lines] at hloop
  refine hloop.priced (Prod.ext ?_ ?_)
  · simp only [Prod.fst_add, hrows, Nat.mul_succ]
    omega
  · simp only [Prod.snd_add, hrows, Nat.mul_succ]
    omega

/-- What `HOME` leaves: a window of blanks, and the cursor in its first cell. -/
structure Homed (w : TextWindow) (sp : BYTE) (ρ ρ' : WORD → BYTE) : Prop where
  blank : ∀ p ∈ w.cells w.top w.bottom, ρ' (textAddress p.1 p.2) = 0xA0
  column : ρ' (zp 0x24) = 0
  line : (ρ' (zp 0x25)).toNat = w.top
  pointer : pointer ρ' 0x28 = textAddress w.top w.left
  kept : ∀ a ∉ workArea sp 6 ∪ {zp 0x24, zp 0x25},
    (∀ p ∈ w.cells w.top w.bottom, textAddress p.1 p.2 ≠ a) → ρ' a = ρ a

/-- The cycles that `HOME` takes. -/
def TextWindow.homeCycles (w : TextWindow) : ℕ :=
  (94 + 14 * w.width) * (w.bottom - w.top) + (w.bottom / 2 - w.top / 2) + 77 + w.top % 2

/-- `HOME` clears the window. -/
theorem home_spec (lowFirst : Bool) (h : homeCode.In rom) {w : TextWindow} (hwindow : w.In ρ)
    (hpc : r.pc = 0xFC58) :
    Returns lowFirst rom r ρ (w.homeCycles, (11 + 4 * w.width) * (w.bottom - w.top) + 6)
      { r with a := lineLow (ρ (zp 0x22)) + ρ (zp 0x20), y := 0, c := false }
      (Homed w r.sp ρ) := by
  have hlda : Fetch rom 0xFC58 [0xA5, 0x22] 0xFC5A := h.fetch (by decide) (by decide)
  have hsta : Fetch rom 0xFC5A [0x85, 0x25] 0xFC5C := h.fetch (by decide) (by decide)
  have hldy : Fetch rom 0xFC5C [0xA0, 0x00] 0xFC5E := h.fetch (by decide) (by decide)
  have hsty : Fetch rom 0xFC5E [0x84, 0x24] 0xFC60 := h.fetch (by decide) (by decide)
  have hbeq : Fetch rom 0xFC60 [0xF0, 0xE4] 0xFC62 := h.fetch (by decide) (by decide)
  have hback : (0xFC62 : WORD) + (0xE4 : BYTE).signExtend 16 = 0xFC46 := by decide
  let ρ₁ := Function.update (Function.update ρ (zp 0x25) (ρ (zp 0x22))) (zp 0x24) 0
  have hstart : Triple (GuestStep lowFirst rom) (At r (· = ρ)) (14, 0)
      (At { r with pc := 0xFC46, a := ρ (zp 0x22), y := 0 } (· = ρ₁)) := by
    rintro ⟨s, ρ⟩ ⟨rfl, hd, rfl⟩
    exact ⟨_, .head (lda_zp ⟨hpc, hd⟩ hlda) (.head (sta_zp ⟨rfl, hd⟩ hsta)
      (.head (ldy_im ⟨rfl, hd⟩ hldy) (.head (sty_zp ⟨rfl, hd⟩ hsty)
      (.single (beq_to ⟨rfl, hd⟩ hbeq rfl hback (by decide)))))),
      rfl, hd, rfl⟩
  have hkept : Set.EqOn ρ₁ ρ {zp 0x24, zp 0x25}ᶜ :=
    eqOn_update (eqOn_update (Set.eqOn_refl _ _) (.inr rfl) _) (.inl rfl) _
  have hzp : ∀ b, b ≠ 0x24 → b ≠ 0x25 → ρ₁ (zp b) = ρ (zp b) := by
    rintro b hcolumn hline
    refine hkept ?_
    rintro (heq | heq)
    · exact hcolumn (zp_inj.mp heq)
    · exact hline (zp_inj.mp heq)
  have htop : ρ₁ (zp 0x22) = ρ (zp 0x22) := hzp _ (by decide) (by decide)
  have hleft : ρ₁ (zp 0x20) = ρ (zp 0x20) := hzp _ (by decide) (by decide)
  have hcv : ρ₁ (zp 0x25) = ρ (zp 0x22) := by
    have hne : zp 0x25 ≠ zp 0x24 := by
      rw [Ne, zp_inj]
      decide
    exact (Function.update_of_ne hne _ _).trans (Function.update_self _ _ _)
  have hwindow₁ : w.In ρ₁ := by
    refine hwindow.congr fun b _ hlt => hzp b ?_ ?_
    · rintro rfl
      exact absurd hlt (by decide)
    · rintro rfl
      exact absurd hlt (by decide)
  have hreturn : returnAddress ρ₁ r.sp = returnAddress ρ r.sp :=
    (returnAddress_update_zp _ _ _ _).trans (returnAddress_update_zp _ _ _ _)
  have hcleop := cleop_spec lowFirst (ρ := ρ₁)
    (r := { r with pc := 0xFC46, a := ρ (zp 0x22), y := 0 }) h hwindow₁ (hcv.trans htop.symm) rfl
    htop.symm rfl
  rw [htop, hleft] at hcleop
  refine ((hstart.seq hcleop).conseq (fun _ => id) ?_).priced ?_
  · rintro x ⟨hregs, hd, hcleared, hpointer⟩
    refine ⟨hregs.trans (Regs.ext hreturn rfl rfl rfl rfl rfl), hd, hcleared.blank, ?_, ?_,
      hpointer, ?_⟩
    · exact (hcleared.zp_kept w.bottom_le (by decide) (by decide)).trans
        (Function.update_self _ _ _)
    · rw [hcleared.zp_kept w.bottom_le (by decide) (by decide), hcv]
      exact hwindow.top
    · exact fun a ha hout => (hcleared.kept a (fun hin => ha (.inl hin)) hout).trans
        (hkept fun hin => ha (.inr hin))
  · refine Prod.ext ?_ ?_
    · simp only [Prod.fst_add, TextWindow.homeCycles]
      omega
    · simp only [Prod.snd_add]
      omega

end Home

end Mos6502

/-! ### The screen -/

section Screen

open Mos6502 Raster Device

variable {m : Machine} {fonts : Fonts} {frame : ℤ} {ρ : WORD → BYTE} {x y : ℕ}

/-- What `ad_Render` shows of a text cell of the first page. -/
theorem render_cell (fonts : Fonts) (frame : ℤ) (hdisplay : DisplayInv m.device)
    (hpage : m.device.videoPage = 1) (hx : x < SCREENSIZE_X) (hy : y < SCREENSIZE_Y)
    (htext : ShowsText m.device y) :
    pixel SCREENSIZE_X (m.adRender fonts frame).device.colorbuffer x y =
      textDot fonts frame (m.byteAt (textAddress (y / 8) (x / 7))) (x % 7) (y % 8) := by
  change pixel SCREENSIZE_X (m.device.adRender m.byteAt fonts frame).colorbuffer x y = _
  rw [(adRender_spec m.byteAt fonts frame hdisplay).pixel x y hx hy, if_pos (Or.inl htext), picture,
    if_pos htext, glyphOf, glyphAt, hpage]
  rfl

/-- A blank is dark, in the tables that `ad_Create` builds. -/
theorem textDot_blank (hfonts : ∀ n < Apple2.FONT_NUM, ∀ y < FONT_Y, ∀ x < FONT_X,
      fonts.af_font n (y * FONT_X + x) = Apple2.fontDot Apple2.normalfont n x y)
    (hx : x < FONT_X) (hy : y < FONT_Y) : textDot fonts frame 0xA0 x y = 0 := by
  have hall : ∀ y < FONT_Y, ∀ x < FONT_X, Apple2.fontDot Apple2.normalfont 0x20 x y = 0 := by
    decide +kernel
  have hdark : fonts.af_font 0x20 (y * FONT_X + x) = 0 := by
    rw [hfonts 0x20 (by decide) y hy x hx, hall y hy x hx]
  have hattr : fontAttr 0xA0 = .FONT_NORMAL := by decide
  have hnum : (fontNum 0xA0).toNat = 0x20 := by decide
  rw [textDot, hattr, hnum, if_pos (Or.inl rfl), hdark]
  rfl

/-- The text outside of the window stays. -/
theorem Mos6502.Homed.cell_kept {w : TextWindow} {sp : BYTE} {ρ' : WORD → BYTE} {line col : ℕ}
    (h : Homed w sp ρ ρ') (hline : line < 24) (hcol : col < 40)
    (hout : (line, col) ∉ w.cells w.top w.bottom) :
    ρ' (textAddress line col) = ρ (textAddress line col) := by
  have hhigh := (textAddress_mem hline hcol).1
  refine h.kept _ ?_ ?_
  · rintro (hwork | hzp | hzp)
    · exact textAddress_notMem_workArea hline hcol sp 6 hwork
    · exact zp_notMem_highArea _ (hzp ▸ hhigh)
    · exact zp_notMem_highArea _ (Set.mem_singleton_iff.mp hzp ▸ hhigh)
  · rintro ⟨line', col'⟩ hin heq
    obtain ⟨rfl, rfl⟩ := textAddress_inj (hin.1.2.trans_le w.bottom_le) hline
      (hin.2.2.trans_le w.fits) hcol heq
    exact hout hin

/-- What `ad_Render` shows behind `HOME`. -/
theorem render_home {w : TextWindow} {sp : BYTE} (hhome : Homed w sp m.byteAt ρ)
    (hdisplay : DisplayInv m.device) (hpage : m.device.videoPage = 1)
    (hfonts : ∀ n < Apple2.FONT_NUM, ∀ y < FONT_Y, ∀ x < FONT_X,
      fonts.af_font n (y * FONT_X + x) = Apple2.fontDot Apple2.normalfont n x y)
    (hx : x < SCREENSIZE_X) (hy : y < SCREENSIZE_Y) (htext : ShowsText m.device y) :
    pixel SCREENSIZE_X ((m.loaded ρ).adRender fonts frame).device.colorbuffer x y =
      if (y / 8, x / 7) ∈ w.cells w.top w.bottom then 0
      else pixel SCREENSIZE_X (m.adRender fonts frame).device.colorbuffer x y := by
  have hline : y / 8 < 24 := by
    rw [SCREENSIZE_Y] at hy
    omega
  have hcol : x / 7 < 40 := col_lt hx
  have hmem := (textAddress_mem hline hcol).2
  have hcell := render_cell (m := m.loaded ρ) fonts frame hdisplay hpage hx hy
    htext
  rw [m.byteAt_loaded ρ hmem] at hcell
  rw [hcell]
  by_cases hin : (y / 8, x / 7) ∈ w.cells w.top w.bottom
  · rw [if_pos hin, hhome.blank _ hin]
    exact textDot_blank hfonts (Nat.mod_lt _ (by decide)) (Nat.mod_lt _ (by decide))
  · rw [if_neg hin, hhome.cell_kept hline hcol hin, render_cell _ _ hdisplay hpage hx hy htext]

/-- **The Monitor's `HOME` on the emulator, up to the screen.** The code of the ROM clears the
window and puts the cursor in its first cell, in the cycles of the processor; `ac_Run` charges
`(11 + 4 w) h + 6` for a window of `h` lines and `w` columns. Where `ad_Render` shows the first
text page, the frames behind it have a black window, and outside of it they show what they have
shown before. -/
theorem acRun_home (order : EvalOrder) (c : Cpu) (m : Machine) (w : TextWindow) (fonts : Fonts)
    (hcode : homeCode.In m.byteAt) (hwindow : w.In m.byteAt) (hpc : c.PC = 0xFC58)
    (hD : c.PS.D = false) (hU : c.PS.Unused = true) (hdisplay : DisplayInv m.device)
    (hpage : m.device.videoPage = 1)
    (hfonts : ∀ n < Apple2.FONT_NUM, ∀ y < FONT_Y, ∀ x < FONT_X,
      fonts.af_font n (y * FONT_X + x) = Apple2.fontDot Apple2.normalfont n x y) :
    ∃ s ρ, ComesTo order c m (w.homeCycles, (11 + 4 * w.width) * (w.bottom - w.top) + 6) s ρ ∧
      s.pc = returnAddress m.byteAt c.SP ∧ s.sp = c.SP + 2 ∧ s.x = c.X ∧
      Homed w c.SP m.byteAt ρ ∧
      ∀ frame x y, x < SCREENSIZE_X → y < SCREENSIZE_Y → ShowsText m.device y →
        pixel SCREENSIZE_X ((m.loaded ρ).adRender fonts frame).device.colorbuffer x y =
          if (y / 8, x / 7) ∈ w.cells w.top w.bottom then 0
          else pixel SCREENSIZE_X (m.adRender fonts frame).device.colorbuffer x y := by
  have hhome := home_spec (order == .leftFirst) (ρ := m.byteAt) (r := c.view.regs)
    hcode hwindow hpc
  obtain ⟨⟨s, ρ⟩, hreaches, hregs, -, hhomed⟩ := hhome (c.view, m.byteAt) ⟨rfl, hD, rfl⟩
  refine ⟨s, ρ, comesTo_of_reaches hreaches hU, congrArg Regs.pc hregs, ?_,
    congrArg Regs.x hregs, hhomed, fun frame x y hx hy htext => ?_⟩
  · exact (congrArg Regs.sp hregs).trans (BitVec.add_assoc _ _ _)
  · exact render_home hhomed hdisplay hpage hfonts hx hy htext

/-- `HOME` with a window of the whole screen: the screen is black. -/
theorem acRun_home_screen :
    let image : ℕ → BYTE := fun a =>
      if a < 0x2C22 then [0x48, 0x4A, 0x29, 0x03, 0x09, 0x04, 0x85, 0x29, 0x68, 0x29, 0x18, 0x90,
        0x02, 0x69, 0x7F, 0x85, 0x28, 0x0A, 0x0A, 0x05, 0x28, 0x85, 0x28, 0x60].getD (a - 0x2BC1) 0
      else if a < 0x2C46 then [0xA5, 0x25, 0x20, 0xC1, 0xFB, 0x65, 0x20, 0x85, 0x28, 0x60].getD
        (a - 0x2C22) 0
      else if a < 0x2C9E then [0x48, 0x20, 0x24, 0xFC, 0x20, 0x9E, 0xFC, 0xA0, 0x00, 0x68, 0x69,
        0x00, 0xC5, 0x23, 0x90, 0xF0, 0xB0, 0xCA, 0xA5, 0x22, 0x85, 0x25, 0xA0, 0x00, 0x84, 0x24,
        0xF0, 0xE4].getD (a - 0x2C46) 0
      else [0xA9, 0xA0, 0x91, 0x28, 0xC8, 0xC4, 0x21, 0x90, 0xF9, 0x60].getD (a - 0x2C9E) 0
    let m : Machine :=
      { Machine.initial with
        device := Machine.initial.device.adReset
        mem := { Machine.initial.mem with
          ram := fun i => [0, 40, 0, 24].getD (i.val - 0x20) 0
          rom := fun i => image i.val } }
    let c : Cpu := ⟨0x00, 0x11, 0x22, 0xF0, 0xFC58, .ofByte 0x20⟩
    let fonts : Fonts :=
      ⟨fun n pos => Apple2.fontDot Apple2.normalfont n (pos % FONT_X) (pos / FONT_X), fun _ _ => 0⟩
    ∃ s ρ, ComesTo .leftFirst c m (15785, 4110) s ρ ∧ s.sp = 0xF2 ∧
      ∀ x y, x < SCREENSIZE_X → y < SCREENSIZE_Y →
        pixel SCREENSIZE_X ((m.loaded ρ).adRender fonts 0).device.colorbuffer x y = 0 := by
  intro image m c fonts
  let w : TextWindow := ⟨0, 40, 0, 24, by decide, by decide, by decide, by decide⟩
  have hcode : homeCode.In m.byteAt := by decide
  have hwindow : w.In m.byteAt := ⟨by decide, by decide, by decide, by decide⟩
  have hfonts : ∀ n < Apple2.FONT_NUM, ∀ y < FONT_Y, ∀ x < FONT_X,
      fonts.af_font n (y * FONT_X + x) = Apple2.fontDot Apple2.normalfont n x y := by
    intro n _ y _ x hx
    have hcol : (y * FONT_X + x) % FONT_X = x := by
      rw [Nat.mul_add_mod_self_right, Nat.mod_eq_of_lt hx]
    have hrow : (y * FONT_X + x) / FONT_X = y := by
      rw [Nat.mul_comm, Nat.mul_add_div (by decide), Nat.div_eq_of_lt hx, Nat.add_zero]
    change Apple2.fontDot Apple2.normalfont n ((y * FONT_X + x) % FONT_X)
      ((y * FONT_X + x) / FONT_X) = _
    rw [hcol, hrow]
  obtain ⟨s, ρ, hcomes, -, hsp, -, -, hscreen⟩ := acRun_home .leftFirst c m w fonts hcode hwindow
    rfl rfl rfl (displayInv_adReset _) rfl hfonts
  have hprice : (w.homeCycles, (11 + 4 * w.width) * (w.bottom - w.top) + 6) = (15785, 4110) := by
    decide
  refine ⟨s, ρ, hprice ▸ hcomes, hsp, fun x y hx hy => (hscreen 0 x y hx hy (Or.inl rfl)).trans ?_⟩
  have hline : y / 8 < 24 := by
    rw [SCREENSIZE_Y] at hy
    omega
  exact if_pos ⟨⟨Nat.zero_le _, hline⟩, Nat.zero_le _, col_lt hx⟩

end Screen

end B2OS
