import B2OS.Apple2.GuestCode

/-!
# Subroutines of Guest Code

A routine is specified by the registers that it is called with and those that it leaves. The flags
`N`, `V` and `Z` are open on both sides, which most callers do not look at.

## Main results

* `Returns.call`: the rule of `JSR`.
* `returnAddress_congr`, `stack_notMem_stackArea`: what a routine does below its stack pointer, its
  return address survives.
-/

namespace B2OS

namespace Mos6502

/-- What routines pass to each other: the program counter, the registers and the carry. -/
@[ext]
structure Regs where
  pc : WORD
  sp : BYTE
  a : BYTE
  x : BYTE
  y : BYTE
  c : Bool
deriving DecidableEq, Repr

def State.regs (s : State) : Regs := ⟨s.pc, s.sp, s.a, s.x, s.y, s.c⟩

/-- The processor is **at** `r`, with the decimal mode off, and the RAM is as `Φ` says. -/
structure At (r : Regs) (Φ : (WORD → BYTE) → Prop) (x : State × (WORD → BYTE)) : Prop where
  regs : x.1.regs = r
  decimal : x.1.d = false
  ram : Φ x.2

section Calls

variable {lowFirst : Bool} {rom ρ ρ' : WORD → BYTE} {r r' : Regs} {k : ℕ × ℕ}
  {Φ : (WORD → BYTE) → Prop} {Q : State × (WORD → BYTE) → Prop}

/-- A rule holds of a set of memories when it holds of each of them. -/
theorem At.triple (h : ∀ ρ, Φ ρ → Triple (GuestStep lowFirst rom) (At r (· = ρ)) k Q) :
    Triple (GuestStep lowFirst rom) (At r Φ) k Q :=
  fun x hx => h x.2 hx.ram x ⟨hx.regs, hx.decimal, rfl⟩

/-- A call of the routine at `r.pc` **returns** with `r'` in the registers, and with the RAM as `Φ`
says. -/
def Returns (lowFirst : Bool) (rom : WORD → BYTE) (r : Regs) (ρ : WORD → BYTE) (k : ℕ × ℕ)
    (r' : Regs) (Φ : (WORD → BYTE) → Prop) : Prop :=
  Triple (GuestStep lowFirst rom) (At r (· = ρ)) k
    (At { r' with pc := returnAddress ρ r.sp, sp := r.sp + 1#8 + 1#8 } Φ)

/-! ### The stack -/

/-- The `n` bytes of the stack below `sp`, from the one that the next push takes. -/
def stackArea (sp : BYTE) (n : ℕ) : Set WORD := {a | ∃ i < n, a = stack (sp - BitVec.ofNat 8 i)}

theorem stackArea_mono (sp : BYTE) {n n' : ℕ} (h : n ≤ n') : stackArea sp n ⊆ stackArea sp n' :=
  fun _ ⟨i, hi, ha⟩ => ⟨i, hi.trans_le h, ha⟩

/-- What a routine uses behind `k` pushes. -/
theorem stackArea_sub (sp : BYTE) (k n : ℕ) :
    stackArea (sp - BitVec.ofNat 8 k) n ⊆ stackArea sp (k + n) := by
  rintro a ⟨i, hi, rfl⟩
  refine ⟨k + i, Nat.add_lt_add_left hi k, ?_⟩
  rw [BitVec.ofNat_add, BitVec.sub_sub]

theorem stack_notMem_stackArea (sp : BYTE) {k n : ℕ} (hk : 0 < k) (hn : k + n ≤ 256) :
    stack (sp + BitVec.ofNat 8 k) ∉ stackArea sp n := by
  rintro ⟨i, hi, heq⟩
  rw [stack_inj] at heq
  bv_omega

theorem zp_notMem_stackArea (b sp : BYTE) (n : ℕ) : zp b ∉ stackArea sp n := by
  rintro ⟨i, -, heq⟩
  exact zp_ne_stack _ _ heq

/-- Everything but page zero and the stack. -/
def highArea : Set WORD := {a | 0x200 ≤ a.toNat}

theorem zp_notMem_highArea (b : BYTE) : zp b ∉ highArea := by
  intro hhigh
  have hle : 0x200 ≤ (zp b).toNat := hhigh
  have hb := b.isLt
  rw [toNat_zp] at hle
  omega

theorem stack_notMem_highArea (sp : BYTE) : stack sp ∉ highArea := by
  intro hhigh
  have hle : 0x200 ≤ (stack sp).toNat := hhigh
  have hsp := sp.isLt
  rw [toNat_stack] at hle
  omega

/-- A store inside `T` leaves what is outside of it. -/
theorem eqOn_update {T : Set WORD} {a : WORD} (h : Set.EqOn ρ' ρ Tᶜ) (ha : a ∈ T) (v : BYTE) :
    Set.EqOn (Function.update ρ' a v) ρ Tᶜ := by
  intro b hb
  have hne : b ≠ a := fun heq => hb (heq ▸ ha)
  rw [Function.update_of_ne hne]
  exact h hb

/-- A return address stays as long as its bytes do. -/
theorem returnAddress_congr {sp : BYTE} {T : Set WORD} (h : Set.EqOn ρ' ρ Tᶜ)
    (hfirst : stack (sp + 1#8) ∉ T) (hsecond : stack (sp + 2#8) ∉ T) :
    returnAddress ρ' sp = returnAddress ρ sp := by
  have htwo : sp + 1#8 + 1#8 = sp + 2#8 := BitVec.add_assoc _ _ _
  rw [returnAddress, returnAddress, htwo, h hfirst, h hsecond]

theorem returnAddress_update_zp (ρ : WORD → BYTE) (b v sp : BYTE) :
    returnAddress (Function.update ρ (zp b) v) sp = returnAddress ρ sp :=
  returnAddress_congr (T := {zp b})
    (eqOn_update (Set.eqOn_refl _ _) (Set.mem_singleton _) _)
    (fun heq => zp_ne_stack _ _ heq.symm) (fun heq => zp_ne_stack _ _ heq.symm)

theorem returnAddress_pushReturn (ρ : WORD → BYTE) (sp : BYTE) (last : WORD) :
    returnAddress (pushReturn ρ sp last) (sp - 1#8 - 1#8) = last + 1#16 := by
  have hne : stack sp ≠ stack (sp - 1#8) := by
    rw [Ne, stack_inj]
    bv_omega
  have hbytes : hi last ++ lo last = last :=
    @BitVec.extractLsb'_append_extractLsb' 8 8 last
  rw [returnAddress, pushReturn, BitVec.sub_add_cancel, BitVec.sub_add_cancel,
    Function.update_of_ne hne, Function.update_self, Function.update_self, hbytes]

theorem pushReturn_eqOn (ρ : WORD → BYTE) (sp : BYTE) (last : WORD) :
    Set.EqOn (pushReturn ρ sp last) ρ (stackArea sp 2)ᶜ := by
  intro a ha
  have hfirst : a ≠ stack sp := by
    rintro rfl
    exact ha ⟨0, by decide, by rw [BitVec.sub_zero]⟩
  have hsecond : a ≠ stack (sp - 1#8) := by
    rintro rfl
    exact ha ⟨1, by decide, rfl⟩
  rw [pushReturn, Function.update_of_ne hsecond, Function.update_of_ne hfirst]

/-! ### Branches and calls -/

section Branches

variable {pc next target : WORD} {b : BYTE}

theorem At.bcc_to (hf : Fetch rom pc [0x90, b] next) (hpc : r.pc = pc) (hc : r.c = false)
    (htarget : next + b.signExtend 16 = target) (hpage : hi target = hi next) :
    Triple (GuestStep lowFirst rom) (At r Φ) (3, 0) (At { r with pc := target } Φ) := by
  rintro ⟨s, ρ⟩ ⟨rfl, hd, hram⟩
  exact ⟨_, .single (Mos6502.bcc_to ⟨hpc, hd⟩ hf hc htarget hpage), rfl, hd, hram⟩

theorem At.bcc_past (hf : Fetch rom pc [0x90, b] next) (hpc : r.pc = pc) (hc : r.c = true) :
    Triple (GuestStep lowFirst rom) (At r Φ) (2, 0) (At { r with pc := next } Φ) := by
  rintro ⟨s, ρ⟩ ⟨rfl, hd, hram⟩
  exact ⟨_, .single (Mos6502.bcc_past ⟨hpc, hd⟩ hf hc), rfl, hd, hram⟩

theorem At.bcs_to (hf : Fetch rom pc [0xB0, b] next) (hpc : r.pc = pc) (hc : r.c = true)
    (htarget : next + b.signExtend 16 = target) (hpage : hi target = hi next) :
    Triple (GuestStep lowFirst rom) (At r Φ) (3, 0) (At { r with pc := target } Φ) := by
  rintro ⟨s, ρ⟩ ⟨rfl, hd, hram⟩
  exact ⟨_, .single (Mos6502.bcs_to ⟨hpc, hd⟩ hf hc htarget hpage), rfl, hd, hram⟩

theorem At.lda_zp {v : BYTE} (hf : Fetch rom pc [0xA5, b] next) (hpc : r.pc = pc)
    (hv : ∀ ρ, Φ ρ → ρ (zp b) = v) :
    Triple (GuestStep lowFirst rom) (At r Φ) (3, 0) (At { r with pc := next, a := v } Φ) := by
  rintro ⟨s, ρ⟩ ⟨rfl, hd, hram⟩
  exact ⟨_, .single (Mos6502.lda_zp ⟨hpc, hd⟩ hf), Regs.ext rfl rfl (hv ρ hram) rfl rfl rfl, hd,
    hram⟩

theorem At.rts (hf : Fetch rom pc [0x60] next) (hpc : r.pc = pc)
    (hreturn : ∀ ρ, Φ ρ → returnAddress ρ r.sp = target) :
    Triple (GuestStep lowFirst rom) (At r Φ) (6, 2)
      (At { r with pc := target, sp := r.sp + 1#8 + 1#8 } Φ) := by
  rintro ⟨s, ρ⟩ ⟨rfl, hd, hram⟩
  exact ⟨_, .single (Mos6502.rts ⟨hpc, hd⟩ hf), Regs.ext (hreturn ρ hram) rfl rfl rfl rfl rfl, hd,
    hram⟩

end Branches

/-- **The rule of `JSR`.** -/
theorem Returns.call {pc next target : WORD} {l h : BYTE} (hf : Fetch rom pc [0x20, l, h] next)
    (htarget : h ++ l = target) (hpc : r.pc = pc)
    (hsub : Returns lowFirst rom { r with pc := target, sp := r.sp - 1#8 - 1#8 }
      (pushReturn ρ r.sp (next - 1#16)) k r' Φ) :
    Triple (GuestStep lowFirst rom) (At r (· = ρ)) ((6, 1) + k)
      (At { r' with pc := next, sp := r.sp } Φ) := by
  rintro ⟨s, ρ⟩ ⟨rfl, hd, rfl⟩
  obtain ⟨y, hreaches, hy⟩ := hsub
    ({ s with sp := s.sp - 1#8 - 1#8, pc := target }, pushReturn ρ s.sp (next - 1#16))
    ⟨rfl, hd, rfl⟩
  refine ⟨y, .head (jsr ⟨hpc, hd⟩ hf htarget) hreaches, ?_⟩
  simpa only [returnAddress_pushReturn, BitVec.sub_add_cancel] using hy

end Calls

end Mos6502

end B2OS
