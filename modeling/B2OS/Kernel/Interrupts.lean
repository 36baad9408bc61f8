import B2OS.Lib.ProtectedMode

/-!
# Interrupts

This module embeds `interrupt.asm`: the stubs of the vectors 0 to 47 that `k_init_isr` installs,
and their common ends. The processor, a stub and the common end build up on the stack what the C
handler takes as its `registers_t`, and the end takes it down again, a fixed number of double words.
For the exceptions without an error code the stub pushes a double word in its place.

The handlers themselves are compiled C, which may do anything but change their argument and move
the stack pointer.

## Main results

* `enter_spec`: what lies on the stack when the handler is called.
* `leave_eq`: what the common ends make of it.
* `transparent_iff`: an interrupt is transparent exactly when its stub and the processor agree on
  whether there is an error code.
-/

namespace B2OS.Interrupts

open ProtectedMode
open ByteMemory (Memory load32)

/-! ### The stubs -/

/-- The common ends of the stubs. -/
inductive CommonStub
  | isr_common_stub
  | irq_common_stub

/-- A stub: between `cli` and its jump it pushes some double words. -/
structure Stub where
  pushes : List Dword
  common : CommonStub

/-- The stub of an exception without an error code. -/
def isr (n : Dword) : Stub := ⟨[0, n], .isr_common_stub⟩

/-- The stub of an exception with an error code. -/
def isrWithCode (n : Dword) : Stub := ⟨[n], .isr_common_stub⟩

/-- The stub of an interrupt request. -/
def irq (i n : Dword) : Stub := ⟨[i, n], .irq_common_stub⟩

def isr0 : Stub := isr 0

def isr1 : Stub := isr 1

def isr2 : Stub := isr 2

def isr3 : Stub := isr 3

def isr4 : Stub := isr 4

def isr5 : Stub := isr 5

def isr6 : Stub := isr 6

def isr7 : Stub := isr 7

def isr8 : Stub := isrWithCode 8

def isr9 : Stub := isr 9

def isr10 : Stub := isrWithCode 10

def isr11 : Stub := isrWithCode 11

def isr12 : Stub := isrWithCode 12

def isr13 : Stub := isrWithCode 13

def isr14 : Stub := isrWithCode 14

def isr15 : Stub := isr 15

def isr16 : Stub := isr 16

def isr17 : Stub := isr 17

def isr18 : Stub := isr 18

def isr19 : Stub := isr 19

def isr20 : Stub := isr 20

def isr21 : Stub := isr 21

def isr22 : Stub := isr 22

def isr23 : Stub := isr 23

def isr24 : Stub := isr 24

def isr25 : Stub := isr 25

def isr26 : Stub := isr 26

def isr27 : Stub := isr 27

def isr28 : Stub := isr 28

def isr29 : Stub := isr 29

def isr30 : Stub := isr 30

def isr31 : Stub := isr 31

def irq0 : Stub := irq 0 32

def irq1 : Stub := irq 1 33

def irq2 : Stub := irq 2 34

def irq3 : Stub := irq 3 35

def irq4 : Stub := irq 4 36

def irq5 : Stub := irq 5 37

def irq6 : Stub := irq 6 38

def irq7 : Stub := irq 7 39

def irq8 : Stub := irq 8 40

def irq9 : Stub := irq 9 41

def irq10 : Stub := irq 10 42

def irq11 : Stub := irq 11 43

def irq12 : Stub := irq 12 44

def irq13 : Stub := irq 13 45

def irq14 : Stub := irq 14 46

def irq15 : Stub := irq 15 47

/-- The gates that `k_init_isr` sets. -/
def idt : List Stub :=
  [isr0, isr1, isr2, isr3, isr4, isr5, isr6, isr7, isr8, isr9, isr10, isr11, isr12, isr13, isr14,
   isr15, isr16, isr17, isr18, isr19, isr20, isr21, isr22, isr23, isr24, isr25, isr26, isr27,
   isr28, isr29, isr30, isr31, irq0, irq1, irq2, irq3, irq4, irq5, irq6, irq7, irq8, irq9, irq10,
   irq11, irq12, irq13, irq14, irq15]

def KERNEL_CS : Selector := 0x08

/-- The start of both common ends: the state is saved, and the handler is called. -/
def saveState (ret : Dword) (c : State) : State :=
  let c := c.pusha
  let c := { c with eax := setLow c.eax c.ds }
  let c := c.push c.eax
  let c := { c with eax := setLow c.eax 0x10 }
  let c := { c with ds := low c.eax }
  let c := { c with es := low c.eax }
  let c := { c with fs := low c.eax }
  let c := { c with gs := low c.eax }
  c.push ret

/-- `isr_common_stub` behind its call. -/
def isrRestoreState (c : State) : State :=
  let c := { c.drop with eax := c.top }
  let c := { c with ds := low c.eax }
  let c := { c with es := low c.eax }
  let c := { c with fs := low c.eax }
  let c := { c with gs := low c.eax }
  let c := c.popa
  let c := { c with esp := c.esp + 8 }
  c.sti.iret

/-- `irq_common_stub` behind its call. -/
def irqRestoreState (c : State) : State :=
  let c := { c.drop with ebx := c.top }
  let c := { c with ds := low c.ebx }
  let c := { c with es := low c.ebx }
  let c := { c with fs := low c.ebx }
  let c := { c with gs := low c.ebx }
  let c := c.popa
  let c := { c with esp := c.esp + 8 }
  c.sti.iret

/-- A stub from its start to the first instruction of the handler. -/
def Stub.enter (stub : Stub) (ret : Dword) (c : State) : State :=
  saveState ret (c.cli.pushAll stub.pushes)

/-- A stub behind the call of its handler. -/
def Stub.leave (stub : Stub) (c : State) : State :=
  match stub.common with
  | .isr_common_stub => isrRestoreState c
  | .irq_common_stub => irqRestoreState c

/-- The argument of the handlers. -/
structure Registers where
  ds : Dword
  edi : Dword
  esi : Dword
  ebp : Dword
  esp : Dword
  ebx : Dword
  edx : Dword
  ecx : Dword
  eax : Dword
  int_no : Dword
  err_code : Dword
  eip : Dword
  cs : Dword
  eflags : Dword
  useresp : Dword
  ss : Dword

/-- The argument at an address, in the order of the fields of `registers_t`. -/
def registersAt (mem : Memory) (a : Dword) : Registers where
  ds := load32 mem a
  edi := load32 mem (a + 4)
  esi := load32 mem (a + 8)
  ebp := load32 mem (a + 12)
  esp := load32 mem (a + 16)
  ebx := load32 mem (a + 20)
  edx := load32 mem (a + 24)
  ecx := load32 mem (a + 28)
  eax := load32 mem (a + 32)
  int_no := load32 mem (a + 36)
  err_code := load32 mem (a + 40)
  eip := load32 mem (a + 44)
  cs := load32 mem (a + 48)
  eflags := load32 mem (a + 52)
  useresp := load32 mem (a + 56)
  ss := load32 mem (a + 60)

/-! ### The interrupt -/

/-- The vectors for which the processor pushes an error code. -/
def errorCodeVectors : List ℕ := [8, 10, 11, 12, 13, 14, 17, 21, 29, 30]

/-- The error code of a vector, if it has one. -/
def errorCode (v : ℕ) (code : Dword) : List Dword := if v ∈ errorCodeVectors then [code] else []

/-- A C function that returns to its caller, and leaves its argument unchanged. -/
def KeepsFrame (handler : State → State) : Prop :=
  ∀ c, (handler c).esp = c.esp + 4 ∧ ∀ i < 64,
    (handler c).mem (c.esp + 4 + BitVec.ofNat 32 i) = c.mem (c.esp + 4 + BitVec.ofNat 32 i)

/-- What the handler sees are the vector and the registers of the context. -/
structure Sees (v : ℕ) (c : State) (r : Registers) : Prop where
  int_no : r.int_no = BitVec.ofNat 32 v
  eip : r.eip = c.eip
  cs : r.cs = c.cs.setWidth 32
  eflags : r.eflags = c.eflags
  eax : r.eax = c.eax
  ecx : r.ecx = c.ecx
  edx : r.edx = c.edx
  ebx : r.ebx = c.ebx
  ebp : r.ebp = c.ebp
  esi : r.esi = c.esi
  edi : r.edi = c.edi

/-- The context goes on with all its registers. -/
def Resumes (c t : State) : Prop := { t with mem := c.mem } = c

/-- The handler's first state, in an interrupt of the context `c`. -/
def atHandler (stub : Stub) (v : ℕ) (code gate ret : Dword) (c : State) : State :=
  stub.enter ret (c.interrupt (errorCode v code) KERNEL_CS gate)

/-- The interrupt is transparent: the handler sees the context, and `iret` goes back to it. -/
def Transparent (stub : Stub) (v : ℕ) (handler : State → State) (code gate ret : Dword)
    (c : State) : Prop :=
  let h := atHandler stub v code gate ret c
  Sees v c (registersAt h.mem (h.esp + 4)) ∧ Resumes c (stub.leave (handler h))

/-! ### The stack -/

/-- What lies on the stack when the handler is called, from the top up. -/
def stacked (ret : Dword) (extra : List Dword) (esp : Dword) (c : State) : List Dword :=
  [ret, setLow c.eax c.ds, c.edi, c.esi, c.ebp, esp, c.ebx, c.edx, c.ecx, c.eax] ++ extra ++
    [c.eip, c.cs.setWidth 32, c.eflags]

section Frame

variable {stub : Stub} {v : ℕ} {code gate ret : Dword} {c : State}

/-- The start of the common ends pushes two double words behind its `pusha`. -/
theorem saveState_of_pusha (ret : Dword) (c : State) :
    (saveState ret c).esp = (c.pusha.pushAll [setLow c.pusha.eax c.pusha.ds, ret]).esp ∧
      (saveState ret c).mem = (c.pusha.pushAll [setLow c.pusha.eax c.pusha.ds, ret]).mem := by
  simp only [saveState, State.push, State.pushAll, List.foldl_cons, List.foldl_nil, and_self]

/-- The double words that the start of the common ends pushes. -/
def savedRegisters (ret esp : Dword) (c : State) : List Dword :=
  [c.eax, c.ecx, c.edx, c.ebx, esp, c.ebp, c.esi, c.edi] ++ [setLow c.eax c.ds, ret]

theorem saveState_eq (ret : Dword) (c : State) :
    (saveState ret c).esp = (c.pushAll (savedRegisters ret c.esp c)).esp ∧
      (saveState ret c).mem = (c.pushAll (savedRegisters ret c.esp c)).mem := by
  have heax : c.pusha.eax = c.eax := by rw [State.pusha, State.pushAll_eq]
  have hds : c.pusha.ds = c.ds := by rw [State.pusha, State.pushAll_eq]
  have hspec := saveState_of_pusha ret c
  rw [heax, hds] at hspec
  rw [savedRegisters, State.pushAll_append]
  exact hspec

-- what is pushed is compared as a list
attribute [local irreducible] State.pushAll

theorem savedRegisters_pushAll (ret esp : Dword) (c : State) (l : List Dword) :
    savedRegisters ret esp (c.pushAll l) = savedRegisters ret esp c := by
  rw [State.pushAll_eq]
  rfl

/-- The stack when the handler is called. -/
theorem enter_spec (stub : Stub) (v : ℕ) (code gate ret : Dword) (c : State) :
    ∃ esp, let l := stacked ret (stub.pushes.reverse ++ (errorCode v code).reverse) esp c
      let h := atHandler stub v code gate ret c
      h.esp = (c.pushAll l.reverse).esp ∧ h.mem = (c.pushAll l.reverse).mem := by
  let entered := [c.eflags, c.cs.setWidth 32, c.eip] ++ errorCode v code
  let i := c.interrupt (errorCode v code) KERNEL_CS gate
  obtain ⟨q, hq⟩ : ∃ q, q = i.cli.pushAll stub.pushes := ⟨_, rfl⟩
  -- the stub's pushes go on where those of the processor end
  have hstub : q.esp = (c.pushAll (entered ++ stub.pushes)).esp ∧
      q.mem = (c.pushAll (entered ++ stub.pushes)).mem := by
    have hesp : i.cli.esp = (c.pushAll entered).esp := rfl
    have hmem : i.cli.mem = (c.pushAll entered).mem := rfl
    rw [hq, State.pushAll_append]
    exact State.pushAll_congr hesp hmem stub.pushes
  have hsaved : savedRegisters ret q.esp q = savedRegisters ret q.esp c := by
    have hi : savedRegisters ret q.esp i.cli = savedRegisters ret q.esp (c.pushAll entered) := rfl
    rw [← savedRegisters_pushAll ret q.esp c entered, ← hi, hq, savedRegisters_pushAll]
  have hlist : (stacked ret (stub.pushes.reverse ++ (errorCode v code).reverse) q.esp c).reverse =
      entered ++ stub.pushes ++ savedRegisters ret q.esp c := by
    simp [stacked, savedRegisters, entered]
  refine ⟨q.esp, ?_⟩
  have hhandler : atHandler stub v code gate ret c = saveState ret q := by
    rw [hq]
    rfl
  dsimp only
  rw [hhandler, hlist, State.pushAll_append]
  obtain ⟨hesp, hmem⟩ := saveState_eq ret q
  obtain ⟨hesp', hmem'⟩ := State.pushAll_congr hstub.1 hstub.2 (savedRegisters ret q.esp c)
  rw [hsaved] at hesp hmem
  exact ⟨hesp.trans hesp', hmem.trans hmem'⟩

end Frame

/-- The common ends agree on what they make of the stack. -/
theorem leave_eq (stub : Stub) (c : State) : stub.leave c = { c with
    eax := load32 c.mem (c.esp + 32), ecx := load32 c.mem (c.esp + 28)
    edx := load32 c.mem (c.esp + 24), ebx := load32 c.mem (c.esp + 20)
    esp := c.esp + 56, ebp := load32 c.mem (c.esp + 12)
    esi := load32 c.mem (c.esp + 8), edi := load32 c.mem (c.esp + 4)
    eip := load32 c.mem (c.esp + 44), eflags := load32 c.mem (c.esp + 52)
    cs := low (load32 c.mem (c.esp + 48)), ds := low (load32 c.mem c.esp)
    es := low (load32 c.mem c.esp), fs := low (load32 c.mem c.esp)
    gs := low (load32 c.mem c.esp) } := by
  rw [Stub.leave]
  cases stub.common <;>
  · simp only [isrRestoreState, irqRestoreState, State.popa, State.sti, State.iret, State.drop,
      State.top, BitVec.add_assoc, BitVec.reduceAdd]
    rfl

/-! ### The vectors -/

/-- The exceptions whose stub leaves the place of the error code to the processor. -/
def codedStubs : List ℕ := [8, 10, 11, 12, 13, 14]

/-- The exceptions with an error code for which the stub pushes one more. -/
def doubledVectors : List ℕ := [17, 21, 29, 30]

theorem idt_pushes {v : ℕ} {stub : Stub} (h : idt[v]? = some stub) :
    stub.pushes = if v ∈ codedStubs then [BitVec.ofNat 32 v]
      else [stub.pushes.headD 0, BitVec.ofNat 32 v] := by
  have hall : ∀ v : Fin idt.length, (idt.get v).pushes =
      if v.val ∈ codedStubs then [BitVec.ofNat 32 v.val]
      else [(idt.get v).pushes.headD 0, BitVec.ofNat 32 v.val] := by decide
  obtain ⟨hv, rfl⟩ := List.getElem?_eq_some_iff.mp h
  exact hall ⟨v, hv⟩

/-- Between the general registers and the context lie the vector and one double word, or, where
both the processor and the stub push it, two. -/
theorem idt_extra {v : ℕ} {stub : Stub} (h : idt[v]? = some stub) (code : Dword) :
    (v ∉ doubledVectors → ∃ e, stub.pushes.reverse ++ (errorCode v code).reverse =
      [BitVec.ofNat 32 v, e]) ∧
    (v ∈ doubledVectors →
      (stub.pushes.reverse ++ (errorCode v code).reverse).length = 3) := by
  have hpushes := idt_pushes h
  have hdoubled : v ∈ errorCodeVectors ↔ v ∈ codedStubs ∨ v ∈ doubledVectors := by
    simp only [errorCodeVectors, codedStubs, doubledVectors, List.mem_cons, List.not_mem_nil,
      or_false]
    omega
  have hdisjoint : v ∈ codedStubs → v ∉ doubledVectors := by
    simp only [codedStubs, doubledVectors, List.mem_cons, List.not_mem_nil,
      or_false]
    omega
  by_cases hcoded : v ∈ codedStubs
  · rw [if_pos hcoded] at hpushes
    rw [hpushes, errorCode, if_pos (hdoubled.mpr (Or.inl hcoded))]
    exact ⟨fun _ => ⟨code, rfl⟩, fun hin => absurd hin (hdisjoint hcoded)⟩
  · rw [if_neg hcoded] at hpushes
    rw [hpushes, errorCode]
    refine ⟨fun hout => ⟨stub.pushes.headD 0, ?_⟩, fun hin => ?_⟩
    · rw [if_neg fun hin => (hdoubled.mp hin).elim hcoded hout]
      rfl
    · rw [if_pos (hdoubled.mpr (Or.inr hin))]
      rfl

/-! ### Transparency -/

section Transparent

variable {stub : Stub} {v : ℕ} {handler : State → State} {code gate ret : Dword} {c : State}

/-- The stack above the return address, before the handler and after it. -/
theorem frame_words {h : State} {l : List Dword} (hkeeps : KeepsFrame handler)
    (hesp : h.esp = (c.pushAll l.reverse).esp) (hmem : h.mem = (c.pushAll l.reverse).mem)
    (hlen : l.length = 15) {j : ℕ} (hj : j + 1 < l.length) :
    load32 h.mem (h.esp + 4 + BitVec.ofNat 32 (4 * j)) = l[j + 1] ∧
      load32 (handler h).mem ((handler h).esp + BitVec.ofNat 32 (4 * j)) = l[j + 1] := by
  have hentry : load32 h.mem (h.esp + 4 + BitVec.ofNat 32 (4 * j)) = l[j + 1] := by
    have haddr : h.esp + 4 + BitVec.ofNat 32 (4 * j) = h.esp + BitVec.ofNat 32 (4 * (j + 1)) := by
      bv_omega
    have hrev : l.reverse.length = 15 := by rw [List.length_reverse, hlen]
    have habove := State.load32_above (c := c) (l := l.reverse) (by omega) (j := j + 1)
      (by rw [List.length_reverse]; omega)
    simp only [List.reverse_reverse] at habove
    rw [haddr, hesp, hmem, habove]
  refine ⟨hentry, ?_⟩
  obtain ⟨hreturn, hframe⟩ := hkeeps h
  rw [hreturn, ← hentry]
  refine load32_congr fun i hi => ?_
  have haddr : h.esp + 4 + BitVec.ofNat 32 (4 * j) + BitVec.ofNat 32 i =
      h.esp + 4 + BitVec.ofNat 32 (4 * j + i) := by
    bv_omega
  rw [haddr]
  exact hframe (4 * j + i) (by omega)

/-- Where the data segments are the same, the saved one stands for all. -/
theorem segments_eq (hes : c.es = c.ds) (hfs : c.fs = c.ds) (hgs : c.gs = c.ds) :
    ({ c with es := c.ds, fs := c.ds, gs := c.ds } : State) = c := by
  obtain ⟨⟩ := c
  dsimp only at hes hfs hgs
  rw [hes, hfs, hgs]

/-- One double word beside the vector is what the fixed frame has room for. -/
theorem transparent_of_extra {e : Dword} (hkeeps : KeepsFrame handler) (hes : c.es = c.ds)
    (hfs : c.fs = c.ds) (hgs : c.gs = c.ds)
    (hextra : stub.pushes.reverse ++ (errorCode v code).reverse = [BitVec.ofNat 32 v, e]) :
    Transparent stub v handler code gate ret c := by
  obtain ⟨esp, hesp, hmem⟩ := enter_spec stub v code gate ret c
  rw [hextra] at hesp hmem
  rw [Transparent]
  generalize atHandler stub v code gate ret c = h at hesp hmem
  obtain ⟨l, hl⟩ : ∃ l, l = stacked ret [BitVec.ofNat 32 v, e] esp c := ⟨_, rfl⟩
  have hlen : l.length = 15 := by rw [hl]; rfl
  rw [← hl] at hesp hmem
  have hback : h.esp + 60 = c.esp := by
    rw [hesp, State.esp_pushAll, List.length_reverse, hlen]
    bv_omega
  have hreturn := (hkeeps h).1
  have hword : ∀ j (hj : j < 14),
      load32 h.mem (h.esp + 4 + BitVec.ofNat 32 (4 * j)) = l.get ⟨j + 1, by omega⟩ ∧
      load32 (handler h).mem ((handler h).esp + BitVec.ofNat 32 (4 * j)) =
        l.get ⟨j + 1, by omega⟩ := fun j hj => frame_words hkeeps hesp hmem hlen (by omega)
  subst hl
  constructor
  · refine ⟨(hword 9 ?_).1, (hword 11 ?_).1, (hword 12 ?_).1, (hword 13 ?_).1, (hword 8 ?_).1,
      (hword 7 ?_).1, (hword 6 ?_).1, (hword 5 ?_).1, (hword 3 ?_).1, (hword 2 ?_).1,
      (hword 1 ?_).1⟩ <;> omega
  · generalize handler h = t at hword hreturn ⊢
    have heax : load32 t.mem (t.esp + 32) = c.eax := (hword 8 (by omega)).2
    have hecx : load32 t.mem (t.esp + 28) = c.ecx := (hword 7 (by omega)).2
    have hedx : load32 t.mem (t.esp + 24) = c.edx := (hword 6 (by omega)).2
    have hebx : load32 t.mem (t.esp + 20) = c.ebx := (hword 5 (by omega)).2
    have hebp : load32 t.mem (t.esp + 12) = c.ebp := (hword 3 (by omega)).2
    have hesi : load32 t.mem (t.esp + 8) = c.esi := (hword 2 (by omega)).2
    have hedi : load32 t.mem (t.esp + 4) = c.edi := (hword 1 (by omega)).2
    have heip : load32 t.mem (t.esp + 44) = c.eip := (hword 11 (by omega)).2
    have hcs : load32 t.mem (t.esp + 48) = c.cs.setWidth 32 := (hword 12 (by omega)).2
    have heflags : load32 t.mem (t.esp + 52) = c.eflags := (hword 13 (by omega)).2
    have hds : load32 t.mem t.esp = setLow c.eax c.ds := by
      have hzero := (hword 0 (by omega)).2
      rwa [Nat.mul_zero, BitVec.add_zero] at hzero
    have htop : t.esp + 56 = c.esp := by
      rw [hreturn, ← hback]
      bv_omega
    rw [Resumes, leave_eq, heax, hecx, hedx, hebx, hebp, hesi, hedi, heip, hcs, heflags, hds, htop,
      low_setLow, low_setWidth]
    exact segments_eq hes hfs hgs

/-- With one more the stack pointer does not come back. -/
theorem not_transparent_of_extra (hkeeps : KeepsFrame handler)
    (hextra : (stub.pushes.reverse ++ (errorCode v code).reverse).length = 3) :
    ¬ Transparent stub v handler code gate ret c := by
  obtain ⟨esp, hesp, -⟩ := enter_spec stub v code gate ret c
  rintro ⟨-, hresumes⟩
  have hlen :
      (stacked ret (stub.pushes.reverse ++ (errorCode v code).reverse) esp c).length = 16 := by
    simp only [stacked, List.length_append, List.length_cons, List.length_nil] at hextra ⊢
    omega
  have hleft := congrArg State.esp hresumes
  rw [leave_eq] at hleft
  dsimp only at hleft hesp
  rw [(hkeeps _).1, hesp, State.esp_pushAll, List.length_reverse, hlen] at hleft
  bv_omega

/-- **A stub has to agree with the processor**: an interrupt of a context whose data segments are
the same is transparent, whatever the handler does, exactly when its vector is not one of those that
have an error code and a stub that pushes another. -/
theorem transparent_iff (hidt : idt[v]? = some stub) (hkeeps : KeepsFrame handler)
    (hes : c.es = c.ds) (hfs : c.fs = c.ds) (hgs : c.gs = c.ds) (code gate ret : Dword) :
    Transparent stub v handler code gate ret c ↔ v ∉ doubledVectors := by
  obtain ⟨hsingle, hdouble⟩ := idt_extra hidt code
  constructor
  · intro htransparent hin
    exact not_transparent_of_extra hkeeps (hdouble hin) htransparent
  · intro hout
    obtain ⟨e, hextra⟩ := hsingle hout
    exact transparent_of_extra hkeeps hes hfs hgs hextra

end Transparent

/-! ### Two exceptions -/

/-- A handler like `k_isr_handler`, which returns at once. -/
def kIsrHandler (c : State) : State := c.drop

theorem kIsrHandler_keepsFrame : KeepsFrame kIsrHandler := fun _ => ⟨rfl, fun _ _ => rfl⟩

/-- The kernel at work. -/
def kernelContext : State where
  eax := 1
  ecx := 2
  edx := 3
  ebx := 4
  esp := 0x90000
  ebp := 0x90010
  esi := 5
  edi := 6
  eip := 0xF100
  eflags := 0x202
  cs := 0x08
  ds := 0x10
  es := 0x10
  fs := 0x10
  gs := 0x10
  mem := fun _ => 0

/-- A general protection fault has its error code from the processor alone. -/
theorem transparent_generalProtection :
    Transparent isr13 13 kIsrHandler 0 0xF800 0xF900 kernelContext :=
  (transparent_iff rfl kIsrHandler_keepsFrame rfl rfl rfl 0 0xF800 0xF900).mpr (by decide)

/-- An alignment check has two. -/
theorem not_transparent_alignmentCheck :
    ¬ Transparent isr17 17 kIsrHandler 0 0xF800 0xF900 kernelContext :=
  not_transparent_of_extra kIsrHandler_keepsFrame rfl

end B2OS.Interrupts
