import Mathlib.Data.Fin.Tuple.Basic
import Mathlib.Data.List.FinRange
import Mathlib.Logic.Function.Basic

/-!
# The Interrupt Controllers of a PC

An 8259A has eight request levels. A request is latched until the processor acknowledges it; the
level is then in service until the program ends the interrupt. In the fully nested mode, the one
that a chip is in when it has been initialized, a level is held back while it or one above it is
in service. A PC has two chips: the slave's output is level 2 of the master.

The initialization command words come in a row, the first one at the command port and the others
at the data port; between such rows the data port takes the mask. What the rows of the two chips do
may be interleaved with each other and with new requests.

Not described: rotated priorities, the special mask mode, polling, level-triggered requests, and
what the chips answer to reads.

## Main results

* `Pic.request_eq_some_iff`: which request a chip puts through.
* `Cascade.acknowledge_idle`: with nothing in service, an acknowledge puts the request of the
  highest priority in service.
* `Cascade.irr_take`: it leaves the other requests alone.
* `Cascade.quiet_out`: what is written to the chips does what it does whatever is requested.
-/

namespace Pic8259

abbrev Byte := BitVec 8

/-- The levels of a chip, the highest priority first. -/
abbrev Level := Fin 8

/-- What the data port takes. -/
inductive DataPort
  | mask | icw2 | icw3 | icw4
deriving DecidableEq, Repr

/-- An 8259A. -/
structure Pic where
  irr : Level → Bool
  isr : Level → Bool
  imr : Level → Bool
  base : Byte
  icw3 : Byte
  dataPort : DataPort
  cascaded : Bool
  needsIcw4 : Bool
  autoEoi : Bool

namespace Pic

/-! ### Requests -/

/-- Level `i` is requested, not masked, and not held back. -/
def Requests (p : Pic) (i : Level) : Prop :=
  p.irr i = true ∧ p.imr i = false ∧ ∀ j ≤ i, p.isr j = false

instance (p : Pic) (i : Level) : Decidable (p.Requests i) := by
  unfold Requests
  infer_instance

/-- The request that the chip puts through. -/
def request (p : Pic) : Option Level := (List.finRange 8).find? fun i => p.Requests i

/-- The level of the highest priority that is in service. -/
def inService (p : Pic) : Option Level := (List.finRange 8).find? fun i => p.isr i

/-- The vector of a level. -/
def vector (p : Pic) (i : Level) : Byte := (p.base &&& 0xF8) + BitVec.ofNat 8 i.val

/-- A new request. -/
def raise (p : Pic) (i : Level) : Pic := { p with irr := Function.update p.irr i true }

/-- A request that is withdrawn before it was acknowledged. -/
def withdraw (p : Pic) (i : Level) : Pic := { p with irr := Function.update p.irr i false }

/-- A request that is acknowledged is in service. -/
def serve (p : Pic) (i : Level) : Pic :=
  { p with
    irr := Function.update p.irr i false
    isr := if p.autoEoi then p.isr else Function.update p.isr i true }

/-! ### Commands -/

/-- The non-specific end of interrupt. -/
def endOfInterrupt (p : Pic) : Pic :=
  match p.inService with
  | some i => { p with isr := Function.update p.isr i false }
  | none => p

/-- A byte at the command port. -/
def writeCommand (p : Pic) (b : Byte) : Pic :=
  if b.getLsbD 4 then
    -- ICW1
    { p with
      irr := fun _ => false
      isr := fun _ => false
      imr := fun _ => false
      dataPort := .icw2
      cascaded := !b.getLsbD 1
      needsIcw4 := b.getLsbD 0
      autoEoi := p.autoEoi && b.getLsbD 0 }
  else if b.getLsbD 3 then p
  else if b.extractLsb' 5 3 = 1 then p.endOfInterrupt
  else p

/-- A byte at the data port. -/
def writeData (p : Pic) (b : Byte) : Pic :=
  match p.dataPort with
  | .mask => { p with imr := fun i => b.getLsbD i.val }
  | .icw2 =>
      { p with
        base := b
        dataPort := if p.cascaded then .icw3 else if p.needsIcw4 then .icw4 else .mask }
  | .icw3 => { p with icw3 := b, dataPort := if p.needsIcw4 then .icw4 else .mask }
  | .icw4 => { p with autoEoi := b.getLsbD 1, dataPort := .mask }

end Pic

/-! ### Searches by priority -/

section Search

variable {P : Level → Prop} [DecidablePred P] {i : Level}

/-- The search finds the first level. -/
theorem find_eq_some_iff :
    (List.finRange 8).find? (fun i => decide (P i)) = some i ↔ P i ∧ ∀ j < i, ¬ P j := by
  rw [List.find?_eq_some_iff_getElem]
  simp only [decide_eq_true_eq, List.length_finRange, List.getElem_finRange, Fin.cast_mk,
    Bool.not_eq_true', decide_eq_false_iff_not]
  constructor
  · rintro ⟨hi, k, hk, rfl, hfirst⟩
    exact ⟨hi, fun j hj => hfirst j.val hj⟩
  · rintro ⟨hi, hfirst⟩
    exact ⟨hi, i.val, i.isLt, rfl, fun j hj => hfirst ⟨j, hj.trans i.isLt⟩ hj⟩

theorem find_eq_none_iff :
    (List.finRange 8).find? (fun i => decide (P i)) = none ↔ ∀ i, ¬ P i := by
  simp [List.find?_eq_none]

end Search

namespace Pic

variable {p : Pic} {i : Level}

/-- The request that is put through is the first one that is not masked and not held back. -/
theorem request_eq_some_iff :
    p.request = some i ↔ p.Requests i ∧ ∀ j < i, ¬ p.Requests j :=
  find_eq_some_iff

theorem request_eq_none_iff : p.request = none ↔ ∀ i, ¬ p.Requests i := find_eq_none_iff

/-- With no level in service and none masked, a request is what is latched. -/
theorem requests_iff (hisr : ∀ j, p.isr j = false) (himr : ∀ j, p.imr j = false) :
    p.Requests i ↔ p.irr i = true :=
  ⟨fun h => h.1, fun h => ⟨h, himr i, fun j _ => hisr j⟩⟩

/-- With no level in service and none masked, the first level that is latched is put through. -/
theorem request_idle (hisr : ∀ j, p.isr j = false) (himr : ∀ j, p.imr j = false) :
    p.request = some i ↔ p.irr i = true ∧ ∀ j < i, p.irr j = false := by
  rw [request_eq_some_iff]
  simp only [requests_iff hisr himr, Bool.not_eq_true]

theorem request_isSome (hisr : ∀ j, p.isr j = false) (himr : ∀ j, p.imr j = false) :
    p.request.isSome = true ↔ ∃ i, p.irr i = true := by
  rw [← Option.ne_none_iff_isSome, Ne, request_eq_none_iff]
  simp only [requests_iff hisr himr, not_forall, not_not]

/-- The levels in service are those of `o`: one or none. -/
def Serving (p : Pic) (o : Option Level) : Prop := ∀ j, p.isr j = true ↔ o = some j

theorem Serving.isr_none (h : p.Serving none) (j : Level) : p.isr j = false := by
  simpa using h j

theorem Serving.inService {o : Option Level} (h : p.Serving o) : p.inService = o := by
  cases o with
  | none =>
      simp [Pic.inService, h.isr_none]
  | some i =>
      have hsearch := find_eq_some_iff (P := fun j => p.isr j = true) (i := i)
      simp only [Bool.decide_eq_true] at hsearch
      exact hsearch.mpr ⟨(h i).mpr rfl, fun j hj hservice =>
        hj.ne (Option.some.inj ((h j).mp hservice)).symm⟩

/-- With at most one level in service, its end leaves none. -/
theorem Serving.endOfInterrupt_eq {o : Option Level} (h : p.Serving o) :
    p.endOfInterrupt = { p with isr := fun _ => false } := by
  cases o with
  | none =>
      have hnone : p.isr = fun _ => false := funext h.isr_none
      rw [Pic.endOfInterrupt, h.inService, ← hnone]
  | some i =>
      have hclear : Function.update p.isr i false = fun _ => false := by
        funext j
        by_cases hj : j = i
        · rw [hj, Function.update_self]
        · rw [Function.update_of_ne hj]
          exact Bool.eq_false_iff.mpr fun hservice =>
            hj (Option.some.inj ((h j).mp hservice)).symm
      simp only [Pic.endOfInterrupt, h.inService, hclear]

theorem Serving.serve (h : p.Serving none) (hauto : p.autoEoi = false) (i : Level) :
    (p.serve i).Serving (some i) := by
  intro j
  simp only [Pic.serve, hauto, Bool.false_eq_true, if_false, Option.some.injEq]
  by_cases hj : j = i
  · rw [hj, Function.update_self]
    exact iff_of_true rfl rfl
  · rw [Function.update_of_ne hj, h.isr_none j]
    exact iff_of_false Bool.false_ne_true (Ne.symm hj)

/-- A chip that has been initialized, with no level masked. -/
structure Ready (p : Pic) (base icw3 : Byte) : Prop where
  imr : ∀ i, p.imr i = false
  base : p.base = base
  icw3 : p.icw3 = icw3
  dataPort : p.dataPort = .mask
  cascaded : p.cascaded = true
  autoEoi : p.autoEoi = false

end Pic

/-! ### Two chips in cascade -/

/-- The request lines of a PC; level 2 of the master is taken by the slave. -/
inductive Line
  | master (i : Level) (h : i ≠ 2)
  | slave (j : Level)
deriving DecidableEq

namespace Line

/-- The number that a PC gives the line. -/
def number : Line → ℕ
  | .master i _ => i.val
  | .slave j => 8 + j.val

/-- The rank of the line: those of the slave come in at level 2. -/
def rank : Line → ℕ
  | .master i _ => 8 * i.val
  | .slave j => 8 * 2 + j.val

theorem number_lt (n : Line) : n.number < 16 := by
  cases n with
  | master i h => exact i.isLt.trans (by decide)
  | slave j =>
      have hj := j.isLt
      rw [number]
      omega

theorem number_injective : Function.Injective number := by
  rintro (⟨i, hi⟩ | j) (⟨i', hi'⟩ | j') h
  · obtain rfl : i = i' := Fin.ext h
    rfl
  · have hlt := i.isLt
    simp only [number] at h
    omega
  · have hlt := i'.isLt
    simp only [number] at h
    omega
  · obtain rfl : j = j' := Fin.ext (Nat.add_left_cancel h)
    rfl

end Line

/-- The master, and the slave at its level 2. -/
structure Cascade where
  master : Pic
  slave : Pic

namespace Cascade

/-- The request that a line has latched. -/
def irr (c : Cascade) : Line → Bool
  | .master i _ => c.master.irr i
  | .slave j => c.slave.irr j

def raise (c : Cascade) : Line → Cascade
  | .master i _ => { c with master := c.master.raise i }
  | .slave j => { c with slave := c.slave.raise j }

def withdraw (c : Cascade) : Line → Cascade
  | .master i _ => { c with master := c.master.withdraw i }
  | .slave j => { c with slave := c.slave.withdraw j }

/-- The master with the output of the slave at its level 2. -/
def wired (c : Cascade) : Pic :=
  { c.master with irr := Function.update c.master.irr 2 c.slave.request.isSome }

/-- The processor acknowledges: the vector that it is given, and the chips afterwards. The slave
answers when the master has it at the level of the request, and under its own number. -/
def acknowledge (c : Cascade) : Byte × Cascade :=
  match c.wired.request with
  | none => (c.master.vector 7, c)
  | some i =>
      let master := c.master.serve i
      if c.master.cascaded ∧ c.master.icw3.getLsbD i.val = true ∧
          c.slave.icw3.extractLsb' 0 3 = BitVec.ofNat 3 i.val then
        match c.slave.request with
        | some j => (c.slave.vector j, ⟨master, c.slave.serve j⟩)
        | none => (c.slave.vector 7, ⟨master, c.slave⟩)
      else (c.master.vector i, ⟨master, c.slave⟩)

/-- A byte that the processor puts out. -/
def out (c : Cascade) (port : BitVec 16) (b : Byte) : Cascade :=
  if port = 0x20 then { c with master := c.master.writeCommand b }
  else if port = 0x21 then { c with master := c.master.writeData b }
  else if port = 0xA0 then { c with slave := c.slave.writeCommand b }
  else if port = 0xA1 then { c with slave := c.slave.writeData b }
  else c

/-! ### An acknowledge -/

/-- The vector of a line. -/
def vector (c : Cascade) : Line → Byte
  | .master i _ => c.master.vector i
  | .slave j => c.slave.vector j

/-- The chips when the request of a line has been put in service. -/
def take (c : Cascade) : Line → Cascade
  | .master i _ => { c with master := c.master.serve i }
  | .slave j => ⟨c.master.serve 2, c.slave.serve j⟩

/-- The chips as a PC connects them, initialized. -/
structure Ready (c : Cascade) (base base' : Byte) : Prop where
  master : c.master.Ready base 0x04
  slave : c.slave.Ready base' 0x02

/-- What is in service: a level of each chip, or none. -/
structure Serving (c : Cascade) (o o' : Option Level) : Prop where
  master : c.master.Serving o
  slave : c.slave.Serving o'

section Acknowledge

variable {c : Cascade} {base base' : Byte}

/-- The line whose request has been put through has latched one, and none above it has. -/
structure First (c : Cascade) (n : Line) : Prop where
  irr : c.irr n = true
  rank : ∀ n', c.irr n' = true → n.rank ≤ n'.rank

theorem wired_irr {i : Level} (hi : i ≠ 2) : c.wired.irr i = c.master.irr i :=
  Function.update_of_ne hi _ _

theorem wired_irr_two : c.wired.irr 2 = c.slave.request.isSome := by
  simp only [wired, Function.update_self]

/-- With nothing in service, the master puts a request through when a line has latched one. -/
theorem wired_request_isSome (h : c.Ready base base') (hidle : c.Serving none none) :
    c.wired.request.isSome = true ↔ ∃ n, c.irr n = true := by
  have hslave : c.slave.request.isSome = true ↔ ∃ j, c.slave.irr j = true :=
    Pic.request_isSome hidle.slave.isr_none h.slave.imr
  rw [Pic.request_isSome (p := c.wired) hidle.master.isr_none h.master.imr]
  constructor
  · rintro ⟨i, hi⟩
    by_cases htwo : i = 2
    · rw [htwo, wired_irr_two] at hi
      obtain ⟨j, hj⟩ := hslave.mp hi
      exact ⟨.slave j, hj⟩
    · exact ⟨.master i htwo, (wired_irr htwo).symm.trans hi⟩
  · rintro ⟨i | j, hn⟩
    · exact ⟨i, (wired_irr (by assumption)).trans hn⟩
    · exact ⟨2, wired_irr_two.trans (hslave.mpr ⟨j, hn⟩)⟩

/-- Without a request an acknowledge changes nothing, and level 7 of the master answers. -/
theorem acknowledge_spurious (hnone : c.wired.request = none) :
    c.acknowledge = (c.master.vector 7, c) := by
  rw [acknowledge, hnone]

/-- With nothing in service, an acknowledge takes the first request. -/
theorem acknowledge_idle (h : c.Ready base base') (hidle : c.Serving none none)
    (hsome : c.wired.request.isSome = true) :
    ∃ n, c.First n ∧ c.acknowledge = (c.vector n, c.take n) := by
  have hslave : c.slave.request.isSome = true ↔ ∃ j, c.slave.irr j = true :=
    Pic.request_isSome hidle.slave.isr_none h.slave.imr
  obtain ⟨i, hi⟩ := Option.isSome_iff_exists.mp hsome
  obtain ⟨hirr, hfirst⟩ :=
    (Pic.request_idle (p := c.wired) hidle.master.isr_none h.master.imr).mp hi
  have hcascaded := h.master.cascaded
  have hicw3 := h.master.icw3
  by_cases htwo : i = 2
  · -- the slave is at the level, and puts its own first request through
    subst htwo
    obtain ⟨j, hj⟩ := Option.isSome_iff_exists.mp (wired_irr_two.symm.trans hirr)
    obtain ⟨hjirr, hjfirst⟩ :=
      (Pic.request_idle hidle.slave.isr_none h.slave.imr).mp hj
    refine ⟨.slave j, ⟨hjirr, ?_⟩, ?_⟩
    · rintro (⟨i', hi'⟩ | j') hn'
      · have hge : ¬ i' < 2 := fun hlt => by
          have hfalse := hfirst i' hlt
          rw [wired_irr hi'] at hfalse
          exact Bool.false_ne_true (hfalse.symm.trans hn')
        have hjlt := j.isLt
        have hne : i'.val ≠ 2 := fun he => hi' (Fin.ext he)
        have hval : ¬ i'.val < 2 := hge
        simp only [Line.rank]
        omega
      · have hge : ¬ j' < j := fun hlt =>
          Bool.false_ne_true ((hjfirst j' hlt).symm.trans hn')
        exact Nat.add_le_add_left (not_lt.mp hge) _
    · simp only [acknowledge, hi, hj, hcascaded, hicw3, h.slave.icw3]
      rfl
  · have hbit : ∀ i : Level, i ≠ 2 → (0x04 : Byte).getLsbD i.val = false := by
      decide
    have hother := hbit i htwo
    refine ⟨.master i htwo, ⟨(wired_irr htwo).symm.trans hirr, ?_⟩, ?_⟩
    · rintro (⟨i', hi'⟩ | j') hn'
      · have hge : ¬ i' < i := fun hlt => by
          have hfalse := hfirst i' hlt
          rw [wired_irr hi'] at hfalse
          exact Bool.false_ne_true (hfalse.symm.trans hn')
        exact Nat.mul_le_mul_left _ (not_lt.mp hge)
      · have hge : ¬ 2 < i := fun hlt => by
          have hfalse := hfirst 2 hlt
          rw [wired_irr_two, hslave.mpr ⟨j', hn'⟩] at hfalse
          exact Bool.false_ne_true hfalse.symm
        have hle : i.val ≤ 2 := not_lt.mp hge
        simp only [Line.rank]
        omega
    · simp only [acknowledge, hi, hicw3, hother]
      simp only [Bool.false_eq_true, false_and, and_false, if_false]
      rfl

end Acknowledge

/-! ### What the operations keep -/

section Operations

variable {c : Cascade} {base base' : Byte} {o o' : Option Level}

theorem irr_raise (c : Cascade) (n n' : Line) :
    (c.raise n).irr n' = if n' = n then true else c.irr n' := by
  cases n <;> cases n' <;>
    simp [raise, irr, Pic.raise, Function.update_apply]

theorem irr_withdraw (c : Cascade) (n n' : Line) :
    (c.withdraw n).irr n' = if n' = n then false else c.irr n' := by
  cases n <;> cases n' <;>
    simp [withdraw, irr, Pic.withdraw, Function.update_apply]

theorem irr_take (c : Cascade) (n n' : Line) :
    (c.take n).irr n' = if n' = n then false else c.irr n' := by
  rcases n with ⟨i, hi⟩ | j <;> rcases n' with ⟨i', hi'⟩ | j'
  · simp [take, irr, Pic.serve, Function.update_apply]
  · simp [take, irr]
  · simp [take, irr, Pic.serve, Function.update_of_ne hi']
  · simp [take, irr, Pic.serve, Function.update_apply]

theorem Ready.raise (h : c.Ready base base') (n : Line) : (c.raise n).Ready base base' := by
  cases n with
  | master i hi => exact ⟨{ h.master with }, h.slave⟩
  | slave j => exact ⟨h.master, { h.slave with }⟩

theorem Ready.withdraw (h : c.Ready base base') (n : Line) : (c.withdraw n).Ready base base' := by
  cases n with
  | master i hi => exact ⟨{ h.master with }, h.slave⟩
  | slave j => exact ⟨h.master, { h.slave with }⟩

theorem Ready.take (h : c.Ready base base') (n : Line) : (c.take n).Ready base base' := by
  cases n with
  | master i hi => exact ⟨{ h.master with }, h.slave⟩
  | slave j => exact ⟨{ h.master with }, { h.slave with }⟩

theorem Serving.raise (h : c.Serving o o') (n : Line) : (c.raise n).Serving o o' := by
  cases n with
  | master i hi => exact ⟨h.master, h.slave⟩
  | slave j => exact ⟨h.master, h.slave⟩

theorem Serving.withdraw (h : c.Serving o o') (n : Line) : (c.withdraw n).Serving o o' := by
  cases n with
  | master i hi => exact ⟨h.master, h.slave⟩
  | slave j => exact ⟨h.master, h.slave⟩

theorem Serving.take_master (hidle : c.Serving none none) (h : c.Ready base base') {i : Level}
    (hi : i ≠ 2) : (c.take (.master i hi)).Serving (some i) none :=
  ⟨hidle.master.serve h.master.autoEoi i, hidle.slave⟩

theorem Serving.take_slave (hidle : c.Serving none none) (h : c.Ready base base') (j : Level) :
    (c.take (.slave j)).Serving (some 2) (some j) :=
  ⟨hidle.master.serve h.master.autoEoi 2, hidle.slave.serve h.slave.autoEoi j⟩

/-- The end of interrupt at the slave. -/
theorem out_eoi_slave (h : c.Serving o o') :
    c.out 0xA0 0x20 = { c with slave := { c.slave with isr := fun _ => false } } :=
  congrArg (fun p => ({ c with slave := p } : Cascade)) h.slave.endOfInterrupt_eq

/-- The end of interrupt at the master. -/
theorem out_eoi_master (h : c.Serving o o') :
    c.out 0x20 0x20 = { c with master := { c.master with isr := fun _ => false } } :=
  congrArg (fun p => ({ c with master := p } : Cascade)) h.master.endOfInterrupt_eq

end Operations

/-! ### Initialization

Nothing that is written to a chip looks at its requests, so that requests may come in between. -/

end Cascade

/-- The chip without its requests. -/
def Pic.quiet (p : Pic) : Pic := { p with irr := fun _ => false }

theorem Pic.quiet_writeCommand (p : Pic) (b : Byte) :
    (p.writeCommand b).quiet = (p.quiet.writeCommand b).quiet := by
  have hservice : p.quiet.inService = p.inService := rfl
  simp only [Pic.writeCommand, Pic.endOfInterrupt, hservice]
  split_ifs
  · rfl
  · rfl
  · cases p.inService <;> rfl
  · rfl

theorem Pic.quiet_writeData (p : Pic) (b : Byte) :
    (p.writeData b).quiet = (p.quiet.writeData b).quiet := by
  have hport : p.quiet.dataPort = p.dataPort := rfl
  simp only [Pic.writeData, hport]
  cases p.dataPort <;> rfl

namespace Cascade

def quiet (c : Cascade) : Cascade := ⟨c.master.quiet, c.slave.quiet⟩

theorem quiet_raise (c : Cascade) (n : Line) : (c.raise n).quiet = c.quiet := by
  cases n <;> rfl

theorem quiet_withdraw (c : Cascade) (n : Line) : (c.withdraw n).quiet = c.quiet := by
  cases n <;> rfl

theorem quiet_out (c : Cascade) (port : BitVec 16) (b : Byte) :
    (c.out port b).quiet = (c.quiet.out port b).quiet := by
  simp only [out, quiet]
  split_ifs
  · rw [c.master.quiet_writeCommand]
    rfl
  · rw [c.master.quiet_writeData]
    rfl
  · rw [c.slave.quiet_writeCommand]
    rfl
  · rw [c.slave.quiet_writeData]
    rfl
  · rfl

/-- Requests are no part of what makes chips ready. -/
theorem Ready.of_quiet {c : Cascade} {base base' : Byte} (h : c.quiet.Ready base base') :
    c.Ready base base' :=
  ⟨{ h.master with }, { h.slave with }⟩

theorem Serving.of_quiet {c : Cascade} {o o' : Option Level} (h : c.quiet.Serving o o') :
    c.Serving o o' :=
  ⟨h.master, h.slave⟩

end Cascade

end Pic8259
