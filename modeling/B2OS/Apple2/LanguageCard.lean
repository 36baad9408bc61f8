import B2OS.Apple2.Machine
import Mathlib.Tactic.FinCases

/-!
# The Write Enable of the Language Card

The sixteen switches $C080-$C08F select the bank and the memory that is read, and turn writing
on or off. Writing is turned on by two reads of odd-numbered switches in a row, which a flip-flop
remembers: `LCPreWriteFlipflop` is set when the last access was the first read of such a pair.

`ad_SoftSwitch` keeps the flip-flop as it should, but consults it before it looks at the kind
of the access, so that a write can be the second access of the pair.

## Main results

* `access_card`: what an access to one of the switches does to the memory.
* `preWrite_iff`: the flip-flop is set exactly when the last access read an odd switch.
* `writeEnable_iff`: the switches work as they should over a run of accesses exactly when no
  write to an odd switch follows a read of one while writing is off.
-/

namespace B2OS

/-- An access to one of the switches $C080-$C08F, with the value when it is a write. -/
structure CardAccess where
  switch : Fin 16
  value : Option BYTE
deriving DecidableEq, Repr

namespace CardAccess

/-- The address $C080 + `switch`. -/
def address (a : CardAccess) : WORD := 0xC080 + BitVec.ofNat 16 a.switch

def access (a : CardAccess) : MemAccess :=
  match a.value with
  | none => .read a.address
  | some value => .write a.address value

/-- The switch has an odd number. -/
def odd (a : CardAccess) : Bool := a.switch.val % 2 == 1

/-- The access reads an odd-numbered switch. -/
def readsOdd (a : CardAccess) : Bool := a.odd && a.value.isNone

/-- The switches of the first eight select bank 2. -/
def bank2 (a : CardAccess) : Bool := a.switch.val < 8

/-- The first and the last switch of every four select the card for reading. -/
def readable (a : CardAccess) : Bool := a.switch.val % 4 == 0 || a.switch.val % 4 == 3

end CardAccess

/-- The switches in the order of their addresses; each group of four stands twice. -/
theorem ofAddress_card (i : Fin 16) : SoftSwitch.ofAddress (0xC080 + BitVec.ofNat 16 i) =
    [SoftSwitch.LC2RD, .LC2WR, .ROMONLY2, .LC2RW, .LC2RD, .LC2WR, .ROMONLY2, .LC2RW,
      .LC1RD, .LC1WR, .ROMONLY1, .LC1RW, .LC1RD, .LC1WR, .ROMONLY1, .LC1RW][i.val]? := by
  fin_cases i <;> rfl

/-- What an access to a switch does to the memory. -/
theorem access_card (m : Machine) (a : CardAccess) :
    (m.access a.access).mem = { m.mem with
      LCBank2Enable := a.bank2
      LCReadable := a.readable
      LCWritable := a.odd && (m.mem.LCWritable || m.mem.LCPreWriteFlipflop)
      LCPreWriteFlipflop := a.readsOdd } := by
  have haddress : a.access.address = 0xC080 + BitVec.ofNat 16 a.switch := by
    rw [CardAccess.access]
    cases a.value <;> rfl
  have hWRT : a.access.WRT = a.value.isSome := by
    rw [CardAccess.access]
    cases a.value <;> rfl
  have hswitch := a.switch.isLt
  rw [m.access_eq_adSoftSwitch (by rw [haddress]; bv_omega) (by rw [haddress]; bv_omega),
    Machine.adSoftSwitch, haddress, ofAddress_card, hWRT]
  obtain ⟨switch, value⟩ := a
  fin_cases switch <;>
    simp [Machine.switch, Machine.lcProtect, Machine.lcPreWrite, CardAccess.odd,
      CardAccess.readsOdd, CardAccess.bank2, CardAccess.readable]

/-! ### Runs of accesses -/

/-- One access of a run. -/
def cardStep (m : Machine) (a : CardAccess) : Machine := m.access a.access

/-- The machine with the memory as `mem_Reset` leaves it. -/
def resetMemory (m : Machine) : Machine := { m with mem := .memReset }

/-- The last access of a run reads an odd-numbered switch. -/
def EndsArmed (l : List CardAccess) : Prop := ∃ b ∈ l.getLast?, b.readsOdd = true

/-- The flip-flop is set exactly when the last access read an odd-numbered switch. -/
theorem preWrite_iff (m : Machine) (l : List CardAccess) :
    (l.foldl cardStep (resetMemory m)).mem.LCPreWriteFlipflop = true ↔ EndsArmed l := by
  rcases l.eq_nil_or_concat with rfl | ⟨pre, a, rfl⟩
  · refine iff_of_false Bool.false_ne_true ?_
    rintro ⟨b, hb, -⟩
    cases hb
  · rw [List.concat_eq_append, List.foldl_append, List.foldl_cons, List.foldl_nil, cardStep,
      access_card, EndsArmed, List.getLast?_append]
    simp

/-- The switches work as they should over a run of accesses: `s` is the state before the access
`a`, and `cardStep s a` the state after it. -/
structure WriteEnable (m : Machine) (l : List CardAccess) : Prop where
  /-- Writing is turned on by two reads of odd-numbered switches in a row only. -/
  enabled : ∀ pre a post, l = pre ++ a :: post →
    let s := pre.foldl cardStep m
    s.mem.LCWritable = false → (cardStep s a).mem.LCWritable = true →
      a.readsOdd = true ∧ EndsArmed pre
  /-- A write cancels a pending first read. -/
  cancelled : ∀ pre a post, l = pre ++ a :: post → a.value.isSome →
    (cardStep (pre.foldl cardStep m) a).mem.LCPreWriteFlipflop = false
  /-- An access to an even-numbered switch turns writing off. -/
  disabled : ∀ pre a post, l = pre ++ a :: post → a.odd = false →
    (cardStep (pre.foldl cardStep m) a).mem.LCWritable = false
  /-- The bank and the memory that is read are those that the last access selects. -/
  selected : ∀ pre a post, l = pre ++ a :: post →
    (cardStep (pre.foldl cardStep m) a).mem.LCReadable = a.readable ∧
      (cardStep (pre.foldl cardStep m) a).mem.LCBank2Enable = a.bank2

/-- **From `mem_Reset` on, the switches of the language card work as they should over a run of
accesses exactly when every write to an odd-numbered switch that directly follows a read of one
finds writing on already.** -/
theorem writeEnable_iff (m : Machine) (l : List CardAccess) :
    WriteEnable (resetMemory m) l ↔
      ∀ pre a post, l = pre ++ a :: post → a.odd = true → a.value.isSome → EndsArmed pre →
        (pre.foldl cardStep (resetMemory m)).mem.LCWritable = true := by
  constructor
  · intro h pre a post hl hodd hwrite harmed
    by_contra hoff
    have hon : (cardStep (pre.foldl cardStep (resetMemory m)) a).mem.LCWritable = true := by
      rw [cardStep, access_card]
      simp [hodd, (preWrite_iff m pre).mpr harmed]
    have hreads := (h.enabled pre a post hl (eq_false_of_ne_true hoff) hon).1
    rw [CardAccess.readsOdd, hodd] at hreads
    cases hvalue : a.value <;> simp_all
  · intro h
    constructor
    case enabled =>
      intro pre a post hl s hoff hon
      rw [cardStep, access_card] at hon
      simp only [hoff, Bool.false_or, Bool.and_eq_true] at hon
      obtain ⟨hodd, hpre⟩ := hon
      have harmed := (preWrite_iff m pre).mp hpre
      refine ⟨?_, harmed⟩
      rw [CardAccess.readsOdd, hodd, Bool.true_and, Option.isNone_iff_eq_none]
      by_contra hwrite
      have hon := h pre a post hl hodd (Option.isSome_iff_ne_none.mpr hwrite) harmed
      rw [hoff] at hon
      cases hon
    case cancelled =>
      intro pre a post _ hwrite
      rw [cardStep, access_card]
      simp [CardAccess.readsOdd, hwrite]
    case disabled =>
      intro pre a post _ heven
      rw [cardStep, access_card]
      simp [heven]
    case selected =>
      intro pre a post _
      rw [cardStep, access_card]
      exact ⟨rfl, rfl⟩

/-- Writing is off; a read of $C081 and then a write to $C081 turn it on. -/
theorem write_enables_card :
    ¬ WriteEnable (resetMemory .initial) [⟨0, none⟩, ⟨1, none⟩, ⟨1, some 0⟩] := by
  intro h
  have hreads := (h.enabled [⟨0, none⟩, ⟨1, none⟩] ⟨1, some 0⟩ [] rfl
    (by simp [cardStep, access_card, CardAccess.odd, CardAccess.readsOdd])
    (by simp [cardStep, access_card, CardAccess.odd, CardAccess.readsOdd])).1
  cases hreads

end B2OS
