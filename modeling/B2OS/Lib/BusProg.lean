import Mathlib.Algebra.GroupWithZero.Nat
import Mathlib.Data.Set.Basic

/-!
# Programs over a Memory Bus

A processor touches the outside world only through a memory bus: it reads an address, it
writes a value to an address. A `BusProg` is a computation with exactly these effects,
kept as a tree: a `read` node continues on the value the bus answers, a `write` node
continues without an answer, and a `note` node emits an annotation that the bus never
sees (a charge to a clock, for instance). The tree says nothing about what memory is;
a `Bus` supplies that, with arbitrary side effects on an arbitrary state.

`BusProg.exec` runs a tree on a bus and returns everything there is to observe: the
result, the final state of the bus, the accesses in order and the notes in order.

## Main results

* `BusProg.exec_bind`: running a sequence is running its parts one after the other.
* `BusProg.exec_state`: a run leaves what its accesses leave.
* `BusProg.exec_erase`: erasing what the bus does not look at commutes with every run.
* `BusProg.cell_exec_of_no_write`: on the part of the address space where a bus behaves
  as plain storage, a run changes no cell that it does not write.
* `BusProg.Matches.bind`: programs that match step by step match; `BusProg.Matches` is
  equality of everything observable but the notes, up to a relation of the results.
* `BusProg.Costs.exec_notes`: a tree whose paths all weigh the same emits notes of that
  total weight on every bus.
* `BusProg.Emits.exec_notes`: a tree whose paths all emit the same notes emits them on every
  bus.
-/

universe u v

/-- A **memory bus** on addresses `α` and values `β`: reads and writes act on a state in
any way they like, a read included. -/
structure Bus (α β : Type) (σ : Type u) where
  /-- The value a read answers, and the state it leaves. -/
  read : α → σ → β × σ
  /-- The state a write leaves. -/
  write : α → β → σ → σ

/-- On the addresses of `S` the bus is **plain storage**, seen through `cell`: a read
answers the cell, no read changes a cell, and a write changes the addressed cell only. -/
structure Bus.RamOn {α β : Type} {σ : Type u} (bus : Bus α β σ) (S : Set α) (cell : σ → α → β) :
    Prop where
  read_val : ∀ a ∈ S, ∀ s, (bus.read a s).1 = cell s a
  read_cell : ∀ a s, ∀ b ∈ S, cell (bus.read a s).2 b = cell s b
  write_self : ∀ a ∈ S, ∀ v s, cell (bus.write a v s) a = v
  write_other : ∀ a v s, ∀ b ∈ S, a ≠ b → cell (bus.write a v s) b = cell s b

/-- Plain storage on a set is plain storage on every part of it. -/
theorem Bus.RamOn.mono {α β : Type} {σ : Type u} {bus : Bus α β σ} {S T : Set α}
    {cell : σ → α → β} (h : bus.RamOn T cell) (hST : S ⊆ T) : bus.RamOn S cell where
  read_val a ha := h.read_val a (hST ha)
  read_cell a s b hb := h.read_cell a s b (hST hb)
  write_self a ha := h.write_self a (hST ha)
  write_other a v s b hb := h.write_other a v s b (hST hb)

/-- Memory with nothing behind it: every address is a cell. -/
def Bus.flat {α β : Type} [DecidableEq α] : Bus α β (α → β) where
  read a m := (m a, m)
  write a v m := fun b => if b = a then v else m b

/-- A map of the states that **erases** what the bus does not look at: the bus behaves the same
before and after it. -/
structure Bus.Erases {α β : Type} {σ : Type u} {τ : Type v} (bus : Bus α β σ) (bus' : Bus α β τ)
    (erase : σ → τ) : Prop where
  read : ∀ a s, bus'.read a (erase s) = ((bus.read a s).1, erase (bus.read a s).2)
  write : ∀ a b s, bus'.write a b (erase s) = erase (bus.write a b s)

/-- A program over a memory bus, with notes of type `ε` and a result of type `γ`. -/
inductive BusProg (α β ε γ : Type) : Type
  | ret (c : γ)
  | read (a : α) (k : β → BusProg α β ε γ)
  | write (a : α) (b : β) (k : BusProg α β ε γ)
  | note (e : ε) (k : BusProg α β ε γ)

/-- One access to the bus, with the value that travelled. -/
inductive Access (α β : Type) : Type
  | read (a : α) (b : β)
  | write (a : α) (b : β)
deriving DecidableEq, Repr

/-- The state that an access leaves. -/
def Bus.after {α β : Type} {σ : Type u} (bus : Bus α β σ) (s : σ) : Access α β → σ
  | .read a _ => (bus.read a s).2
  | .write a b => bus.write a b s

/-- All there is to observe of a run: the result, the final bus state, the accesses and
the notes, each in order. -/
structure Outcome (α β ε γ : Type) (σ : Type u) where
  val : γ
  state : σ
  accesses : List (Access α β)
  notes : List ε

namespace BusProg

variable {α β ε γ δ : Type} {σ : Type u}

/-- Sequencing: graft the continuation onto every leaf. -/
def bind : BusProg α β ε γ → (γ → BusProg α β ε δ) → BusProg α β ε δ
  | ret c, f => f c
  | read a k, f => read a fun b => (k b).bind f
  | write a b k, f => write a b (k.bind f)
  | note e k, f => note e (k.bind f)

instance : Monad (BusProg α β ε) where
  pure := ret
  bind := bind

@[simp] theorem pure_eq (c : γ) : (pure c : BusProg α β ε γ) = ret c := rfl

@[simp] theorem ret_bind (c : γ) (f : γ → BusProg α β ε δ) : ret c >>= f = f c := rfl

@[simp] theorem read_bind (a : α) (k : β → BusProg α β ε γ) (f : γ → BusProg α β ε δ) :
    read a k >>= f = read a fun b => k b >>= f := rfl

@[simp] theorem write_bind (a : α) (b : β) (k : BusProg α β ε γ)
    (f : γ → BusProg α β ε δ) : write a b k >>= f = write a b (k >>= f) := rfl

@[simp] theorem note_bind (e : ε) (k : BusProg α β ε γ) (f : γ → BusProg α β ε δ) :
    note e k >>= f = note e (k >>= f) := rfl

theorem bind_ret (p : BusProg α β ε γ) : p >>= ret = p := by
  induction p with
  | ret c => rfl
  | read a k ih => exact congrArg (read a) (funext ih)
  | write a b k ih => exact congrArg (write a b) ih
  | note e k ih => exact congrArg (note e) ih

/-! ### Running a program on a bus -/

/-- Run a program on a bus from a state. -/
def exec (bus : Bus α β σ) : BusProg α β ε γ → σ → Outcome α β ε γ σ
  | ret c, s => ⟨c, s, [], []⟩
  | read a k, s =>
      let r := bus.read a s
      let o := exec bus (k r.1) r.2
      { o with accesses := .read a r.1 :: o.accesses }
  | write a b k, s =>
      let o := exec bus k (bus.write a b s)
      { o with accesses := .write a b :: o.accesses }
  | note e k, s =>
      let o := exec bus k s
      { o with notes := e :: o.notes }

@[simp] theorem exec_ret (bus : Bus α β σ) (c : γ) (s : σ) :
    (ret c : BusProg α β ε γ).exec bus s = ⟨c, s, [], []⟩ := rfl

@[simp] theorem exec_read (bus : Bus α β σ) (a : α) (k : β → BusProg α β ε γ) (s : σ) :
    (read a k).exec bus s =
      { (k (bus.read a s).1).exec bus (bus.read a s).2 with
        accesses := .read a (bus.read a s).1 ::
          ((k (bus.read a s).1).exec bus (bus.read a s).2).accesses } := rfl

@[simp] theorem exec_write (bus : Bus α β σ) (a : α) (b : β) (k : BusProg α β ε γ)
    (s : σ) :
    (write a b k).exec bus s =
      { k.exec bus (bus.write a b s) with
        accesses := .write a b :: (k.exec bus (bus.write a b s)).accesses } := rfl

@[simp] theorem exec_note (bus : Bus α β σ) (e : ε) (k : BusProg α β ε γ) (s : σ) :
    (note e k).exec bus s =
      { k.exec bus s with notes := e :: (k.exec bus s).notes } := rfl

/-- Running a sequence is running its parts one after the other. -/
theorem exec_bind (bus : Bus α β σ) (p : BusProg α β ε γ) (f : γ → BusProg α β ε δ)
    (s : σ) :
    (p >>= f).exec bus s =
      let o := p.exec bus s
      let o' := (f o.val).exec bus o.state
      ⟨o'.val, o'.state, o.accesses ++ o'.accesses, o.notes ++ o'.notes⟩ := by
  induction p generalizing s with
  | ret c => simp
  | read a k ih => simp [ih]
  | write a b k ih => simp [ih]
  | note e k ih => simp [ih]

/-- What every access keeps, every run keeps. -/
theorem exec_inv {bus : Bus α β σ} {I : σ → Prop} (hread : ∀ a s, I s → I (bus.read a s).2)
    (hwrite : ∀ a b s, I s → I (bus.write a b s)) (p : BusProg α β ε γ) {s : σ} (hs : I s) :
    I (p.exec bus s).state := by
  induction p generalizing s with
  | ret c => exact hs
  | read a k ih => exact ih _ (hread a s hs)
  | write a b k ih => exact ih (hwrite a b s hs)
  | note e k ih => exact ih hs

/-- A run leaves what its accesses leave. -/
theorem exec_state (bus : Bus α β σ) (p : BusProg α β ε γ) (s : σ) :
    (p.exec bus s).state = (p.exec bus s).accesses.foldl bus.after s := by
  induction p generalizing s with
  | ret c => rfl
  | read a k ih => exact ih _ _
  | write a b k ih => exact ih _
  | note e k ih => exact ih s

/-- A run from an erased state is the erased run. -/
theorem exec_erase {τ : Type v} {bus : Bus α β σ} {bus' : Bus α β τ} {erase : σ → τ}
    (h : bus.Erases bus' erase) (p : BusProg α β ε γ) (s : σ) :
    p.exec bus' (erase s) =
      ⟨(p.exec bus s).val, erase (p.exec bus s).state, (p.exec bus s).accesses,
        (p.exec bus s).notes⟩ := by
  induction p generalizing s with
  | ret c => rfl
  | read a k ih => simp only [exec_read, h.read, ih]
  | write a b k ih => simp only [exec_write, h.write, ih]
  | note e k ih => simp only [exec_note, ih]

/-! ### Programs with the same accesses -/

variable {ε' γ' δ' : Type}

/-- Two programs **match** on a bus from a state: they make the same accesses in the same
order, leave the bus in the same state and answer results related by `R`. Their notes are
not compared. -/
structure Matches (bus : Bus α β σ) (R : γ → γ' → Prop) (p : BusProg α β ε γ)
    (q : BusProg α β ε' γ') (s : σ) : Prop where
  val : R (p.exec bus s).val (q.exec bus s).val
  state : (p.exec bus s).state = (q.exec bus s).state
  accesses : (p.exec bus s).accesses = (q.exec bus s).accesses

section Matches

variable {bus : Bus α β σ} {R : γ → γ' → Prop} {s : σ}

@[simp] theorem matches_ret (c : γ) (c' : γ') :
    Matches bus R (ret c : BusProg α β ε γ) (ret c' : BusProg α β ε' γ') s ↔ R c c' :=
  ⟨fun h => h.val, fun h => ⟨h, rfl, rfl⟩⟩

/-- Reads of one address match when what follows matches on the byte answered. -/
@[simp] theorem matches_read (a : α) (k : β → BusProg α β ε γ)
    (k' : β → BusProg α β ε' γ') :
    Matches bus R (read a k) (read a k') s ↔
      Matches bus R (k (bus.read a s).1) (k' (bus.read a s).1) (bus.read a s).2 :=
  ⟨fun h => ⟨h.val, h.state, (List.cons.inj h.accesses).2⟩,
    fun h => ⟨h.val, h.state, congrArg _ h.accesses⟩⟩

@[simp] theorem matches_write (a : α) (b : β) (k : BusProg α β ε γ)
    (k' : BusProg α β ε' γ') :
    Matches bus R (write a b k) (write a b k') s ↔ Matches bus R k k' (bus.write a b s) :=
  ⟨fun h => ⟨h.val, h.state, (List.cons.inj h.accesses).2⟩,
    fun h => ⟨h.val, h.state, congrArg _ h.accesses⟩⟩

@[simp] theorem matches_note_left (e : ε) (p : BusProg α β ε γ)
    (q : BusProg α β ε' γ') : Matches bus R (note e p) q s ↔ Matches bus R p q s :=
  ⟨fun h => ⟨h.val, h.state, h.accesses⟩, fun h => ⟨h.val, h.state, h.accesses⟩⟩

@[simp] theorem matches_note_right (e : ε') (p : BusProg α β ε γ)
    (q : BusProg α β ε' γ') : Matches bus R p (note e q) s ↔ Matches bus R p q s :=
  ⟨fun h => ⟨h.val, h.state, h.accesses⟩, fun h => ⟨h.val, h.state, h.accesses⟩⟩

/-- Sequences match when their first parts do and what follows matches on their results,
from the state they leave. -/
theorem Matches.bind {R' : δ → δ' → Prop} {p : BusProg α β ε γ} {q : BusProg α β ε' γ'}
    {f : γ → BusProg α β ε δ} {g : γ' → BusProg α β ε' δ'} (hpq : Matches bus R p q s)
    (hfg : ∀ c c' t, R c c' → Matches bus R' (f c) (g c') t) :
    Matches bus R' (p >>= f) (q >>= g) s := by
  obtain ⟨hval, hstate, hacc⟩ := hfg _ _ (p.exec bus s).state hpq.val
  constructor
  · rw [exec_bind, exec_bind]
    simpa only [← hpq.state] using hval
  · rw [exec_bind, exec_bind]
    simpa only [← hpq.state] using hstate
  · rw [exec_bind, exec_bind]
    simp only [← hpq.state, hpq.accesses, hacc]

/-- Sequences match when their first parts do and what follows matches from where these lead. -/
theorem Matches.bind_at {R' : δ → δ' → Prop} {p : BusProg α β ε γ} {q : BusProg α β ε' γ'}
    {f : γ → BusProg α β ε δ} {g : γ' → BusProg α β ε' δ'} (hpq : Matches bus R p q s)
    (hfg : Matches bus R' (f (p.exec bus s).val) (g (q.exec bus s).val) (p.exec bus s).state) :
    Matches bus R' (p >>= f) (q >>= g) s := by
  obtain ⟨hval, hstate, haccesses⟩ := hfg
  constructor
  · rw [exec_bind, exec_bind]
    simpa only [← hpq.state] using hval
  · rw [exec_bind, exec_bind]
    simpa only [← hpq.state] using hstate
  · rw [exec_bind, exec_bind]
    simp only [← hpq.state, hpq.accesses, haccesses]

theorem Matches.mono {R' : γ → γ' → Prop} {p : BusProg α β ε γ} {q : BusProg α β ε' γ'}
    (h : Matches bus R p q s) (hR : ∀ c c', R c c' → R' c c') : Matches bus R' p q s :=
  ⟨hR _ _ h.val, h.state, h.accesses⟩

end Matches

/-! ### Plain storage behind a bus -/

/-- A run changes no storage cell that it does not write. -/
theorem cell_exec_of_no_write {bus : Bus α β σ} {S : Set α} {cell : σ → α → β}
    (hram : bus.RamOn S cell) {b : α} (hb : b ∈ S) :
    ∀ (p : BusProg α β ε γ) (s : σ),
      (∀ v, Access.write b v ∉ (p.exec bus s).accesses) →
      cell (p.exec bus s).state b = cell s b := by
  intro p
  induction p with
  | ret c => intro s _; rfl
  | read a k ih =>
      intro s hno
      simp only [exec_read, List.mem_cons, reduceCtorEq, false_or] at hno ⊢
      rw [ih _ _ hno, hram.read_cell a s b hb]
  | write a v k ih =>
      intro s hno
      simp only [exec_write, List.mem_cons, Access.write.injEq, not_or, not_and] at hno ⊢
      have hab : a ≠ b := fun h => (hno v).1 h.symm rfl
      rw [ih _ fun w => (hno w).2, hram.write_other a v s b hb hab]
  | note e k ih => intro s hno; exact ih s hno

/-! ### What holds of every result -/

/-- Every result that a program can answer satisfies `P`. -/
def Always (P : γ → Prop) : BusProg α β ε γ → Prop
  | ret c => P c
  | read _ k => ∀ b, (k b).Always P
  | write _ _ k => k.Always P
  | note _ k => k.Always P

section Always

variable {P : γ → Prop}

@[simp] theorem always_ret (c : γ) : (ret c : BusProg α β ε γ).Always P ↔ P c := Iff.rfl

@[simp] theorem always_read (a : α) (k : β → BusProg α β ε γ) :
    (read a k).Always P ↔ ∀ b, (k b).Always P := Iff.rfl

@[simp] theorem always_write (a : α) (b : β) (k : BusProg α β ε γ) :
    (write a b k).Always P ↔ k.Always P := Iff.rfl

@[simp] theorem always_note (e : ε) (k : BusProg α β ε γ) :
    (note e k).Always P ↔ k.Always P := Iff.rfl

end Always

theorem Always.bind {P : γ → Prop} {Q : δ → Prop} {p : BusProg α β ε γ}
    {f : γ → BusProg α β ε δ} (hp : p.Always P) (hf : ∀ c, P c → (f c).Always Q) :
    (p >>= f).Always Q := by
  induction p with
  | ret c => exact hf c hp
  | read a k ih => exact fun b => ih b (hp b)
  | write a b k ih => exact ih hp
  | note e k ih => exact ih hp

theorem Always.mono {P Q : γ → Prop} {p : BusProg α β ε γ} (hp : p.Always P)
    (h : ∀ c, P c → Q c) : p.Always Q := by
  induction p with
  | ret c => exact h c hp
  | read a k ih => exact fun b => ih b (hp b)
  | write a b k ih => exact ih hp
  | note e k ih => exact ih hp

theorem Always.exec {P : γ → Prop} {p : BusProg α β ε γ} (hp : p.Always P)
    (bus : Bus α β σ) (s : σ) : P (p.exec bus s).val := by
  induction p generalizing s with
  | ret c => exact hp
  | read a k ih => exact ih _ (hp _) _
  | write a b k ih => exact ih hp _
  | note e k ih => exact ih hp s

/-! ### Path-independent weight of the notes -/

/-- Every path of the program emits notes of total weight `n`. -/
def Costs (w : ε → ℕ) : BusProg α β ε γ → ℕ → Prop
  | ret _, n => n = 0
  | read _ k, n => ∀ b, (k b).Costs w n
  | write _ _ k, n => k.Costs w n
  | note e k, n => ∃ m, n = w e + m ∧ k.Costs w m

section Costs

variable {w : ε → ℕ} {n : ℕ}

@[simp] theorem costs_ret (c : γ) : (ret c : BusProg α β ε γ).Costs w n ↔ n = 0 := Iff.rfl

@[simp] theorem costs_read (a : α) (k : β → BusProg α β ε γ) :
    (read a k).Costs w n ↔ ∀ b, (k b).Costs w n := Iff.rfl

@[simp] theorem costs_write (a : α) (b : β) (k : BusProg α β ε γ) :
    (write a b k).Costs w n ↔ k.Costs w n := Iff.rfl

@[simp] theorem costs_note (e : ε) (k : BusProg α β ε γ) :
    (note e k).Costs w n ↔ ∃ m, n = w e + m ∧ k.Costs w m := Iff.rfl

end Costs

/-- Weights add up along a sequence. -/
theorem Costs.bind {w : ε → ℕ} {p : BusProg α β ε γ} {f : γ → BusProg α β ε δ}
    {m n : ℕ} (hp : p.Costs w m) (hf : ∀ c, (f c).Costs w n) :
    (p >>= f).Costs w (m + n) := by
  induction p generalizing m with
  | ret c =>
      obtain rfl : m = 0 := hp
      simpa using hf c
  | read a k ih => exact fun b => ih b (hp b)
  | write a b k ih => exact ih hp
  | note e k ih =>
      obtain ⟨m', rfl, hk⟩ := hp
      exact ⟨m' + n, by omega, ih hk⟩

/-- On every bus, the notes of a run weigh what every path weighs. -/
theorem Costs.exec_notes {w : ε → ℕ} {p : BusProg α β ε γ} {n : ℕ} (hp : p.Costs w n)
    (bus : Bus α β σ) (s : σ) : ((p.exec bus s).notes.map w).sum = n := by
  induction p generalizing n s with
  | ret c => simpa using hp.symm
  | read a k ih => exact ih _ (hp _) _
  | write a b k ih => exact ih hp _
  | note e k ih =>
      obtain ⟨m, rfl, hk⟩ := hp
      simpa using ih hk s

/-! ### Path-independent notes -/

/-- Every path of the program emits the notes `l`. -/
def Emits : BusProg α β ε γ → List ε → Prop
  | ret _, l => l = []
  | read _ k, l => ∀ b, (k b).Emits l
  | write _ _ k, l => k.Emits l
  | note e k, l => ∃ l', l = e :: l' ∧ k.Emits l'

section Emits

variable {l : List ε}

@[simp] theorem emits_ret (c : γ) : (ret c : BusProg α β ε γ).Emits l ↔ l = [] := Iff.rfl

@[simp] theorem emits_read (a : α) (k : β → BusProg α β ε γ) :
    (read a k).Emits l ↔ ∀ b, (k b).Emits l := Iff.rfl

@[simp] theorem emits_write (a : α) (b : β) (k : BusProg α β ε γ) :
    (write a b k).Emits l ↔ k.Emits l := Iff.rfl

@[simp] theorem emits_note (e e' : ε) (k : BusProg α β ε γ) :
    (note e k).Emits (e' :: l) ↔ e' = e ∧ k.Emits l := by
  constructor
  · rintro ⟨l', hl, hk⟩
    obtain ⟨rfl, rfl⟩ := List.cons.inj hl
    exact ⟨rfl, hk⟩
  · rintro ⟨rfl, hk⟩
    exact ⟨l, rfl, hk⟩

end Emits

/-- The notes of a sequence are those of its parts. -/
theorem Emits.bind {p : BusProg α β ε γ} {f : γ → BusProg α β ε δ} {l l' : List ε}
    (hp : p.Emits l) (hf : ∀ c, (f c).Emits l') : (p >>= f).Emits (l ++ l') := by
  induction p generalizing l with
  | ret c =>
      obtain rfl : l = [] := hp
      exact hf c
  | read a k ih => exact fun b => ih b (hp b)
  | write a b k ih => exact ih hp
  | note e k ih =>
      obtain ⟨m, rfl, hk⟩ := hp
      exact ⟨m ++ l', rfl, ih hk⟩

/-- Paths that emit the same notes weigh the same. -/
theorem Emits.costs {p : BusProg α β ε γ} {l : List ε} (hp : p.Emits l) (w : ε → ℕ) :
    p.Costs w (l.map w).sum := by
  induction p generalizing l with
  | ret c =>
      obtain rfl : l = [] := hp
      rfl
  | read a k ih => exact fun b => ih b (hp b)
  | write a b k ih => exact ih hp
  | note e k ih =>
      obtain ⟨m, rfl, hk⟩ := hp
      exact ⟨(m.map w).sum, rfl, ih hk⟩

/-- On every bus, the notes of a run are what every path emits. -/
theorem Emits.exec_notes {p : BusProg α β ε γ} {l : List ε} (hp : p.Emits l)
    (bus : Bus α β σ) (s : σ) : (p.exec bus s).notes = l := by
  induction p generalizing l s with
  | ret c => exact hp.symm
  | read a k ih => exact ih _ (hp _) _
  | write a b k ih => exact ih hp _
  | note e k ih =>
      obtain ⟨m, rfl, hk⟩ := hp
      exact congrArg (e :: ·) (ih hk s)

end BusProg
