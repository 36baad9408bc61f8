import Mathlib.Data.List.Basic

/-!
# Runs of a State Machine

A state machine takes labelled steps: `step s i t` says that input `i` can take the state
`s` to `t`. `Run step s l t` is a run over a list of inputs. A machine whose step is a
function runs by a left fold, and `Along` speaks about every step such a run takes, with
the state that the step starts in.

## Main results

* `Run.inv`: what every step preserves, every run preserves.
* `Along.congr_of_inv`: two conditions that agree on the states of an invariant hold
  along the same runs.
* `cell_foldl`: a cell holds what the run stored into it last.
* `forUpTo_inv`, `forUpTo_rel`, `forUpTo_cell`: the rules of a counted loop.
* `forLoop_counted`: a loop over other values than its count, against a counted loop.
* `forWhile_rel`: a loop whose condition is looked at each time, against a counted loop.
* `doWhile_inv`: the rule of a loop that is left after `n` turns.
* `doWhile_through`, `doWhile_trans`: what a loop that ends has come through, and has kept to.
* `inv_prefixes_iff`: when a step keeps the invariant exactly if it meets a condition,
  every state of a run is good exactly if every step of the run meets the condition.
-/

universe u v

variable {σ : Type u} {ι : Type v}

/-- A run of a labelled machine over a list of inputs. -/
inductive Run (step : σ → ι → σ → Prop) : σ → List ι → σ → Prop
  | nil (s : σ) : Run step s [] s
  | cons {s t r : σ} {i : ι} {l : List ι} :
      step s i t → Run step t l r → Run step s (i :: l) r

/-- The steps of a machine that meet a condition on the state before the step and the
input. -/
def Guarded (good : σ → ι → Prop) (step : σ → ι → σ → Prop) (s : σ) (i : ι) (t : σ) :
    Prop :=
  good s i ∧ step s i t

/-- What every step preserves, every run preserves. -/
theorem Run.inv {step : σ → ι → σ → Prop} {I : σ → Prop}
    (hstep : ∀ {s i t}, I s → step s i t → I t) {s t : σ} {l : List ι}
    (h : Run step s l t) (hs : I s) : I t := by
  induction h with
  | nil s => exact hs
  | cons hst _ ih => exact ih (hstep hs hst)

/-- A run, and one step more. -/
theorem Run.concat {step : σ → ι → σ → Prop} {s t r : σ} {l : List ι} {i : ι}
    (h : Run step s l t) (hstep : step t i r) : Run step s (l ++ [i]) r := by
  induction h with
  | nil s => exact .cons hstep (.nil r)
  | cons hst _ ih => exact .cons hst (ih hstep)

/-- A run of one machine is a run of every machine that can take its steps. -/
theorem Run.mono {step step' : σ → ι → σ → Prop}
    (himp : ∀ {s i t}, step s i t → step' s i t) {s t : σ} {l : List ι}
    (h : Run step s l t) : Run step' s l t := by
  induction h with
  | nil s => exact .nil s
  | cons hst _ ih => exact .cons (himp hst) ih

/-! ### Machines whose step is a function -/

/-- `P` holds of every step of the run of `f` from `s` over a list of inputs: of the
state before the step and its input. -/
def Along (f : σ → ι → σ) (P : σ → ι → Prop) : σ → List ι → Prop
  | _, [] => True
  | s, i :: l => P s i ∧ Along f P (f s i) l

@[simp] theorem along_nil (f : σ → ι → σ) (P : σ → ι → Prop) (s : σ) :
    Along f P s [] := trivial

theorem along_cons {f : σ → ι → σ} {P : σ → ι → Prop} {s : σ} {i : ι} {l : List ι} :
    Along f P s (i :: l) ↔ P s i ∧ Along f P (f s i) l := Iff.rfl

instance Along.decidable {f : σ → ι → σ} {P : σ → ι → Prop} [∀ s i, Decidable (P s i)] :
    ∀ (s : σ) (l : List ι), Decidable (Along f P s l)
  | _, [] => isTrue trivial
  | s, i :: l =>
      have := Along.decidable (f := f) (P := P) (f s i) l
      inferInstanceAs (Decidable (_ ∧ _))

/-- The last step of a run. -/
theorem along_concat {f : σ → ι → σ} {P : σ → ι → Prop} {s : σ} {l : List ι} {i : ι} :
    Along f P s (l ++ [i]) ↔ Along f P s l ∧ P (l.foldl f s) i := by
  induction l generalizing s with
  | nil => exact and_comm
  | cons j l ih =>
      rw [List.cons_append, along_cons, along_cons, ih, and_assoc]
      rfl

/-- Every single step of a run: whatever stands before and after an input of the list. -/
theorem along_iff_forall_step {f : σ → ι → σ} {P : σ → ι → Prop} {s : σ} {l : List ι} :
    Along f P s l ↔ ∀ pre i post, l = pre ++ i :: post → P (pre.foldl f s) i := by
  induction l generalizing s with
  | nil => simp
  | cons j l ih =>
      rw [along_cons, ih]
      constructor
      · rintro ⟨hj, hl⟩ pre i post heq
        cases pre with
        | nil =>
            obtain ⟨rfl, -⟩ := List.cons.inj heq
            exact hj
        | cons k pre =>
            obtain ⟨rfl, hrest⟩ := List.cons.inj heq
            exact hl pre i post hrest
      · intro h
        exact ⟨h [] j l rfl, fun pre i post heq => h (j :: pre) i post (by rw [heq]; rfl)⟩

/-- What every step preserves, the run of a function preserves. -/
theorem foldl_inv {f : σ → ι → σ} {I : σ → Prop} (hstep : ∀ s i, I s → I (f s i)) :
    ∀ (l : List ι) {s : σ}, I s → I (l.foldl f s)
  | [], _, hs => hs
  | i :: l, s, hs => foldl_inv hstep l (hstep s i hs)

/-- Conditions that agree on the states of an invariant hold along the same runs. -/
theorem Along.congr_of_inv {f : σ → ι → σ} {P Q : σ → ι → Prop} {I : σ → Prop}
    (hstep : ∀ s i, I s → I (f s i)) (hPQ : ∀ s i, I s → (P s i ↔ Q s i)) :
    ∀ (l : List ι) {s : σ}, I s → (Along f P s l ↔ Along f Q s l)
  | [], _, _ => Iff.rfl
  | i :: l, s, hs => by
      rw [along_cons, along_cons, hPQ s i hs,
        Along.congr_of_inv hstep hPQ l (hstep s i hs)]

/-- When a step that meets `G` leads from a good state to a good state, every state of a run
whose steps meet `G` is good. -/
theorem Along.inv_prefixes {f : σ → ι → σ} {I : σ → Prop} {G : σ → ι → Prop}
    (hstep : ∀ s i, I s → G s i → I (f s i)) {l : List ι} {s : σ} (hs : I s)
    (h : Along f G s l) : ∀ pre, pre <+: l → I (pre.foldl f s) := by
  rintro pre ⟨post, rfl⟩
  induction pre generalizing s with
  | nil => exact hs
  | cons i pre ih =>
      obtain ⟨hi, hrest⟩ := along_cons.mp h
      exact ih (hstep s i hs hi) hrest

/-- When a step from a good state leads to a good state exactly if it meets `G`, every
state of a run is good exactly if every step of the run meets `G`. -/
theorem inv_prefixes_iff {f : σ → ι → σ} {I : σ → Prop} {G : σ → ι → Prop}
    (hstep : ∀ s i, I s → (I (f s i) ↔ G s i)) :
    ∀ (l : List ι) {s : σ}, I s → ((∀ pre, pre <+: l → I (pre.foldl f s)) ↔ Along f G s l)
  | [], s, hs => by
      simp only [List.prefix_nil, forall_eq, along_nil, iff_true]
      exact hs
  | i :: l, s, hs => by
      rw [along_cons, ← hstep s i hs]
      constructor
      · intro h
        have hi : I (f s i) := h [i] ⟨l, rfl⟩
        refine ⟨hi, (inv_prefixes_iff hstep l hi).mp fun pre hpre => ?_⟩
        exact h (i :: pre) (List.cons_prefix_cons.mpr ⟨rfl, hpre⟩)
      · rintro ⟨hi, hl⟩ pre hpre
        cases pre with
        | nil => exact hs
        | cons j pre =>
            obtain ⟨rfl, htl⟩ := List.cons_prefix_cons.mp hpre
            exact (inv_prefixes_iff hstep l hi).mpr hl pre htl

/-! ### Cells that a run stores into -/

section Cells

variable {κ : Type*} {β : Type*}

/-- What a run stores into the cell `c` last, when a step from `s` on input `i` stores
`stored s i c` there; `none` when the run stores nothing into it. -/
def lastStored (f : σ → ι → σ) (stored : σ → ι → κ → Option β) (c : κ) :
    σ → List ι → Option β
  | _, [] => none
  | s, i :: l => (lastStored f stored c (f s i) l).or (stored s i c)

/-- When a step changes a cell only by storing into it, a run leaves the value stored
last, or the value of the start. -/
theorem cell_foldl {f : σ → ι → σ} {stored : σ → ι → κ → Option β} (cell : σ → κ → β)
    (hstep : ∀ s i c, cell (f s i) c = (stored s i c).getD (cell s c)) (c : κ) :
    ∀ (l : List ι) (s : σ),
      cell (l.foldl f s) c = (lastStored f stored c s l).getD (cell s c)
  | [], _ => rfl
  | i :: l, s => by
      rw [List.foldl_cons, cell_foldl cell hstep c l (f s i), hstep, lastStored]
      cases lastStored f stored c (f s i) l <;> rfl

end Cells

/-! ### Counted loops -/

section Loops

variable {α : Type u} {β : Type v}

/-- The loop `for (i = 0; i < n; i++)` with the body `body i`. -/
def forUpTo (body : ℕ → α → α) : ℕ → α → α
  | 0, a => a
  | n + 1, a => body n (forUpTo body n a)

/-- A loop of `n + k` turns is a loop of `n` turns and one of `k` turns. -/
theorem forUpTo_add {body : ℕ → α → α} {n k : ℕ} {a : α} :
    forUpTo body (n + k) a = forUpTo (fun i => body (n + i)) k (forUpTo body n a) := by
  induction k with
  | zero => rfl
  | succ k ih => rw [← Nat.add_assoc, forUpTo, ih, forUpTo]

/-- What holds at the start and is kept by each iteration holds at the end. -/
theorem forUpTo_inv {body : ℕ → α → α} (I : ℕ → α → Prop) {n : ℕ} {a : α}
    (hstart : I 0 a) (hstep : ∀ i < n, ∀ a, I i a → I (i + 1) (body i a)) :
    I n (forUpTo body n a) := by
  induction n with
  | zero => exact hstart
  | succ n ih => exact hstep n (by omega) _ (ih fun i hi => hstep i (by omega))

/-- Loops of the same length keep a relation that their bodies keep. -/
theorem forUpTo_rel {f : ℕ → α → α} {g : ℕ → β → β} (R : α → β → Prop) {n : ℕ} {a : α} {b : β}
    (hstart : R a b) (hstep : ∀ i < n, ∀ a b, R a b → R (f i a) (g i b)) :
    R (forUpTo f n a) (forUpTo g n b) := by
  induction n with
  | zero => exact hstart
  | succ n ih => exact hstep n (by omega) _ _ (ih fun i hi => hstep i (by omega))

/-- The loop `for (; cond; i++)` from `i` on, for at most `fuel` iterations; the condition is
looked at before each of them. -/
def forWhile (cond : ℕ → β → Bool) (body : ℕ → β → β) : ℕ → ℕ → β → β
  | 0, _, b => b
  | fuel + 1, i, b => if cond i b then forWhile cond body fuel (i + 1) (body i b) else b

/-- A loop whose condition is that of a counted loop keeps a relation to that loop. -/
theorem forWhile_rel {f : ℕ → α → α} {cond : ℕ → β → Bool} {body : ℕ → β → β}
    (R : α → β → Prop) {n fuel : ℕ} {a : α} {b : β} (hfuel : n ≤ fuel) (hstart : R a b)
    (hcond : ∀ i a b, R a b → (cond i b = true ↔ i < n))
    (hstep : ∀ i < n, ∀ a b, R a b → R (f i a) (body i b)) :
    R (forUpTo f n a) (forWhile cond body fuel 0 b) := by
  -- from iteration `i` on, when the counted loop has come to it
  suffices h : ∀ fuel i b, i ≤ n → n ≤ i + fuel → R (forUpTo f i a) b →
      R (forUpTo f n a) (forWhile cond body fuel i b) from
    h fuel 0 b (by omega) (by omega) hstart
  intro fuel
  induction fuel with
  | zero =>
      intro i b hi hle hR
      obtain rfl : i = n := by omega
      exact hR
  | succ fuel ih =>
      intro i b hi hle hR
      rw [forWhile]
      by_cases hmore : i < n
      · rw [if_pos ((hcond i _ b hR).mpr hmore)]
        exact ih (i + 1) _ hmore (by omega) (hstep i hmore _ b hR)
      · rw [if_neg fun h => hmore ((hcond i _ b hR).mp h)]
        obtain rfl : i = n := by omega
        exact hR

/-- A value that iteration `j` sets, if it does so at all, and the others leave alone. -/
theorem forUpTo_cell {f : ℕ → α → α} (I : ℕ → α → Prop) (val : α → β) {j : ℕ} {P : Prop}
    [Decidable P] {v : β} {n : ℕ} {a : α} (hstart : I 0 a)
    (hstep : ∀ i < n, ∀ a, I i a → I (i + 1) (f i a))
    (hval : ∀ i < n, ∀ a, I i a → val (f i a) = if i = j ∧ P then v else val a) :
    val (forUpTo f n a) = if j < n ∧ P then v else val a := by
  induction n with
  | zero => simp [forUpTo]
  | succ n ih =>
      have hinv : I n (forUpTo f n a) :=
        forUpTo_inv I hstart fun i hi => hstep i (by omega)
      rw [forUpTo, hval n (by omega) _ hinv,
        ih (fun i hi => hstep i (by omega)) fun i hi => hval i (by omega)]
      by_cases hP : P
      · simp only [hP, and_true]
        split_ifs <;> first | rfl | omega
      · simp only [hP, and_false, if_false]

/-- The loop `for (; cond x; x = next x)` from `x` on, for at most the given number of looks at its
condition; `none` when they run out or a turn does not return. -/
def forLoop {χ : Type*} (cond : χ → Bool) (next : χ → χ) (body : χ → α → Option α) :
    ℕ → χ → α → Option α
  | 0, _, _ => none
  | fuel + 1, x, a =>
      if cond x then (body x a).bind (forLoop cond next body fuel (next x)) else some a

/-- A loop whose variable has the value `val i` in turn `i`, and whose condition ends after `n`
turns. -/
theorem forLoop_counted {χ : Type*} {cond : χ → Bool} {next : χ → χ} {body : χ → α → Option α}
    (val : ℕ → χ) {f : ℕ → α → α} {n fuel : ℕ} (hnext : ∀ i < n, next (val i) = val (i + 1))
    (hcond : ∀ i ≤ n, cond (val i) = true ↔ i < n)
    (hbody : ∀ i < n, ∀ a, body (val i) a = some (f i a)) (hfuel : n < fuel) (a : α) :
    forLoop cond next body fuel (val 0) a = some (forUpTo f n a) := by
  -- from turn `i` on, when the counted loop has come to it
  suffices h : ∀ fuel i, i ≤ n → n < i + fuel →
      forLoop cond next body fuel (val i) (forUpTo f i a) = some (forUpTo f n a) from
    h fuel 0 (Nat.zero_le n) (by omega)
  intro fuel
  induction fuel with
  | zero =>
      intro i hi hlt
      omega
  | succ fuel ih =>
      intro i hi hlt
      rw [forLoop]
      by_cases hmore : i < n
      · rw [if_pos ((hcond i hi).mpr hmore), hbody i hmore, Option.bind_some, hnext i hmore]
        exact ih (i + 1) hmore (by omega)
      · rw [if_neg fun h => hmore ((hcond i hi).mp h)]
        obtain rfl : i = n := by omega
        rfl

/-- The loop `do body while (again)` for at most the given number of turns; `none` when the
turns run out or the body does not return. -/
def doWhile (body : α → Option α) (again : α → Bool) : ℕ → α → Option α
  | 0, _ => none
  | fuel + 1, a => do
      let a ← body a
      if again a then doWhile body again fuel a else some a

/-- A loop whose invariant counts the turns: when the body keeps it and goes on exactly until
turn `n`, enough turns lead to its end. -/
theorem doWhile_inv {body : α → Option α} {again : α → Bool} (I : ℕ → α → Prop) {n : ℕ}
    (hstep : ∀ i < n, ∀ a, I i a → ∃ b, body a = some b ∧ I (i + 1) b ∧
      (again b = true ↔ i + 1 < n)) {fuel : ℕ} (hn : 0 < n) (hfuel : n ≤ fuel) {a : α}
    (hstart : I 0 a) : ∃ b, doWhile body again fuel a = some b ∧ I n b := by
  -- the turns that are left, from any turn on
  suffices h : ∀ fuel i a, i < n → n ≤ i + fuel → I i a →
      ∃ b, doWhile body again fuel a = some b ∧ I n b from
    h fuel 0 a hn (by omega) hstart
  intro fuel
  induction fuel with
  | zero =>
      intro i a hi hle _
      omega
  | succ fuel ih =>
      intro i a hi hle hI
      obtain ⟨b, hbody, hb, hagain⟩ := hstep i hi a hI
      rw [doWhile, hbody, Option.bind_eq_bind, Option.bind_some]
      by_cases hmore : i + 1 < n
      · rw [if_pos (hagain.mpr hmore)]
        exact ih (i + 1) b hmore (by omega) hb
      · rw [if_neg fun h => hmore (hagain.mp h)]
        have hlast : i + 1 = n := by omega
        exact ⟨b, rfl, hlast ▸ hb⟩

/-- A loop that goes on for at least `n` turns and ends has come to the end of turn `n`. -/
theorem doWhile_through {body : α → Option α} {again : α → Bool} (I : ℕ → α → Prop) {n : ℕ}
    (hstep : ∀ i < n, ∀ a, I i a → ∃ b, body a = some b ∧ I (i + 1) b ∧ again b = true)
    {fuel : ℕ} {a r : α} (hstart : I 0 a) (hrun : doWhile body again fuel a = some r) :
    ∃ rest b, I n b ∧ doWhile body again rest b = some r := by
  suffices h : ∀ k ≤ n, ∃ rest b, I k b ∧ doWhile body again rest b = some r from h n (Nat.le_refl n)
  intro k
  induction k with
  | zero => exact fun _ => ⟨fuel, a, hstart, hrun⟩
  | succ k ih =>
      intro hk
      obtain ⟨rest, b, hb, hrest⟩ := ih (by omega)
      obtain ⟨c, hbody, hc, hagain⟩ := hstep k (by omega) b hb
      cases rest with
      | zero =>
          rw [doWhile] at hrest
          cases hrest
      | succ rest =>
          rw [doWhile, hbody, Option.bind_eq_bind, Option.bind_some, if_pos hagain] at hrest
          exact ⟨rest, c, hc, hrest⟩

/-- A transitive relation that every turn keeps to holds between the start of a loop and its end. -/
theorem doWhile_trans {body : α → Option α} {again : α → Bool} (R : α → α → Prop)
    (htrans : ∀ {a b c}, R a b → R b c → R a c) (hbody : ∀ {a b}, body a = some b → R a b)
    {fuel : ℕ} {a r : α} (hrun : doWhile body again fuel a = some r) : R a r := by
  induction fuel generalizing a with
  | zero =>
      rw [doWhile] at hrun
      cases hrun
  | succ fuel ih =>
      rw [doWhile, Option.bind_eq_bind, Option.bind_eq_some_iff] at hrun
      obtain ⟨b, hb, hrest⟩ := hrun
      split_ifs at hrest
      · exact htrans (hbody hb) (ih hrest)
      · obtain rfl := Option.some.inj hrest
        exact hbody hb

/-- What every turn raises, a loop that ends has raised. -/
theorem doWhile_lt {body : α → Option α} {again : α → Bool} (measure : α → ℕ)
    (hbody : ∀ {a b}, body a = some b → measure a < measure b) {fuel : ℕ} {a r : α}
    (hrun : doWhile body again fuel a = some r) : measure a < measure r :=
  doWhile_trans (fun a b => measure a < measure b) Nat.lt_trans hbody hrun

/-- A loop over states with something more in them, against the loop over what they are of. -/
theorem doWhile_map {β : Type*} {body : α → Option α} {body' : β → Option β} (f : β → α)
    (again : α → Bool) (hbody : ∀ b, (body' b).map f = body (f b)) (fuel : ℕ) (b : β) :
    (doWhile body' (fun b => again (f b)) fuel b).map f = doWhile body again fuel (f b) := by
  induction fuel generalizing b with
  | zero => rfl
  | succ fuel ih =>
      rw [doWhile, doWhile, ← hbody b]
      cases body' b with
      | none => rfl
      | some c =>
          simp only [Option.bind_eq_bind, Option.bind_some, Option.map_some]
          by_cases hagain : again (f c) = true
          · rw [if_pos hagain, if_pos hagain]
            exact ih c
          · rw [if_neg hagain, if_neg hagain]
            rfl

end Loops
