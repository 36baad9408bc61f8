import Mathlib.Data.Nat.Digits.Lemmas

/-!
# Adding Digit by Digit

Numbers of several digits, the lowest digit first, are added by a chain: each step adds two
digits and a carry, and hands its carry to the next step. A step is an adder at two digits
when its digit and its carry make up the sum. What the digits are, and how they encode a
value, is left open.

## Main results

* `addDigits_value`: the digits and the last carry make up the sum of the numbers.
* `addDigits_mod`, `addDigits_carry`: the digits are the sum modulo `B ^ n`, and the carry
  says whether the sum reaches `B ^ n`.
-/

universe u v

variable {δ : Type u} {ε : Type v}

/-- Add pairs of digits from the lowest on. -/
def addDigits (step : δ → ε → Bool → δ × Bool) : List (δ × ε) → Bool → List δ × Bool
  | [], c => ([], c)
  | (x, y) :: l, c =>
      let r := step x y c
      let rs := addDigits step l r.2
      (r.1 :: rs.1, rs.2)

/-- The step adds the digits `x` and `y` in base `B`, whose values `val` and `val'` tell. -/
def AddsAt (B : ℕ) (val : δ → ℕ) (val' : ε → ℕ) (step : δ → ε → Bool → δ × Bool)
    (x : δ) (y : ε) : Prop :=
  ∀ c, val (step x y c).1 + B * (step x y c).2.toNat = val x + val' y + c.toNat ∧
    val (step x y c).1 < B

section AddDigits

variable {B : ℕ} {val : δ → ℕ} {val' : ε → ℕ} {step : δ → ε → Bool → δ × Bool}
variable {l : List (δ × ε)}

@[simp] theorem addDigits_length (step : δ → ε → Bool → δ × Bool) (l : List (δ × ε))
    (c : Bool) : (addDigits step l c).1.length = l.length := by
  induction l generalizing c with
  | nil => rfl
  | cons p l ih => simp [addDigits, ih]

/-- The value of the first numbers of a list of pairs. -/
def fstValue (B : ℕ) (val : δ → ℕ) (l : List (δ × ε)) : ℕ :=
  Nat.ofDigits B (l.map fun p => val p.1)

/-- The value of the second numbers of a list of pairs. -/
def sndValue (B : ℕ) (val' : ε → ℕ) (l : List (δ × ε)) : ℕ :=
  Nat.ofDigits B (l.map fun p => val' p.2)

theorem fstValue_concat (B : ℕ) (val : δ → ℕ) (l : List (δ × ε)) (p : δ × ε) :
    fstValue B val (l ++ [p]) = fstValue B val l + B ^ l.length * val p.1 := by
  simp [fstValue, Nat.ofDigits_append]

theorem sndValue_concat (B : ℕ) (val' : ε → ℕ) (l : List (δ × ε)) (p : δ × ε) :
    sndValue B val' (l ++ [p]) = sndValue B val' l + B ^ l.length * val' p.2 := by
  simp [sndValue, Nat.ofDigits_append]

/-- The digits and the last carry make up the sum of the numbers. -/
theorem addDigits_value (hadd : ∀ p ∈ l, AddsAt B val val' step p.1 p.2) (c : Bool) :
    Nat.ofDigits B ((addDigits step l c).1.map val) +
        B ^ l.length * (addDigits step l c).2.toNat =
      fstValue B val l + sndValue B val' l + c.toNat := by
  induction l generalizing c with
  | nil => simp [addDigits, fstValue, sndValue]
  | cons p l ih =>
      obtain ⟨hp, hl⟩ := List.forall_mem_cons.mp hadd
      obtain ⟨hstep, -⟩ := hp c
      have htail := ih hl (step p.1 p.2 c).2
      simp only [addDigits, fstValue, sndValue, List.map_cons, Nat.ofDigits_cons,
        List.length_cons] at htail ⊢
      calc val (step p.1 p.2 c).1 + B * Nat.ofDigits B
              ((addDigits step l (step p.1 p.2 c).2).1.map val) +
            B ^ (l.length + 1) * (addDigits step l (step p.1 p.2 c).2).2.toNat
          = val (step p.1 p.2 c).1 + B * (Nat.ofDigits B
              ((addDigits step l (step p.1 p.2 c).2).1.map val) +
            B ^ l.length * (addDigits step l (step p.1 p.2 c).2).2.toNat) := by ring
        _ = val (step p.1 p.2 c).1 + B * (step p.1 p.2 c).2.toNat +
            B * Nat.ofDigits B (l.map fun p => val p.1) +
            B * Nat.ofDigits B (l.map fun p => val' p.2) := by
          rw [htail]
          ring
        _ = _ := by
          rw [hstep]
          ring

/-- What every step ensures of its digit holds of every digit of the chain. -/
theorem addDigits_forall {P : δ → Prop} (hP : ∀ p ∈ l, ∀ c, P (step p.1 p.2 c).1) (c : Bool) :
    ∀ d ∈ (addDigits step l c).1, P d := by
  induction l generalizing c with
  | nil => simp [addDigits]
  | cons p l ih =>
      obtain ⟨hp, hl⟩ := List.forall_mem_cons.mp hP
      exact List.forall_mem_cons.mpr ⟨hp c, ih hl _⟩

theorem addDigits_lt (hadd : ∀ p ∈ l, AddsAt B val val' step p.1 p.2) (c : Bool) :
    ∀ d ∈ (addDigits step l c).1, val d < B :=
  addDigits_forall (fun p hp c => (hadd p hp c).2) c

theorem ofDigits_map_lt {ds : List δ} (hB : 1 < B) (hlt : ∀ d ∈ ds, val d < B) :
    Nat.ofDigits B (ds.map val) < B ^ ds.length := by
  have h := Nat.ofDigits_lt_base_pow_length (l := ds.map val) hB ?_
  · rwa [List.length_map] at h
  · intro x hx
    obtain ⟨d, hd, rfl⟩ := List.mem_map.mp hx
    exact hlt d hd

theorem fstValue_lt (hB : 1 < B) (hlt : ∀ p ∈ l, val p.1 < B) :
    fstValue B val l < B ^ l.length := by
  have h := ofDigits_map_lt hB (fun d hd => ?_ : ∀ d ∈ l.map Prod.fst, val d < B)
  · simpa [fstValue, Function.comp_def] using h
  · obtain ⟨p, hp, rfl⟩ := List.mem_map.mp hd
    exact hlt p hp

theorem sndValue_lt (hB : 1 < B) (hlt : ∀ p ∈ l, val' p.2 < B) :
    sndValue B val' l < B ^ l.length := by
  have h := ofDigits_map_lt hB (fun d hd => ?_ : ∀ d ∈ l.map Prod.snd, val' d < B)
  · simpa [sndValue, Function.comp_def] using h
  · obtain ⟨p, hp, rfl⟩ := List.mem_map.mp hd
    exact hlt p hp

/-- The digits of the chain are the sum modulo `B ^ n`. -/
theorem addDigits_mod (hB : 1 < B) (hadd : ∀ p ∈ l, AddsAt B val val' step p.1 p.2)
    (c : Bool) :
    Nat.ofDigits B ((addDigits step l c).1.map val) =
      (fstValue B val l + sndValue B val' l + c.toNat) % B ^ l.length := by
  have hlt := ofDigits_map_lt hB (addDigits_lt hadd c)
  rw [addDigits_length] at hlt
  rw [← addDigits_value hadd c, Nat.add_mul_mod_self_left, Nat.mod_eq_of_lt hlt]

/-- The last carry of the chain says whether the sum reaches `B ^ n`. -/
theorem addDigits_carry (hB : 1 < B) (hadd : ∀ p ∈ l, AddsAt B val val' step p.1 p.2)
    (c : Bool) :
    (addDigits step l c).2 = true ↔
      B ^ l.length ≤ fstValue B val l + sndValue B val' l + c.toNat := by
  have hlt := ofDigits_map_lt hB (addDigits_lt hadd c)
  rw [addDigits_length] at hlt
  rw [← addDigits_value hadd c]
  cases (addDigits step l c).2 with
  | false => simpa using hlt
  | true => simp

/-- A number and the number of the digits that are missing to `B - 1`. -/
theorem sndValue_complement (hlt : ∀ p ∈ l, val' p.2 < B) :
    sndValue B (fun y => B - 1 - val' y) l + sndValue B val' l + 1 = B ^ l.length := by
  induction l with
  | nil => simp [sndValue]
  | cons p l ih =>
      obtain ⟨hp, hl⟩ := List.forall_mem_cons.mp hlt
      have htail := ih hl
      simp only [sndValue, List.map_cons, Nat.ofDigits_cons, List.length_cons] at htail ⊢
      have hdigit : B - 1 - val' p.2 + val' p.2 + 1 = B := by omega
      calc B - 1 - val' p.2 + B * Nat.ofDigits B (l.map fun p => B - 1 - val' p.2) +
            (val' p.2 + B * Nat.ofDigits B (l.map fun p => val' p.2)) + 1
          = (B - 1 - val' p.2 + val' p.2 + 1) + B *
            (Nat.ofDigits B (l.map fun p => B - 1 - val' p.2) +
              Nat.ofDigits B (l.map fun p => val' p.2)) := by ring
        _ = B * (Nat.ofDigits B (l.map fun p => B - 1 - val' p.2) +
              Nat.ofDigits B (l.map fun p => val' p.2) + 1) := by
          rw [hdigit]
          ring
        _ = B ^ (l.length + 1) := by
          rw [htail]
          ring

end AddDigits
