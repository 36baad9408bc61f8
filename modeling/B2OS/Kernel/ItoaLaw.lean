import B2OS.Kernel.Itoa

/-!
# What a Numeral Is

`itoa_spec` says which numeral `itoa` leaves in the buffer. Here the numerals are held against what
they are for: `parse` takes a text back to its number, and `Canonical` is the one text of a number
without leading zeros.

`itoaLogged` is `itoa` with a ledger of the offsets that it stores to. Turning the digits round
stores to offsets that hold what they are to hold, so that the contents of the buffer alone do not
show which offsets were stored to.

## Main results

* `parse_numeral`, `canonical_numeral`: the numeral of a number is canonical, and is parsed back.
* `itoaLogged_stores`: `itoa` stores to the first twelve offsets only.
* `itoa_exact`: `itoa` leaves the canonical numeral of its argument.
-/

namespace B2OS.Console

/-! ### Parsing -/

/-- The digits of all bases up to 16, in their order. -/
def digitChars : List (BitVec 8) :=
  ['0', '1', '2', '3', '4', '5', '6', '7', '8', '9', 'a', 'b', 'c', 'd', 'e', 'f'].map code

/-- The number of a text of digits. -/
def parse (b : ℕ) (text : List (BitVec 8)) : ℕ :=
  text.foldl (fun n ch => b * n + digitChars.idxOf ch) 0

/-- The number of a decimal text that may have a minus sign in front. -/
def parseInt : List (BitVec 8) → ℤ
  | [] => 0
  | ch :: text => if ch = code '-' then -(parse 10 text : ℤ) else parse 10 (ch :: text)

/-- A text of digits without leading zeros. -/
structure Canonical (b : ℕ) (text : List (BitVec 8)) : Prop where
  nonempty : text ≠ []
  digits : ∀ ch ∈ text, ch ∈ digitChars.take b
  leading : text.head? = some (code '0') → text = [code '0']

/-- A canonical decimal text, or one of a number other than zero with a minus sign in front. -/
def CanonicalInt (text : List (BitVec 8)) : Prop :=
  Canonical 10 text ∨ ∃ digits, text = code '-' :: digits ∧ Canonical 10 digits ∧
    digits ≠ [code '0']

theorem parse_concat (b : ℕ) (text : List (BitVec 8)) (ch : BitVec 8) :
    parse b (text ++ [ch]) = b * parse b text + digitChars.idxOf ch := by
  rw [parse, List.foldl_append]
  rfl

/-- The digits of `Nat.toDigits` are those of the list. -/
theorem code_digitChar {d : ℕ} (hd : d < 16) :
    digitChars.idxOf (code (Nat.digitChar d)) = d ∧
      digitChars[d]? = some (code (Nat.digitChar d)) := by
  revert d
  decide

/-- A numeral is parsed back. -/
theorem parse_numeral {b : ℕ} (hb : 1 < b) (hb' : b ≤ 16) (n : ℕ) : parse b (numeral b n) = n := by
  induction n using Nat.strong_induction_on with
  | _ n ih =>
      have hmod : n % b < b := Nat.mod_lt n (by omega)
      rw [numeral_eq hb]
      split_ifs with hlt
      · rw [← List.nil_append [_], parse_concat, (code_digitChar (by omega)).1]
        exact Nat.zero_add n
      · rw [parse_concat, ih _ (Nat.div_lt_self (by omega) hb), (code_digitChar (by omega)).1]
        exact Nat.div_add_mod n b

theorem digits_numeral {b : ℕ} (hb : 1 < b) (hb' : b ≤ 16) (n : ℕ) :
    ∀ ch ∈ numeral b n, ch ∈ digitChars.take b := by
  have hdigit : ∀ d < b, code (Nat.digitChar d) ∈ digitChars.take b := fun d hd => by
    refine List.mem_of_getElem? (i := d) ?_
    rw [List.getElem?_take_of_lt hd]
    exact (code_digitChar (by omega)).2
  induction n using Nat.strong_induction_on with
  | _ n ih =>
      rw [numeral_eq hb]
      split_ifs with hlt
      · rw [List.forall_mem_singleton]
        exact hdigit n hlt
      · rw [List.forall_mem_append, List.forall_mem_singleton]
        exact ⟨ih _ (Nat.div_lt_self (by omega) hb), hdigit _ (Nat.mod_lt n (by omega))⟩

/-- Only the numeral of zero starts with a zero. -/
theorem head_numeral {b : ℕ} (hb : 1 < b) (hb' : b ≤ 16) {n : ℕ}
    (h : (numeral b n).head? = some (code '0')) : n = 0 := by
  induction n using Nat.strong_induction_on with
  | _ n ih =>
      rw [numeral_eq hb] at h
      split_ifs at h with hlt
      · have hcode := (code_digitChar (show n < 16 by omega)).1
        rw [Option.some.inj h] at hcode
        exact hcode.symm
      · have hpos := List.length_pos_iff.mp (length_numeral_pos b (n / b))
        rw [List.head?_append_of_ne_nil _ hpos] at h
        have hdiv := ih _ (Nat.div_lt_self (by omega) hb) h
        exact absurd (Nat.div_pos (Nat.not_lt.mp hlt) (by omega)) (by omega)

/-- A numeral is canonical. -/
theorem canonical_numeral {b : ℕ} (hb : 1 < b) (hb' : b ≤ 16) (n : ℕ) :
    Canonical b (numeral b n) where
  nonempty := List.length_pos_iff.mp (length_numeral_pos b n)
  digits := digits_numeral hb hb' n
  leading h := by
    rw [head_numeral hb hb' h, numeral_eq hb, if_pos (by omega)]
    rfl

/-- With its sign, a numeral is parsed back too. -/
theorem parseInt_signedNumeral (i : ℤ) : parseInt (signedNumeral i) = i := by
  have hparse := parse_numeral (b := 10) (by decide) (by decide) i.natAbs
  rw [signedNumeral]
  split_ifs with hneg
  · rw [parseInt, if_pos rfl, hparse]
    omega
  · have hcanonical := canonical_numeral (b := 10) (by decide) (by decide) i.natAbs
    obtain ⟨ch, text, htext⟩ := List.exists_cons_of_ne_nil hcanonical.nonempty
    have hdigit := hcanonical.digits ch (by rw [htext]; exact List.mem_cons_self)
    have hsign : ch ≠ code '-' := by
      rintro rfl
      exact absurd hdigit (by decide)
    rw [htext] at hparse ⊢
    rw [parseInt, if_neg hsign, hparse]
    omega

theorem canonicalInt_signedNumeral (i : ℤ) : CanonicalInt (signedNumeral i) := by
  have hcanonical := canonical_numeral (b := 10) (by decide) (by decide) i.natAbs
  rw [signedNumeral]
  split_ifs with hneg
  · refine .inr ⟨_, rfl, hcanonical, fun hzero => ?_⟩
    have hnat := head_numeral (b := 10) (n := i.natAbs) (by decide) (by decide) (by rw [hzero]; rfl)
    omega
  · exact .inl hcanonical

/-! ### The ledger of the stores -/

/-- A turn of the first loop, with the ledger. -/
def itoaDigitLogged (divisor : BitVec 32) : Itoa × List ℕ → Itoa × List ℕ
  | (s, ledger) => (itoaDigit divisor s, ledger ++ [s.p])

/-- `itoa`, with a ledger of the offsets that it stores to. -/
def itoaLogged (fuel : ℕ) (buf : ℕ → BitVec 8) (base : BitVec 8) (d : BitVec 32) :
    Option ((ℕ → BitVec 8) × List ℕ) := do
  let negative := base = code 'd' ∧ d.slt 0
  let s : Itoa × List ℕ :=
    if negative then (⟨Function.update buf 0 (code '-'), 1, -d⟩, [0]) else (⟨buf, 0, d⟩, [])
  let start := s.1.p
  let divisor : BitVec 32 := if ¬ negative ∧ base = code 'x' then 16 else 10
  let (s, ledger) ←
    doWhile (fun x => some (itoaDigitLogged divisor x)) (fun x => x.1.ud != 0) fuel s
  let buf := Function.update s.buf s.p 0
  reverseLoopLogged fuel start (s.p - 1) (buf, ledger ++ [s.p])

theorem itoaDigitsLogged_fst (divisor : BitVec 32) (fuel : ℕ) (x : Itoa × List ℕ) :
    (doWhile (fun x => some (itoaDigitLogged divisor x)) (fun x => x.1.ud != 0) fuel x).map
      Prod.fst = itoaDigits divisor fuel x.1 :=
  doWhile_map Prod.fst (fun s : Itoa => s.ud != 0) (fun _ => rfl) fuel x

/-- Forgetting the ledger gives `itoa`. -/
theorem itoaLogged_fst (fuel : ℕ) (buf : ℕ → BitVec 8) (base : BitVec 8) (d : BitVec 32) :
    (itoaLogged fuel buf base d).map Prod.fst = itoa fuel buf base d := by
  have hstart : ∀ (c : Prop) [Decidable c] (s s' : Itoa) (l l' : List ℕ),
      (if c then (s, l) else (s', l')).1 = if c then s else s' := by
    intro c _ s s' l l'
    split_ifs <;> rfl
  rw [itoaLogged, itoa]
  dsimp only
  rw [← hstart _ _ _ [0] [], ← itoaDigitsLogged_fst]
  generalize (if base = code 'd' ∧ d.slt 0 = true then _ else _ : Itoa × List ℕ) = x
  generalize doWhile _ _ fuel x = r
  cases r with
  | none => rfl
  | some y => exact reverseLoopLogged_fst ..

/-- The first loop stores to the offsets that it counts over. -/
theorem mem_itoaDigitsLogged {divisor : BitVec 32} {fuel : ℕ} {x y : Itoa × List ℕ}
    (h : doWhile (fun x => some (itoaDigitLogged divisor x)) (fun x => x.1.ud != 0) fuel x =
      some y) :
    x.1.p ≤ y.1.p ∧ ∀ j ∈ y.2, j ∈ x.2 ∨ (x.1.p ≤ j ∧ j < y.1.p) := by
  refine doWhile_trans (fun x y : Itoa × List ℕ => x.1.p ≤ y.1.p ∧
    ∀ j ∈ y.2, j ∈ x.2 ∨ (x.1.p ≤ j ∧ j < y.1.p)) ?_ ?_ h
  · rintro x y z ⟨hxy, hy⟩ ⟨hyz, hz⟩
    refine ⟨hxy.trans hyz, fun j hj => ?_⟩
    rcases hz j hj with hj | hj
    · rcases hy j hj with hj | hj
      · exact .inl hj
      · exact .inr ⟨hj.1, by omega⟩
    · exact .inr ⟨by omega, hj.2⟩
  · rintro ⟨s, ledger⟩ y hturn
    obtain rfl := Option.some.inj hturn
    refine ⟨Nat.le_succ s.p, fun j hj => ?_⟩
    rcases List.mem_append.mp hj with hj | hj
    · exact .inl hj
    · obtain rfl := List.mem_singleton.mp hj
      exact .inr ⟨Nat.le_refl s.p, Nat.lt_succ_self s.p⟩

/-- `itoa` stores to the first twelve offsets only. -/
theorem itoaLogged_stores {fuel : ℕ} (hfuel : 10 ≤ fuel) {buf : ℕ → BitVec 8} {base : BitVec 8}
    {d : BitVec 32} {r : (ℕ → BitVec 8) × List ℕ} (h : itoaLogged fuel buf base d = some r) :
    ∀ j ∈ r.2, j < 12 := by
  rw [itoaLogged] at h
  dsimp only at h
  obtain ⟨x, hx, hp, hledger⟩ : ∃ x : Itoa × List ℕ, (if base = code 'd' ∧ d.slt 0 = true
      then (⟨Function.update buf 0 (code '-'), 1, -d⟩, [0]) else (⟨buf, 0, d⟩, [])) = x ∧
      x.1.p ≤ 1 ∧ ∀ j ∈ x.2, j = 0 := by
    refine ⟨_, rfl, ?_⟩
    split_ifs <;> simp
  obtain ⟨divisor, hdivisor, hlo, hhi⟩ : ∃ divisor : BitVec 32,
      (if ¬ (base = code 'd' ∧ d.slt 0 = true) ∧ base = code 'x' then 16 else 10) = divisor ∧
      10 ≤ divisor.toNat ∧ divisor.toNat ≤ 16 := by
    refine ⟨_, rfl, ?_⟩
    split_ifs <;> decide
  rw [hx, hdivisor, Option.bind_eq_bind, Option.bind_eq_some_iff] at h
  obtain ⟨⟨s, ledger⟩, hloop, hreverse⟩ := h
  -- the offsets end at the terminator, at most at 11
  have hlength := length_numeral_word hlo x.1.ud.isLt
  obtain ⟨s', hdigits, hend, -⟩ := itoaDigits_spec (by omega) hhi x.1 (hlength.trans hfuel)
  rw [← itoaDigitsLogged_fst, hloop] at hdigits
  obtain rfl : s = s' := Option.some.inj hdigits
  obtain ⟨-, hstores⟩ := mem_itoaDigitsLogged hloop
  dsimp only at hreverse hstores
  intro j hj
  rcases mem_reverseLoopLogged hreverse j hj with hj | hj
  · rcases List.mem_append.mp hj with hj | hj
    · rcases hstores j hj with hj | hj
      · rw [hledger j hj]
        decide
      · omega
    · rw [List.mem_singleton.mp hj]
      omega
  · omega

/-! ### The exact numeral -/

/-- `itoa` returns, leaves the text with a terminator in the buffer, and stores to at most twelve
offsets, which are the first ones. -/
def Leaves (base : BitVec 8) (d : BitVec 32) (text : List (BitVec 8)) : Prop :=
  ∀ fuel ≥ 10, ∀ buf, ∃ buf' stores,
    itoa fuel buf base d = some buf' ∧ itoaLogged fuel buf base d = some (buf', stores) ∧
    HoldsAt buf' 0 (text ++ [0]) ∧ (∀ j ∈ stores, j < 12) ∧
    ∀ j, text.length < j → buf' j = buf j

theorem leaves_itoaText (base : BitVec 8) (d : BitVec 32) : Leaves base d (itoaText base d) := by
  intro fuel hfuel buf
  obtain ⟨buf', hrun, hholds, hother⟩ := itoa_spec hfuel buf base d
  have hfst := itoaLogged_fst fuel buf base d
  rw [hrun, Option.map_eq_some_iff] at hfst
  obtain ⟨⟨b, stores⟩, hlogged, rfl⟩ := hfst
  exact ⟨b, stores, hrun, hlogged, hholds, itoaLogged_stores hfuel hlogged, hother⟩

/-- **`itoa` is the exact numeral**: it leaves the canonical decimal text of the signed argument,
and the canonical decimal and hexadecimal texts of the unsigned one, which are parsed back to it,
and stores to at most the first twelve bytes of the buffer. -/
theorem itoa_exact (d : BitVec 32) :
    (∃ text, Leaves (code 'd') d text ∧ CanonicalInt text ∧ parseInt text = d.toInt) ∧
      (∃ text, Leaves (code 'u') d text ∧ Canonical 10 text ∧ parse 10 text = d.toNat) ∧
      ∃ text, Leaves (code 'x') d text ∧ Canonical 16 text ∧ parse 16 text = d.toNat := by
  refine ⟨⟨signedNumeral d.toInt, ?_, canonicalInt_signedNumeral _, parseInt_signedNumeral _⟩,
    ⟨numeral 10 d.toNat, ?_, canonical_numeral (by decide) (by decide) _,
      parse_numeral (by decide) (by decide) _⟩,
    ⟨numeral 16 d.toNat, ?_, canonical_numeral (by decide) (by decide) _,
      parse_numeral (by decide) (by decide) _⟩⟩
  · exact leaves_itoaText (code 'd') d
  · exact leaves_itoaText (code 'u') d
  · exact leaves_itoaText (code 'x') d

end B2OS.Console
