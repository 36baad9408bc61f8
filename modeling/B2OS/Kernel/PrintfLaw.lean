import B2OS.Kernel.Printf

/-!
# What the Formatted Output Is

A format of the supported kind is a list of `Piece`s: characters other than `%`, and directives
with an optional flag, an optional width and a conversion. Its bytes are those that stand in
memory. `render` is what the format stands for: the characters as they are, and for each directive
the text of the next argument, padded on the left.

The text of an argument is fixed by `IsText`, without `printf`: the numeral of the number, or the
string that the pointer points to.

## Main results

* `directive_bytes`: the scanner takes a directive apart as it was put together.
* `convert_conv`: a conversion puts the text of the next argument behind its padding.
* `printf_law`: `printf` puts what its format stands for and takes one argument for each
  directive.
-/

namespace B2OS.Console

/-! ### Formats -/

/-- The conversions. -/
inductive Conv
  | d
  | u
  | x
  | s
deriving DecidableEq

def Conv.char : Conv → BitVec 8
  | .d => code 'd'
  | .u => code 'u'
  | .x => code 'x'
  | .s => code 's'

/-- A width of one digit. -/
structure Width where
  val : ℕ
  pos : 0 < val
  le : val ≤ 9

def Width.char (w : Width) : BitVec 8 := code '0' + BitVec.ofNat 8 w.val

/-- A piece of a format. -/
inductive Piece
  | lit (c : BitVec 8) (hzero : c ≠ 0) (hpercent : c ≠ code '%')
  | dir (pad0 : Bool) (width : Option Width) (conv : Conv)

/-- The bytes of a directive behind its `%`. -/
def dirBytes (pad0 : Bool) (width : Option Width) (conv : Conv) : List (BitVec 8) :=
  (if pad0 then [code '0'] else []) ++ (width.map Width.char).toList ++ [conv.char]

def Piece.bytes : Piece → List (BitVec 8)
  | .lit c _ _ => [c]
  | .dir pad0 width conv => code '%' :: dirBytes pad0 width conv

/-- The conversions of a format, one for each directive. -/
def convs : List Piece → List Conv
  | [] => []
  | .lit _ _ _ :: ps => convs ps
  | .dir _ _ conv :: ps => conv :: convs ps

/-- The width that a directive pads to. -/
def padWidth (width : Option Width) : ℕ := width.elim 0 Width.val

/-- The text of an argument. -/
def IsText (x : PrintfCall) (conv : Conv) (a : BitVec 32) (text : List (BitVec 8)) : Prop :=
  match conv with
  | .d => text = signedNumeral a.toInt
  | .u => text = numeral 10 a.toNat
  | .x => text = numeral 16 a.toNat
  | .s => if a = 0 then text = nullText else Terminated 0 (x.byte a) text

/-- What a format stands for when `texts k` is the text of argument `k`, from argument `k` on. -/
def render (texts : ℕ → List (BitVec 8)) : List Piece → ℕ → List (BitVec 8)
  | [], _ => []
  | .lit c _ _ :: ps, k => c :: render texts ps k
  | .dir pad0 width _ :: ps, k =>
      padded pad0 (padWidth width) (texts k) ++ render texts ps (k + 1)

/-! ### One directive -/

theorem Conv.char_spec (conv : Conv) : ¬ IsDigit conv.char ∧ conv.char ≠ code '0' := by
  cases conv <;> decide

theorem Width.char_spec (w : Width) :
    IsDigit w.char ∧ w.char ≠ code '0' ∧ (w.char - code '0').toNat = w.val := by
  have hdigits : ∀ n : Fin 10, 0 < n.val → IsDigit (code '0' + BitVec.ofNat 8 n.val) ∧
      code '0' + BitVec.ofNat 8 n.val ≠ code '0' ∧
      (code '0' + BitVec.ofNat 8 n.val - code '0').toNat = n.val := by decide
  exact hdigits ⟨w.val, Nat.lt_succ_of_le w.le⟩ w.pos

variable {x : PrintfCall}

/-- The flag is read when it is there. -/
theorem readFlag_bytes {pad0 : Bool} {c : BitVec 8} {s : Printf} (hc : c ≠ code '0')
    (h : HoldsAt (x.byte x.format) s.format ((if pad0 then [code '0'] else []) ++ [c])) :
    ∃ reads, readFlag x s = (pad0, c,
      { s with format := s.format + (if pad0 then 2 else 1), reads := reads }) := by
  cases pad0 with
  | false =>
      have hchar : x.byte x.format s.format = c := (holdsAt_cons.mp h).1
      refine ⟨s.format :: s.reads, ?_⟩
      simp [readFlag, nextChar, hchar, hc]
  | true =>
      obtain ⟨hflag, h⟩ := holdsAt_cons.mp h
      have hchar : x.byte x.format (s.format + 1) = c := (holdsAt_cons.mp h).1
      refine ⟨(s.format + 1) :: s.format :: s.reads, ?_⟩
      simp [readFlag, nextChar, hflag, hchar]

/-- The scanner takes a directive apart as it was put together. -/
theorem directive_bytes {pad0 : Bool} {width : Option Width} {conv : Conv} {s : Printf}
    (h : HoldsAt (x.byte x.format) s.format (dirBytes pad0 width conv)) :
    ∃ reads, directive x s = (pad0, padWidth width, conv.char,
      { s with format := s.format + (dirBytes pad0 width conv).length, reads := reads }) := by
  obtain ⟨hdigit, hzero⟩ := conv.char_spec
  cases width with
  | none =>
      obtain ⟨reads, hflag⟩ := readFlag_bytes hzero (by simpa [dirBytes] using h)
      refine ⟨reads, ?_⟩
      simp only [directive, hflag, readWidth, if_neg hdigit]
      cases pad0 <;> rfl
  | some w =>
      obtain ⟨hwidth, hnotzero, hval⟩ := w.char_spec
      have hbytes : dirBytes pad0 (some w) conv =
          ((if pad0 then [code '0'] else []) ++ [w.char]) ++ [conv.char] := rfl
      rw [hbytes, holdsAt_append, holdsAt_cons] at h
      obtain ⟨reads, hflag⟩ := readFlag_bytes hnotzero h.1
      have hlength : ((if pad0 then [code '0'] else []) ++ [w.char]).length =
          if pad0 then 2 else 1 := by
        cases pad0 <;> rfl
      have hconv : x.byte x.format (s.format + if pad0 then 2 else 1) = conv.char :=
        hlength ▸ h.2.1
      refine ⟨(s.format + if pad0 then 2 else 1) :: reads, ?_⟩
      simp only [directive, hflag, readWidth, if_pos hwidth, nextChar, hconv, hval]
      cases pad0 <;> rfl

/-- A conversion takes the next argument and puts its text behind the padding. -/
theorem convert_conv (hmem : ∃ a, x.mem a = 0) {conv : Conv} {text : List (BitVec 8)} {s : Printf}
    (htext : IsText x conv (x.args s.arg) text) {fuel pad : ℕ} (hfuel : 2 ^ 32 ≤ fuel)
    (hpad : pad ≤ 9) (pad0 : Bool) :
    ∃ buf, convert x fuel pad0 pad conv.char s = some { s with
      buf := buf
      arg := s.arg + 1
      out := s.out ++ padded pad0 pad text } := by
  have hnumber : ∀ c, c = code 'd' ∨ c = code 'u' ∨ c = code 'x' →
      itoaText c (x.args s.arg) = text →
      ∃ buf, convert x fuel pad0 pad c s = some { s with
        buf := buf
        arg := s.arg + 1
        out := s.out ++ padded pad0 pad text } := by
    rintro c hc rfl
    exact convert_number hc (by omega) (by omega) pad0 s
  cases conv with
  | d => exact hnumber _ (by decide) htext.symm
  | u => exact hnumber _ (by decide) htext.symm
  | x => exact hnumber _ (by decide) htext.symm
  | s =>
      have hlength : text.length < fuel := by
        rw [IsText] at htext
        split_ifs at htext
        · rw [htext]
          exact (show nullText.length < 2 ^ 32 by decide).trans_le hfuel
        · obtain ⟨k, hk, hzero⟩ := byte_eq_zero hmem (x.args s.arg)
          exact (htext.length_le hzero).trans_lt (hk.trans_le hfuel)
      exact ⟨s.buf, convert_string htext hlength (by omega) pad0⟩

/-! ### The whole format -/

/-- From a piece on, the main loop puts what the rest of the format stands for. -/
theorem printfLoop_law (hmem : ∃ a, x.mem a = 0) {texts : ℕ → List (BitVec 8)} {ps : List Piece}
    {s : Printf} (hformat : HoldsAt (x.byte x.format) s.format (ps.flatMap Piece.bytes ++ [0]))
    (htexts : ∀ k conv, (convs ps)[k]? = some conv →
      IsText x conv (x.args (s.arg + k)) (texts (s.arg + k)))
    {fuel : ℕ} (hfuel : 2 ^ 32 + ps.length < fuel) :
    ∃ s', printfLoop x fuel s = some s' ∧ s'.out = s.out ++ render texts ps s.arg ∧
      s'.arg = s.arg + (convs ps).length := by
  induction ps generalizing s fuel with
  | nil =>
      obtain ⟨fuel, rfl⟩ := Nat.exists_eq_add_of_lt hfuel
      rw [printfLoop_stop (holdsAt_cons.mp hformat).1]
      exact ⟨_, rfl, (List.append_nil _).symm, rfl⟩
  | cons piece ps ih =>
      obtain ⟨fuel, rfl⟩ := Nat.exists_eq_add_of_lt hfuel
      rw [List.flatMap_cons, List.append_assoc, holdsAt_append] at hformat
      obtain ⟨hpiece, hrest⟩ := hformat
      rw [List.length_cons] at hfuel ⊢
      cases piece with
      | lit c hzero hpercent =>
          have hchar : x.byte x.format s.format = c := (holdsAt_cons.mp hpiece).1
          rw [printfLoop_char (hchar ▸ hzero) (hchar ▸ hpercent), hchar]
          obtain ⟨s', hloop, hout, harg⟩ := ih (s := (nextChar x s).2.putchar c) hrest htexts
            (show 2 ^ 32 + ps.length < 2 ^ 32 + (ps.length + 1) + fuel by omega)
          refine ⟨s', hloop, ?_, harg⟩
          rw [hout]
          exact List.append_assoc ..
      | dir pad0 width conv =>
          obtain ⟨hpercent, hdir⟩ := holdsAt_cons.mp hpiece
          obtain ⟨reads, hdirective⟩ := directive_bytes (s := (nextChar x s).2) hdir
          have htext : IsText x conv (x.args s.arg) (texts s.arg) := htexts 0 conv rfl
          have hpad : padWidth width ≤ 9 := by
            cases width with
            | none => exact Nat.zero_le _
            | some w => exact w.le
          have hafter : afterPercent x s = { (nextChar x s).2 with
              format := s.format + 1 + (dirBytes pad0 width conv).length
              reads := reads } := by
            rw [afterPercent, hdirective]
            rfl
          obtain ⟨buf, hconvert⟩ := convert_conv hmem (s := afterPercent x s)
            (by rw [hafter]; exact htext)
            (show 2 ^ 32 ≤ 2 ^ 32 + (ps.length + 1) + fuel by omega) hpad pad0
          rw [printfLoop_percent hpercent]
          simp only [hdirective, hconvert, Option.bind_some]
          rw [hafter]
          obtain ⟨s', hloop, hout, harg⟩ := ih (s := { (nextChar x s).2 with
              format := s.format + 1 + (dirBytes pad0 width conv).length
              reads := reads
              buf := buf
              arg := s.arg + 1
              out := s.out ++ padded pad0 (padWidth width) (texts s.arg) })
            (by rw [Nat.add_assoc, Nat.add_comm 1]; exact hrest)
            (fun k conv hk => by
              have hnext := htexts (k + 1) conv hk
              rwa [← Nat.add_assoc, Nat.add_right_comm] at hnext)
            (show 2 ^ 32 + ps.length < 2 ^ 32 + (ps.length + 1) + fuel by omega)
          refine ⟨s', hloop, ?_, ?_⟩
          · rw [hout]
            exact List.append_assoc ..
          · rw [harg, convs, List.length_cons]
            exact Nat.add_right_comm ..

/-- **With enough fuel `printf` puts what its format stands for, and takes one argument for each
directive.** -/
theorem printf_law (x : PrintfCall) (ps : List Piece)
    (hformat : HoldsAt (x.byte x.format) 0 (ps.flatMap Piece.bytes ++ [0]))
    (texts : ℕ → List (BitVec 8))
    (htexts : ∀ k conv, (convs ps)[k]? = some conv → IsText x conv (x.args k) (texts k)) :
    ∃ fuel₀, ∀ fuel ≥ fuel₀, ∃ s, printf x fuel = some s ∧ s.out = render texts ps 0 ∧
      s.arg = (convs ps).length := by
  have hmem : ∃ a, x.mem a = 0 := by
    obtain ⟨-, hnul⟩ := holdsAt_append.mp hformat
    exact ⟨_, (holdsAt_cons.mp hnul).1⟩
  refine ⟨2 ^ 32 + ps.length + 1, fun fuel hfuel => ?_⟩
  obtain ⟨s, hloop, hout, harg⟩ := printfLoop_law hmem (s := ⟨0, [], 0, fun _ => 0, []⟩) hformat
    (fun k conv hk => by rw [Nat.zero_add]; exact htexts k conv hk) (Nat.lt_of_succ_le hfuel)
  exact ⟨s, hloop, hout, harg.trans (Nat.zero_add _)⟩

/-- The format `%03d%s` with -5 and a null pointer. -/
theorem printf_law_ds :
    let x := callOf "%03d%s" fun k => if k = 0 then -5 else 0
    let ps : List Piece := [.dir true (some ⟨3, by decide, by decide⟩) .d, .dir false none .s]
    let texts : ℕ → List (BitVec 8) := fun k => if k = 0 then signedNumeral (-5) else nullText
    ∃ fuel₀, ∀ fuel ≥ fuel₀, ∃ s, printf x fuel = some s ∧ s.out = render texts ps 0 ∧
      s.arg = (convs ps).length := by
  intro x ps texts
  refine printf_law x ps ?_ texts ?_
  · iterate 7 refine holdsAt_cons.mpr ⟨by decide +revert, ?_⟩
    exact holdsAt_nil _ _
  · rintro (_ | _ | k) conv hk
    · obtain rfl : Conv.d = conv := Option.some.inj hk
      rfl
    · obtain rfl : Conv.s = conv := Option.some.inj hk
      rfl
    · cases hk

example : render (fun k => if k = 0 then signedNumeral (-5) else nullText)
    [.dir true (some ⟨3, by decide, by decide⟩) .d, .dir false none .s] 0 =
      "0-5(null)".toList.map code := by decide

end B2OS.Console
