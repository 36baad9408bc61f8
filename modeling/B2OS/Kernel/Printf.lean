import B2OS.Kernel.Itoa

/-!
# The Formatted Output of the Kernel

This module embeds `printf` of `Src/console.c`. The memory is that of a call: bytes at 32-bit
addresses, which wrap. The pointer `format` and the pointers into a string are offsets from where
they start, and the arguments are the words above `format` on the stack. The state records the
offsets of the format that were read, and the characters that were passed to `console_putchar`.

Only the main loop looks for the terminator of the format. A directive takes its characters one
after the other, whatever they are: one that the terminator cuts short takes the terminator for its
conversion, and the main loop goes on behind it.

`Scan` follows a format character by character and says where a directive is open.

## Main results

* `directive_spec`: the characters that a directive takes.
* `convert_returns`: every conversion returns, whatever the arguments are.
* `printf_inside_iff`: `printf` returns without having read the format behind its terminator
  exactly when the terminator cuts no directive short.
-/

namespace B2OS.Console

/-- A call of `printf`: the memory, the address of the format and the words of the argument
list. -/
structure PrintfCall where
  mem : BitVec 32 → BitVec 8
  format : BitVec 32
  args : ℕ → BitVec 32

/-- The variables of `printf`, the offsets of the format that were read, and the output. -/
structure Printf where
  format : ℕ
  reads : List ℕ
  arg : ℕ
  buf : ℕ → BitVec 8
  out : List (BitVec 8)

def Printf.putchar (ch : BitVec 8) (s : Printf) : Printf := { s with out := s.out ++ [ch] }

/-- The text that a null pointer is shown as. -/
def nullText : List (BitVec 8) := "(null)".toList.map code

/-- The string literal `"(null)"`. -/
def nullString (k : ℕ) : BitVec 8 := nullText.getD k 0

section Printf

variable (x : PrintfCall)

/-- The byte at an offset from a pointer. -/
def PrintfCall.byte (p : BitVec 32) (k : ℕ) : BitVec 8 := x.mem (p + BitVec.ofNat 32 k)

/-- `c = *format++`. -/
def nextChar (s : Printf) : BitVec 8 × Printf :=
  (x.byte x.format s.format, { s with format := s.format + 1, reads := s.format :: s.reads })

/-- `*arg++`. -/
def nextArg (s : Printf) : BitVec 32 × Printf := (x.args s.arg, { s with arg := s.arg + 1 })

/-- The character behind a `%`, and the next one when it is the flag. -/
def readFlag (s : Printf) : Bool × BitVec 8 × Printf :=
  let (c, s) := nextChar x s
  if c = code '0' then (true, nextChar x s) else (false, c, s)

def IsDigit (c : BitVec 8) : Prop := code '0' ≤ c ∧ c ≤ code '9'

instance (c : BitVec 8) : Decidable (IsDigit c) := inferInstanceAs (Decidable (_ ∧ _))

/-- The next character when `c` is a width. -/
def readWidth (c : BitVec 8) (s : Printf) : ℕ × BitVec 8 × Printf :=
  if IsDigit c then ((c - code '0').toNat, nextChar x s) else (0, c, s)

/-- A directive behind its `%`: the flag, the width and the conversion. -/
def directive (s : Printf) : Bool × ℕ × BitVec 8 × Printf :=
  let (pad0, c, s) := readFlag x s
  let (pad, c, s) := readWidth x c s
  (pad0, pad, c, s)

/-- `for (; p2 < p + pad; p2++) console_putchar(..)`. -/
def padLoop (ch : BitVec 8) (pad : ℕ) : ℕ → ℕ → Printf → Option Printf
  | 0, _, _ => none
  | fuel + 1, p2, s => if p2 < pad then padLoop ch pad fuel (p2 + 1) (s.putchar ch) else some s

/-- `while (*p) console_putchar(*p++)`. -/
def putLoop (str : ℕ → BitVec 8) : ℕ → ℕ → Printf → Option Printf
  | 0, _, _ => none
  | fuel + 1, p, s => if str p ≠ 0 then putLoop str fuel (p + 1) (s.putchar (str p)) else some s

/-- From the label `string` on. -/
def putString (fuel : ℕ) (pad0 : Bool) (pad : ℕ) (str : ℕ → BitVec 8) (s : Printf) :
    Option Printf := do
  let p2 ← scanLoop 0 str fuel 0
  let s ← padLoop (if pad0 then code '0' else code ' ') pad fuel p2 s
  putLoop str fuel 0 s

/-- The `switch` over the conversion. -/
def convert (fuel : ℕ) (pad0 : Bool) (pad : ℕ) (c : BitVec 8) (s : Printf) : Option Printf :=
  if c = code 'd' ∨ c = code 'u' ∨ c = code 'x' then do
    let (a, s) := nextArg x s
    let buf ← itoa fuel s.buf c a
    putString fuel pad0 pad buf { s with buf := buf }
  else if c = code 's' then
    let (p, s) := nextArg x s
    putString fuel pad0 pad (if p = 0 then nullString else x.byte p) s
  else
    let (a, s) := nextArg x s
    some (s.putchar (a.setWidth 8))

/-- The main loop. -/
def printfLoop : ℕ → Printf → Option Printf
  | 0, _ => none
  | fuel + 1, s =>
      let (c, s) := nextChar x s
      if c = 0 then some s
      else if c ≠ code '%' then printfLoop fuel (s.putchar c)
      else
        let (pad0, pad, c, s) := directive x s
        (convert x fuel pad0 pad c s).bind (printfLoop fuel)

def printf (fuel : ℕ) : Option Printf := printfLoop x fuel ⟨0, [], 0, fun _ => 0, []⟩

end Printf

/-! ### Directives -/

/-- Where a scan of a format stands: in the text, behind a `%`, behind its flag or behind its
width. -/
inductive Scan
  | text
  | percent
  | flag
  | width
deriving DecidableEq

/-- A character is scanned. -/
def Scan.step : Scan → BitVec 8 → Scan
  | .text, c => if c = code '%' then .percent else .text
  | .percent, c => if c = code '0' then .flag else if IsDigit c then .width else .text
  | .flag, c => if IsDigit c then .width else .text
  | .width, _ => .text

/-- The scan of the first characters of a format. -/
def scan (format : ℕ → BitVec 8) : ℕ → Scan
  | 0 => .text
  | n + 1 => (scan format n).step (format n)

variable {x : PrintfCall}

theorem IsDigit.ne_zero {c : BitVec 8} (h : IsDigit c) : c ≠ 0 := by
  rintro rfl
  exact absurd h.1 (by decide)

/-- A directive that starts at `i` has been read from `s` to `s'`: `c` is the character read last,
and the directive was open before each character. -/
structure Reading (x : PrintfCall) (i : ℕ) (s : Printf) (c : BitVec 8) (s' : Printf) : Prop where
  lt : i < s'.format
  char : c = x.byte x.format (s'.format - 1)
  inner : ∀ k, i ≤ k → k < s'.format → scan (x.byte x.format) k ≠ .text
  ne_zero : ∀ k, i ≤ k → k + 1 < s'.format → x.byte x.format k ≠ 0
  reads : ∀ m ∈ s'.reads, m ∈ s.reads ∨ m < s'.format
  reads_mono : ∀ m ∈ s.reads, m ∈ s'.reads

theorem Reading.first {s : Printf} (h : scan (x.byte x.format) s.format ≠ .text) :
    Reading x s.format s (nextChar x s).1 (nextChar x s).2 where
  lt := Nat.lt_succ_self _
  char := rfl
  inner k hk hlt := by
    obtain rfl : k = s.format := Nat.le_antisymm (Nat.le_of_lt_succ hlt) hk
    exact h
  ne_zero k hk hlt := by
    have hlt : k + 1 < s.format + 1 := hlt
    omega
  reads m hm := by
    rcases List.mem_cons.mp hm with rfl | hm
    · exact .inr (Nat.lt_succ_self _)
    · exact .inl hm
  reads_mono m hm := List.mem_cons_of_mem _ hm

theorem Reading.next {i : ℕ} {s s' : Printf} {c : BitVec 8} (h : Reading x i s c s')
    (hopen : scan (x.byte x.format) s'.format ≠ .text) (hc : c ≠ 0) :
    Reading x i s (nextChar x s').1 (nextChar x s').2 where
  lt := Nat.lt_succ_of_lt h.lt
  char := rfl
  inner k hk hlt := by
    rcases Nat.lt_succ_iff_lt_or_eq.mp hlt with hlt | rfl
    · exact h.inner k hk hlt
    · exact hopen
  ne_zero k hk hlt := by
    have hlt : k + 1 < s'.format + 1 := hlt
    rcases Nat.lt_or_ge (k + 1) s'.format with hlt' | hge
    · exact h.ne_zero k hk hlt'
    · obtain rfl : k = s'.format - 1 := by omega
      rw [← h.char]
      exact hc
  reads m hm := by
    have hformat : (nextChar x s').2.format = s'.format + 1 := rfl
    rcases List.mem_cons.mp hm with rfl | hm
    · exact .inr (Nat.lt_succ_self _)
    · exact (h.reads m hm).imp_right fun hlt => by omega
  reads_mono m hm := List.mem_cons_of_mem _ (h.reads_mono m hm)

/-- What is read to find the flag, and where the scan stands then. -/
theorem readFlag_spec {s : Printf} (h : scan (x.byte x.format) s.format = .percent) :
    Reading x s.format s (readFlag x s).2.1 (readFlag x s).2.2 ∧
      scan (x.byte x.format) (readFlag x s).2.2.format =
        if IsDigit (readFlag x s).2.1 then .width else .text := by
  have hfirst : Reading x s.format s (nextChar x s).1 (nextChar x s).2 :=
    .first (by rw [h]; nofun)
  have hscan : scan (x.byte x.format) (nextChar x s).2.format =
      Scan.percent.step (nextChar x s).1 := by
    rw [← h]
    rfl
  have hdef : readFlag x s = if (nextChar x s).1 = code '0' then (true, nextChar x (nextChar x s).2)
      else (false, nextChar x s) := rfl
  by_cases hflag : (nextChar x s).1 = code '0'
  · rw [Scan.step, if_pos hflag] at hscan
    rw [hdef, if_pos hflag]
    refine ⟨hfirst.next (by rw [hscan]; nofun) (by rw [hflag]; decide), ?_⟩
    have hnext : scan (x.byte x.format) (nextChar x (nextChar x s).2).2.format =
        (scan (x.byte x.format) (nextChar x s).2.format).step
          (nextChar x (nextChar x s).2).1 := rfl
    rw [hscan] at hnext
    exact hnext
  · rw [Scan.step, if_neg hflag] at hscan
    rw [hdef, if_neg hflag]
    exact ⟨hfirst, hscan⟩

/-- What a directive reads; behind it no directive is open. -/
theorem directive_spec {s : Printf} (h : scan (x.byte x.format) s.format = .percent) :
    Reading x s.format s (directive x s).2.2.1 (directive x s).2.2.2 ∧
      scan (x.byte x.format) (directive x s).2.2.2.format = .text := by
  obtain ⟨hread, hscan⟩ := readFlag_spec h
  rw [directive]
  simp only [readWidth]
  split_ifs with hdigit
  · rw [if_pos hdigit] at hscan
    refine ⟨hread.next (by rw [hscan]; nofun) hdigit.ne_zero, ?_⟩
    have hnext : scan (x.byte x.format) (nextChar x (readFlag x s).2.2).2.format =
        (scan (x.byte x.format) (readFlag x s).2.2.format).step
          (nextChar x (readFlag x s).2.2).1 := rfl
    rw [hscan] at hnext
    exact hnext
  · rw [if_neg hdigit] at hscan
    exact ⟨hread, hscan⟩

/-- A width is a digit. -/
theorem directive_pad (s : Printf) : (directive x s).2.1 ≤ 9 := by
  rw [directive]
  simp only [readWidth]
  split_ifs with hdigit
  · obtain ⟨hlo, hhi⟩ := hdigit
    have hzero : code '0' = 48#8 := rfl
    have hnine : code '9' = 57#8 := rfl
    rw [hzero] at hlo ⊢
    rw [hnine] at hhi
    bv_omega
  · exact Nat.zero_le _

/-! ### Conversions -/

/-- A text padded on the left. -/
def padded (pad0 : Bool) (w : ℕ) (text : List (BitVec 8)) : List (BitVec 8) :=
  List.replicate (w - text.length) (if pad0 then code '0' else code ' ') ++ text

theorem padLoop_spec (ch : BitVec 8) {pad fuel p2 : ℕ} (hfuel : pad < p2 + fuel) (hpos : 0 < fuel)
    (s : Printf) : padLoop ch pad fuel p2 s =
      some { s with out := s.out ++ List.replicate (pad - p2) ch } := by
  induction fuel generalizing p2 s with
  | zero => cases hpos
  | succ fuel ih =>
      rw [padLoop]
      split_ifs with hlt
      · rw [ih (by omega) (by omega), show pad - p2 = pad - (p2 + 1) + 1 by omega]
        simp [Printf.putchar, List.replicate_succ]
      · rw [show pad - p2 = 0 by omega]
        simp

theorem putLoop_spec {str : ℕ → BitVec 8} {text : List (BitVec 8)} (h : Terminated 0 str text)
    {fuel p : ℕ} (hp : p ≤ text.length) (hfuel : text.length < p + fuel) (s : Printf) :
    putLoop str fuel p s = some { s with out := s.out ++ text.drop p } := by
  induction fuel generalizing p s with
  | zero => omega
  | succ fuel ih =>
      rw [putLoop]
      rcases Nat.eq_or_lt_of_le hp with rfl | hlt
      · rw [if_neg (not_not.mpr h.terminator)]
        simp
      · obtain ⟨hbuf, hne⟩ := h.ne hlt
        rw [if_pos (hbuf ▸ hne), ih hlt (by omega), hbuf, List.drop_eq_getElem_cons hlt]
        simp [Printf.putchar]

/-- A string is put behind its padding. -/
theorem putString_spec {str : ℕ → BitVec 8} {text : List (BitVec 8)} (h : Terminated 0 str text)
    {fuel pad : ℕ} (hfuel : text.length < fuel) (hpad : pad < fuel) (pad0 : Bool) (s : Printf) :
    putString fuel pad0 pad str s = some { s with out := s.out ++ padded pad0 pad text } := by
  rw [putString, h.scan_end (Nat.zero_le _) (by omega), Option.bind_eq_bind, Option.bind_some,
    padLoop_spec _ (by omega) (by omega), Option.bind_eq_bind, Option.bind_some,
    putLoop_spec h (Nat.zero_le _) (by omega), padded, List.drop_zero]
  simp

theorem nullText_terminated : Terminated 0 nullString nullText := terminated_getD (by decide)

/-- A directive for a number takes the next argument and puts its numeral. -/
theorem convert_number {c : BitVec 8} (hc : c = code 'd' ∨ c = code 'u' ∨ c = code 'x')
    {fuel pad : ℕ} (hfuel : 11 < fuel) (hpad : pad < fuel) (pad0 : Bool) (s : Printf) :
    ∃ buf, convert x fuel pad0 pad c s = some { s with
      buf := buf
      arg := s.arg + 1
      out := s.out ++ padded pad0 pad (itoaText c (x.args s.arg)) } := by
  obtain ⟨buf, hitoa, hholds, -⟩ := itoa_spec (by omega : 10 ≤ fuel) s.buf c (x.args s.arg)
  have hterm : Terminated 0 buf (itoaText c (x.args s.arg)) :=
    .of_holdsAt hholds (zero_not_mem_itoaText c _)
  refine ⟨buf, ?_⟩
  simp only [convert, if_pos hc, nextArg, hitoa]
  exact putString_spec hterm ((length_itoaText_le c _).trans_lt hfuel) hpad pad0 _

/-- A directive for a string takes the next argument and puts the string it points to. -/
theorem convert_string {fuel pad : ℕ} {text : List (BitVec 8)} {s : Printf}
    (htext : if x.args s.arg = 0 then text = nullText else Terminated 0 (x.byte (x.args s.arg)) text)
    (hfuel : text.length < fuel) (hpad : pad < fuel) (pad0 : Bool) :
    convert x fuel pad0 pad (code 's') s = some { s with
      arg := s.arg + 1
      out := s.out ++ padded pad0 pad text } := by
  have hnumber : ¬ (code 's' = code 'd' ∨ code 's' = code 'u' ∨ code 's' = code 'x') := by decide
  have hterm :
      Terminated 0 (if x.args s.arg = 0 then nullString else x.byte (x.args s.arg)) text := by
    split_ifs at htext ⊢ with hnull
    · rw [htext]
      exact nullText_terminated
    · exact htext
  simp only [convert, if_neg hnumber, nextArg]
  exact putString_spec hterm hfuel hpad pad0 _

/-- Any other directive takes the next argument and puts it as a character. -/
theorem convert_other {c : BitVec 8} (hc : ¬ (c = code 'd' ∨ c = code 'u' ∨ c = code 'x'))
    (hs : c ≠ code 's') (fuel : ℕ) (pad0 : Bool) (pad : ℕ) (s : Printf) :
    convert x fuel pad0 pad c s = some { s with
      arg := s.arg + 1
      out := s.out ++ [(x.args s.arg).setWidth 8] } := by
  rw [convert, if_neg hc, if_neg hs]
  rfl

/-- A terminator anywhere in memory is less than the address space away from every pointer. -/
theorem byte_eq_zero (hmem : ∃ a, x.mem a = 0) (p : BitVec 32) : ∃ k < 2 ^ 32, x.byte p k = 0 := by
  obtain ⟨a, ha⟩ := hmem
  refine ⟨(a - p).toNat, (a - p).isLt, ?_⟩
  rw [PrintfCall.byte, BitVec.ofNat_toNat, BitVec.setWidth_eq, BitVec.add_comm,
    BitVec.sub_add_cancel]
  exact ha

/-- Whatever the arguments are, a conversion returns, and it does not move the format. -/
theorem convert_returns (hmem : ∃ a, x.mem a = 0) {fuel pad : ℕ} (hfuel : 2 ^ 32 ≤ fuel)
    (hpad : pad ≤ 9) (pad0 : Bool) (c : BitVec 8) (s : Printf) :
    ∃ s', convert x fuel pad0 pad c s = some s' ∧ s'.format = s.format ∧ s'.reads = s.reads := by
  by_cases hnumber : c = code 'd' ∨ c = code 'u' ∨ c = code 'x'
  · obtain ⟨buf, hbuf⟩ := convert_number (x := x) hnumber (by omega : 11 < fuel)
      (by omega : pad < fuel) pad0 s
    exact ⟨_, hbuf, rfl, rfl⟩
  by_cases hstring : c = code 's'
  · subst hstring
    by_cases hnull : x.args s.arg = 0
    · have htext : if x.args s.arg = 0 then nullText = nullText
          else Terminated 0 (x.byte (x.args s.arg)) nullText := by rw [if_pos hnull]
      exact ⟨_, convert_string htext
        ((show nullText.length < 2 ^ 32 by decide).trans_le hfuel) (by omega) pad0, rfl, rfl⟩
    · obtain ⟨k, hk, hzero⟩ := byte_eq_zero hmem (x.args s.arg)
      obtain ⟨text, htext⟩ := exists_terminated ⟨k, hzero⟩
      have hlength := htext.length_le hzero
      have htext' : if x.args s.arg = 0 then text = nullText
          else Terminated 0 (x.byte (x.args s.arg)) text := by
        rw [if_neg hnull]
        exact htext
      exact ⟨_, convert_string htext' (by omega)
        (by omega) pad0, rfl, rfl⟩
  · exact ⟨_, convert_other hnumber hstring fuel pad0 pad s, rfl, rfl⟩

/-- The format pointer and what it has read. -/
def Printf.Still (s s' : Printf) : Prop := s'.format = s.format ∧ s'.reads = s.reads

theorem Printf.Still.trans {s s' s'' : Printf} (h : s.Still s') (h' : s'.Still s'') : s.Still s'' :=
  ⟨h'.1.trans h.1, h'.2.trans h.2⟩

theorem padLoop_still {ch : BitVec 8} {pad fuel p2 : ℕ} {s s' : Printf}
    (h : padLoop ch pad fuel p2 s = some s') : s.Still s' := by
  induction fuel generalizing p2 s with
  | zero => cases h
  | succ fuel ih =>
      rw [padLoop] at h
      split_ifs at h
      · obtain ⟨hformat, hreads⟩ := ih h
        exact ⟨hformat, hreads⟩
      · exact Option.some.inj h ▸ ⟨rfl, rfl⟩

theorem putLoop_still {str : ℕ → BitVec 8} {fuel p : ℕ} {s s' : Printf}
    (h : putLoop str fuel p s = some s') : s.Still s' := by
  induction fuel generalizing p s with
  | zero => cases h
  | succ fuel ih =>
      rw [putLoop] at h
      split_ifs at h
      · obtain ⟨hformat, hreads⟩ := ih h
        exact ⟨hformat, hreads⟩
      · exact Option.some.inj h ▸ ⟨rfl, rfl⟩

theorem putString_still {fuel pad : ℕ} {pad0 : Bool} {str : ℕ → BitVec 8} {s s' : Printf}
    (h : putString fuel pad0 pad str s = some s') : s.Still s' := by
  obtain ⟨p2, -, h⟩ := Option.bind_eq_some_iff.mp h
  obtain ⟨s₁, hpad, hput⟩ := Option.bind_eq_some_iff.mp h
  exact (padLoop_still hpad).trans (putLoop_still hput)

/-- A conversion that returns does not move the format. -/
theorem convert_still {fuel pad : ℕ} {pad0 : Bool} {c : BitVec 8} {s s' : Printf}
    (h : convert x fuel pad0 pad c s = some s') : s.Still s' := by
  rw [convert] at h
  split_ifs at h
  · obtain ⟨buf, -, hput⟩ := Option.bind_eq_some_iff.mp h
    obtain ⟨hformat, hreads⟩ := putString_still hput
    exact ⟨hformat, hreads⟩
  · obtain ⟨hformat, hreads⟩ := putString_still (s := (nextArg x s).2) h
    exact ⟨hformat, hreads⟩
  · exact Option.some.inj h ▸ ⟨rfl, rfl⟩

/-! ### The main loop -/

/-- `printf` returns, and has not read the format behind offset `n`. -/
def StaysInside (x : PrintfCall) (n : ℕ) : Prop :=
  ∃ fuel s, printf x fuel = some s ∧ ∀ m ∈ s.reads, m ≤ n

/-- The state in which a directive behind `s` converts. -/
def afterPercent (x : PrintfCall) (s : Printf) : Printf := (directive x (nextChar x s).2).2.2.2

/-- A turn of the main loop at a `%`. -/
theorem printfLoop_percent {s : Printf} (h : x.byte x.format s.format = code '%') (fuel : ℕ) :
    printfLoop x (fuel + 1) s =
      (convert x fuel (directive x (nextChar x s).2).1 (directive x (nextChar x s).2).2.1
        (directive x (nextChar x s).2).2.2.1 (afterPercent x s)).bind (printfLoop x fuel) := by
  have hchar : (nextChar x s).1 = code '%' := h
  have hzero : ¬ (nextChar x s).1 = 0 := by
    rw [hchar]
    decide
  rw [printfLoop]
  simp only [if_neg hzero, if_neg (not_not.mpr hchar)]
  rfl

/-- A turn of the main loop at another character. -/
theorem printfLoop_char {s : Printf} (hzero : x.byte x.format s.format ≠ 0)
    (h : x.byte x.format s.format ≠ code '%') (fuel : ℕ) :
    printfLoop x (fuel + 1) s =
      printfLoop x fuel ((nextChar x s).2.putchar (x.byte x.format s.format)) := by
  have hzero' : ¬ (nextChar x s).1 = 0 := hzero
  have hpercent : (nextChar x s).1 ≠ code '%' := h
  rw [printfLoop]
  simp only [if_neg hzero', if_pos hpercent]
  rfl

theorem printfLoop_stop {s : Printf} (h : x.byte x.format s.format = 0) (fuel : ℕ) :
    printfLoop x (fuel + 1) s = some (nextChar x s).2 := by
  have hzero : (nextChar x s).1 = 0 := h
  rw [printfLoop]
  simp only [if_pos hzero]

/-- A `%` in the text opens a directive. -/
theorem afterPercent_spec {s : Printf} (htext : scan (x.byte x.format) s.format = .text)
    (h : x.byte x.format s.format = code '%') :
    Reading x (s.format + 1) (nextChar x s).2 (directive x (nextChar x s).2).2.2.1
        (afterPercent x s) ∧
      scan (x.byte x.format) (afterPercent x s).format = .text := by
  refine directive_spec (s := (nextChar x s).2) ?_
  change (scan (x.byte x.format) s.format).step (x.byte x.format s.format) = .percent
  rw [htext, Scan.step, if_pos h]

theorem directive_reads {s : Printf} {m : ℕ} (h : m ∈ s.reads) :
    m ∈ (directive x s).2.2.2.reads := by
  have hnext : ∀ t : Printf, m ∈ t.reads → m ∈ (nextChar x t).2.reads := fun t ht =>
    List.mem_cons_of_mem _ ht
  have hflag : m ∈ (readFlag x s).2.2.reads := by
    simp only [readFlag]
    split_ifs
    · exact hnext _ (hnext s h)
    · exact hnext s h
  rw [directive]
  simp only [readWidth]
  split_ifs
  · exact hnext _ hflag
  · exact hflag

/-- The main loop reads the character that it starts at, and forgets no read. -/
theorem printfLoop_reads {fuel : ℕ} {s s' : Printf} (h : printfLoop x fuel s = some s') :
    ∀ m ∈ s.format :: s.reads, m ∈ s'.reads := by
  induction fuel generalizing s with
  | zero => cases h
  | succ fuel ih =>
      intro m hm
      by_cases hzero : x.byte x.format s.format = 0
      · rw [printfLoop_stop hzero] at h
        exact Option.some.inj h ▸ hm
      by_cases hpercent : x.byte x.format s.format = code '%'
      · rw [printfLoop_percent hpercent] at h
        obtain ⟨s₁, hconvert, hrest⟩ := Option.bind_eq_some_iff.mp h
        have hafter : m ∈ (afterPercent x s).reads := directive_reads hm
        rw [← (convert_still hconvert).2] at hafter
        exact ih hrest m (List.mem_cons_of_mem _ hafter)
      · rw [printfLoop_char hzero hpercent] at h
        exact ih h m (List.mem_cons_of_mem _ hm)

/-- When no directive is cut short, the main loop returns and reads nothing behind the
terminator. -/
theorem printfLoop_inside {n : ℕ} (hnul : x.byte x.format n = 0)
    (hfirst : ∀ i < n, x.byte x.format i ≠ 0) (hclosed : scan (x.byte x.format) n = .text)
    {fuel : ℕ} {s : Printf} (hn : s.format ≤ n) (htext : scan (x.byte x.format) s.format = .text)
    (hreads : ∀ m ∈ s.reads, m ≤ n) (hfuel : 2 ^ 32 + (n - s.format) < fuel) :
    ∃ s', printfLoop x fuel s = some s' ∧ ∀ m ∈ s'.reads, m ≤ n := by
  have hmem : ∃ a, x.mem a = 0 := ⟨_, hnul⟩
  induction fuel generalizing s with
  | zero => omega
  | succ fuel ih =>
      rcases Nat.eq_or_lt_of_le hn with hend | hlt
      · rw [printfLoop_stop (hend ▸ hnul)]
        refine ⟨_, rfl, fun m hm => ?_⟩
        rcases List.mem_cons.mp hm with rfl | hm
        · exact hn
        · exact hreads m hm
      have hzero := hfirst s.format hlt
      by_cases hpercent : x.byte x.format s.format = code '%'
      · obtain ⟨hread, hafter⟩ := afterPercent_spec htext hpercent
        -- The directive is open before each character it takes, and at the terminator none is.
        have hle : (afterPercent x s).format ≤ n := by
          by_contra hover
          exact hread.inner n hlt (Nat.lt_of_not_le hover) hclosed
        obtain ⟨s₁, hconvert, hformat, hsame⟩ := convert_returns hmem
          (show 2 ^ 32 ≤ fuel by omega) (directive_pad (nextChar x s).2)
          (directive x (nextChar x s).2).1
          (directive x (nextChar x s).2).2.2.1 (afterPercent x s)
        have hforward := hread.lt
        obtain ⟨s', hloop, hs'⟩ := ih (s := s₁) (by omega) (hformat ▸ hafter) (fun m hm => by
          rcases hread.reads m (hsame ▸ hm) with hm | hm
          · rcases List.mem_cons.mp hm with rfl | hm
            · exact hn
            · exact hreads m hm
          · omega) (by omega)
        refine ⟨s', ?_, hs'⟩
        rw [printfLoop_percent hpercent, hconvert]
        exact hloop
      · rw [printfLoop_char hzero hpercent]
        refine ih hlt ?_ (fun m hm => ?_) ?_
        · change (scan (x.byte x.format) s.format).step (x.byte x.format s.format) = .text
          rw [htext, Scan.step, if_neg hpercent]
        · rcases List.mem_cons.mp hm with rfl | hm
          · exact hn
          · exact hreads m hm
        · have hformat : ((nextChar x s).2.putchar (x.byte x.format s.format)).format =
              s.format + 1 := rfl
          omega

/-- When a directive is cut short, a main loop that returns has read behind the terminator. -/
theorem printfLoop_outside {n : ℕ} (hnul : x.byte x.format n = 0)
    (hfirst : ∀ i < n, x.byte x.format i ≠ 0) (hopen : scan (x.byte x.format) n ≠ .text)
    {fuel : ℕ} {s s' : Printf} (hn : s.format ≤ n)
    (htext : scan (x.byte x.format) s.format = .text) (h : printfLoop x fuel s = some s') :
    n + 1 ∈ s'.reads := by
  induction fuel generalizing s with
  | zero => cases h
  | succ fuel ih =>
      have hlt : s.format < n := by
        refine Nat.lt_of_le_of_ne hn fun hend => hopen ?_
        rw [← hend, htext]
      have hzero := hfirst s.format hlt
      by_cases hpercent : x.byte x.format s.format = code '%'
      · obtain ⟨hread, hafter⟩ := afterPercent_spec htext hpercent
        rw [printfLoop_percent hpercent] at h
        obtain ⟨s₁, hconvert, hrest⟩ := Option.bind_eq_some_iff.mp h
        have hformat := (convert_still hconvert).1
        rcases Nat.lt_or_ge n (afterPercent x s).format with hover | hle
        · -- Only the last character that the directive takes can be the terminator.
          have hlast : (afterPercent x s).format = n + 1 := by
            by_contra hne
            exact hread.ne_zero n hlt (by omega) hnul
          rw [hlast] at hformat
          exact printfLoop_reads hrest _ (hformat ▸ List.mem_cons_self)
        · exact ih (hformat ▸ hle) (hformat ▸ hafter) hrest
      · rw [printfLoop_char hzero hpercent] at h
        refine ih (s := (nextChar x s).2.putchar (x.byte x.format s.format)) hlt ?_ h
        change (scan (x.byte x.format) s.format).step (x.byte x.format s.format) = .text
        rw [htext, Scan.step, if_neg hpercent]

/-- **For every argument list `printf` returns without having read the format behind its terminator
exactly when the terminator cuts no directive short.** -/
theorem printf_inside_iff (x : PrintfCall) (n : ℕ) (hnul : x.byte x.format n = 0)
    (hfirst : ∀ i < n, x.byte x.format i ≠ 0) :
    StaysInside x n ↔ scan (x.byte x.format) n = .text := by
  constructor
  · rintro ⟨fuel, s, hprintf, hreads⟩
    by_contra hopen
    have hbehind := hreads _ (printfLoop_outside hnul hfirst hopen (Nat.zero_le n) rfl hprintf)
    omega
  · intro hclosed
    exact ⟨2 ^ 32 + n + 1, printfLoop_inside hnul hfirst hclosed (Nat.zero_le n) rfl
      (fun m hm => absurd hm List.not_mem_nil) (by simp)⟩

/-- A call with a format at $1000, in memory that is zero elsewhere. -/
def callOf (format : String) (args : ℕ → BitVec 32) : PrintfCall where
  mem a := (format.toList.map code).getD (a - 0x1000).toNat 0
  format := 0x1000
  args := args

/-- The format `%05d`. -/
theorem printf_inside_iff_d :
    StaysInside (callOf "%05d" fun _ => 42) 4 ↔
      scan ((callOf "%05d" fun _ => 42).byte (callOf "%05d" fun _ => 42).format) 4 = .text :=
  printf_inside_iff (callOf "%05d" fun _ => 42) 4 rfl (by decide)

/-- A format that is a single `%` is read behind its terminator. -/
theorem printf_leaves_format : ¬ StaysInside (callOf "%" fun _ => 42) 1 := by
  rintro ⟨fuel, s, hprintf, hreads⟩
  have hbehind := hreads _
    (printfLoop_outside (n := 1) rfl (by decide) (by decide) (Nat.zero_le _) rfl hprintf)
  omega

end B2OS.Console
