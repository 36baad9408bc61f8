import B2OS.Kernel.Console

/-!
# What the Console Shows

`State.cell` is the content of `g_vga_buffer`: of each cell the item that was stored there last.
A printable character stores one item at the index and counts the index on, but a space is put
by two branches of `console_putchar` and takes two cells. A line therefore comes out as
`doubled`, the line with every space twice.

`Puts` says that a piece of text came out in consecutive cells, and `Room.ahead` that the lines
behind it leave these cells alone. A text is shown line by line: a line that comes out longer than
it is reaches into a cell that should have stayed clear.

## Main results

* `Puts.line`: a line comes out with its spaces doubled.
* `Room.ahead`: further lines leave what stands before them.
* `showsText_iff`: a cleared console shows a text exactly when the text has no space.
-/

namespace B2OS.Console

variable (b : ℕ → BitVec 16)

/-- The content of `g_vga_buffer`, which held `b` before the stores. -/
def State.cell (c : State) (i : ℕ) : BitVec 16 :=
  c.stores.foldr (fun s m => Function.update m s.1.toNat s.2) b i

/-- A printable ASCII character, the space included. -/
def Printable (ch : BitVec 8) : Prop := 0x20 ≤ ch.toNat ∧ ch.toNat ≤ 0x7E

/-- A line as it comes out. -/
def doubled (line : List (BitVec 8)) : List (BitVec 8) :=
  line.flatMap fun ch => if ch = SPACE then [SPACE, SPACE] else [ch]

/-- The item of a character in the current colours. -/
def State.item (c : State) (ch : BitVec 8) : BitVec 16 :=
  vgaItemEntry ch c.foreColor c.backColor

/-! ### Pieces of text -/

/-- From `c` to `c'` the characters `text` were put into the cells from the index on. -/
structure Puts (c : State) (text : List (BitVec 8)) (c' : State) : Prop where
  index : c'.vgaIndex.toNat = c.vgaIndex.toNat + text.length
  row : c'.cursorPosY = c.cursorPosY
  fore : c'.foreColor = c.foreColor
  back : c'.backColor = c.backColor
  put : ∀ k ch, text[k]? = some ch → c'.cell b (c.vgaIndex.toNat + k) = c.item ch
  other : ∀ j, (j < c.vgaIndex.toNat ∨ c.vgaIndex.toNat + text.length ≤ j) →
    c'.cell b j = c.cell b j

variable {b} {c c' c'' : State}

theorem cell_cons {s : BitVec 32 × BitVec 16} (h : c'.stores = s :: c.stores) (j : ℕ) :
    c'.cell b j = if j = s.1.toNat then s.2 else c.cell b j := by
  rw [State.cell, h, List.foldr_cons, Function.update_apply]
  rfl

theorem Puts.nil : Puts b c [] c :=
  ⟨rfl, rfl, rfl, rfl, fun k ch h => by simp at h, fun _ _ => rfl⟩

/-- A piece of text, and another one behind it. -/
theorem Puts.append {text text' : List (BitVec 8)} (h : Puts b c text c')
    (h' : Puts b c' text' c'') : Puts b c (text ++ text') c'' := by
  have hitem : ∀ ch, c'.item ch = c.item ch := fun ch => by
    rw [State.item, State.item, h.fore, h.back]
  refine ⟨?_, h'.row.trans h.row, h'.fore.trans h.fore, h'.back.trans h.back, ?_, ?_⟩
  · rw [h'.index, h.index, List.length_append, Nat.add_assoc]
  · intro k ch hk
    rcases Nat.lt_or_ge k text.length with hlt | hge
    · rw [List.getElem?_append_left hlt] at hk
      rw [h'.other _ (.inl (by rw [h.index]; omega))]
      exact h.put k ch hk
    · rw [List.getElem?_append_right hge] at hk
      have hput := h'.put _ ch hk
      rw [h.index, hitem] at hput
      rw [← hput]
      congr 1
      omega
  · intro j hj
    rw [List.length_append] at hj
    rw [h'.other j (by rw [h.index]; omega), h.other j (by omega)]

/-- One item. -/
theorem Puts.one {ch : BitVec 8} (hlt : c.vgaIndex.toNat + 1 < 2 ^ 32)
    (hindex : c'.vgaIndex = c.vgaIndex + 1) (hrow : c'.cursorPosY = c.cursorPosY)
    (hfore : c'.foreColor = c.foreColor) (hback : c'.backColor = c.backColor)
    (hstores : c'.stores = (c.vgaIndex, c.item ch) :: c.stores) : Puts b c [ch] c' := by
  refine ⟨?_, hrow, hfore, hback, ?_, ?_⟩
  · rw [hindex]
    exact toNat_succ hlt
  · intro k ch' hk
    obtain ⟨rfl, rfl⟩ : k = 0 ∧ ch = ch' := by
      cases k <;> simp_all
    rw [cell_cons hstores, Nat.add_zero, if_pos rfl]
  · intro j hj
    rw [cell_cons hstores, if_neg]
    rw [List.length_singleton] at hj
    change ¬ j = c.vgaIndex.toNat
    omega

theorem Puts.glyph (ch : BitVec 8) (hlt : c.vgaIndex.toNat + 1 < 2 ^ 32) :
    Puts b c [ch] (putGlyph ch c) :=
  .one hlt rfl rfl rfl rfl rfl

theorem Puts.blank (hlt : c.vgaIndex.toNat + 1 < 2 ^ 32) :
    Puts b c [SPACE] (putBlank c) :=
  .one hlt rfl rfl rfl rfl rfl

theorem Printable.moves {ch : BitVec 8} (h : Printable ch) :
    Moves ch ∧ ch ≠ TAB ∧ ch ≠ NEWLINE ∧ ch ≠ 0 := by
  obtain ⟨hlo, hhi⟩ := h
  refine ⟨?_, ?_, ?_, ?_⟩
  · have hzero : (0#8).toInt = 0 := rfl
    have hint : ch.toInt = ch.toNat := BitVec.toInt_eq_toNat_of_lt (by omega)
    rw [Moves, BitVec.slt_iff_toInt_lt, hzero, hint]
    omega
  all_goals
    rintro rfl
    revert hlo
    decide

/-- A printable character is put once, a space twice. -/
theorem Puts.putchar {ch : BitVec 8} (hch : Printable ch)
    (hlt : c.vgaIndex.toNat + (doubled [ch]).length < 2 ^ 32) :
    Puts b c (doubled [ch]) (consolePutchar c ch) := by
  by_cases hspace : ch = SPACE
  · subst hspace
    have hlt : c.vgaIndex.toNat + 2 < 2 ^ 32 := hlt
    have hblank : Puts b c [SPACE] (putBlank c) := .blank (by omega)
    have hindex := hblank.index
    rw [List.length_singleton] at hindex
    exact hblank.append (.glyph SPACE (by omega))
  · obtain ⟨hmoves, htab, hnewline, -⟩ := hch.moves
    have hone : doubled [ch] = [ch] := by
      simp [doubled, hspace]
    rw [hone] at hlt ⊢
    rw [putchar_glyph hspace htab hnewline hmoves]
    exact .glyph ch hlt

theorem doubled_cons (ch : BitVec 8) (line : List (BitVec 8)) :
    doubled (ch :: line) = doubled [ch] ++ doubled line := by
  simp [doubled]

/-- A line comes out with its spaces doubled. -/
theorem Puts.line {line : List (BitVec 8)} (hline : ∀ ch ∈ line, Printable ch)
    (hlt : c.vgaIndex.toNat + (doubled line).length < 2 ^ 32) :
    Puts b c (doubled line) (line.foldl consolePutchar c) := by
  induction line generalizing c with
  | nil => exact .nil
  | cons ch line ih =>
      rw [doubled_cons, List.length_append] at hlt
      have hfirst : Puts b c (doubled [ch]) (consolePutchar c ch) :=
        .putchar (hline ch List.mem_cons_self) (by omega)
      rw [doubled_cons, List.foldl_cons]
      exact hfirst.append
        (ih (fun ch hch => hline ch (List.mem_cons_of_mem _ hch)) (by rw [hfirst.index]; omega))

theorem length_doubled (line : List (BitVec 8)) :
    (doubled line).length = line.length + line.count SPACE := by
  induction line with
  | nil => rfl
  | cons ch line ih =>
      rw [doubled_cons, List.length_append, ih, List.length_cons, List.count_cons]
      by_cases hspace : ch = SPACE
      · simp [doubled, hspace]
        omega
      · simp [doubled, hspace]
        omega

theorem doubled_eq_self {line : List (BitVec 8)} (h : SPACE ∉ line) : doubled line = line := by
  induction line with
  | nil => rfl
  | cons ch line ih =>
      rw [List.mem_cons, not_or] at h
      rw [doubled_cons, ih h.2]
      simp [doubled, Ne.symm h.1]

/-! ### Lines -/

/-- The lines behind the first one, each with its newline. -/
def moreLines (lines : List (List (BitVec 8))) (c : State) : State :=
  lines.foldl (fun c line => line.foldl consolePutchar (consoleNewline c)) c

/-- A text is its first line and the lines behind it. -/
theorem putText (line : List (BitVec 8)) (lines : List (List (BitVec 8))) (c : State) :
    ([NEWLINE].intercalate (line :: lines)).foldl consolePutchar c =
      moreLines lines (line.foldl consolePutchar c) := by
  induction lines generalizing line c with
  | nil => rw [List.intercalate_singleton, moreLines, List.foldl_nil]
  | cons next lines ih =>
      rw [List.intercalate_cons_cons, List.append_assoc, List.foldl_append, List.singleton_append,
        List.foldl_cons, ih, putchar_newline]
      rfl

/-- A newline on a row of the screen takes the index to the start of the next row of the buffer and
stores nothing. -/
theorem newline_spec (hrow : c.cursorPosY.toNat < 24) (hlt : c.vgaIndex.toNat + 80 < 2 ^ 32) :
    (consoleNewline c).vgaIndex.toNat = 80 * (c.vgaIndex.toNat / 80 + 1) ∧
      (consoleNewline c).cursorPosY.toNat = c.cursorPosY.toNat + 1 ∧
      (consoleNewline c).foreColor = c.foreColor ∧ (consoleNewline c).backColor = c.backColor ∧
      (consoleNewline c).cell b = c.cell b := by
  have hheight : ¬ VGA_HEIGHT ≤ c.cursorPosY := Nat.not_le.mpr hrow
  rw [consoleNewline, if_neg hheight]
  refine ⟨?_, toNat_succ (by omega), rfl, rfl, rfl⟩
  have hwidth : VGA_WIDTH.toNat = 80 := rfl
  change (c.vgaIndex + (VGA_WIDTH - c.vgaIndex % VGA_WIDTH)).toNat = _
  rw [BitVec.toNat_add, BitVec.toNat_sub, BitVec.toNat_umod, hwidth]
  omega

/-- The text has room: the screen is not cleared and the index does not wrap. -/
structure Room (lines : List (List (BitVec 8))) (c : State) : Prop where
  printable : ∀ line ∈ lines, ∀ ch ∈ line, Printable ch
  length : ∀ line ∈ lines, line.length ≤ 79
  row : c.cursorPosY.toNat + lines.length ≤ 25
  index : c.vgaIndex.toNat + 240 * lines.length < 2 ^ 32

theorem Room.length_doubled_le {line : List (BitVec 8)} {lines : List (List (BitVec 8))}
    (h : Room (line :: lines) c) : (doubled line).length ≤ 158 := by
  have hlength := h.length line List.mem_cons_self
  have hcount := line.count_le_length (a := SPACE)
  rw [length_doubled]
  omega

theorem Room.line {line : List (BitVec 8)} {lines : List (List (BitVec 8))}
    (h : Room (line :: lines) c) : Puts b c (doubled line) (line.foldl consolePutchar c) := by
  have hindex := h.index
  have hlength := h.length_doubled_le
  rw [List.length_cons] at hindex
  exact .line (h.printable line List.mem_cons_self) (by omega)

/-- The newline behind a line. -/
theorem Room.newline {line next : List (BitVec 8)} {lines : List (List (BitVec 8))}
    (h : Room (line :: next :: lines) c) :
    let c' := line.foldl consolePutchar c
    (consoleNewline c').vgaIndex.toNat = 80 * (c'.vgaIndex.toNat / 80 + 1) ∧
      (consoleNewline c').cursorPosY.toNat = c.cursorPosY.toNat + 1 ∧
      (consoleNewline c').foreColor = c.foreColor ∧ (consoleNewline c').backColor = c.backColor ∧
      (consoleNewline c').cell b = c'.cell b := by
  intro c'
  have hline : Puts b c (doubled line) c' := h.line
  have hlength := h.length_doubled_le
  obtain ⟨-, -, hrow, hroom⟩ := h
  simp only [List.length_cons] at hrow hroom
  have hindex := hline.index
  have hspec := newline_spec (b := b) (c := c') (by rw [hline.row]; omega) (by omega)
  rwa [hline.row, hline.fore, hline.back] at hspec

/-- The lines behind a line have room. -/
theorem Room.next {line next : List (BitVec 8)} {lines : List (List (BitVec 8))}
    (h : Room (line :: next :: lines) c) :
    Room (next :: lines) (consoleNewline (line.foldl consolePutchar c)) := by
  obtain ⟨hindex, hrow, -⟩ := h.newline (b := fun _ => 0)
  have hline := (h.line (b := fun _ => 0)).index
  have hlength := h.length_doubled_le
  obtain ⟨hprintable, hshort, hroom, hlt⟩ := h
  simp only [List.length_cons] at hroom hlt
  refine ⟨fun line hl => hprintable line (List.mem_cons_of_mem _ hl),
    fun line hl => hshort line (List.mem_cons_of_mem _ hl), ?_, ?_⟩
  · rw [hrow, List.length_cons]
    omega
  · rw [hindex, List.length_cons]
    omega

/-- Further lines leave what stands before them. -/
theorem Room.ahead {line : List (BitVec 8)} {lines : List (List (BitVec 8))}
    (h : Room (line :: lines) c) {j : ℕ}
    (hj : j < (line.foldl consolePutchar c).vgaIndex.toNat) :
    (moreLines lines (line.foldl consolePutchar c)).cell b j =
      (line.foldl consolePutchar c).cell b j := by
  induction lines generalizing line c with
  | nil => rfl
  | cons next lines ih =>
      obtain ⟨hindex, -, -, -, hcell⟩ := h.newline (b := b)
      have hnext := h.next.line (b := b)
      have hback : j < (consoleNewline (line.foldl consolePutchar c)).vgaIndex.toNat := by
        rw [hindex]
        omega
      have hrest := ih h.next (by rw [hnext.index]; omega)
      rw [hnext.other j (.inl hback), hcell] at hrest
      exact hrest

/-! ### What is shown -/

/-- From `c` to `c'` the lines were put on the rows from `r` on, and nothing else was done to the
buffer. -/
structure Shows (b : ℕ → BitVec 16) (c c' : State) (r : ℕ) (lines : List (List (BitVec 8))) :
    Prop where
  /-- A character stands in its row and column, in the current colours. -/
  text : ∀ n l k ch, lines[n]? = some l → l[k]? = some ch →
    c'.cell b (80 * (r + n) + k) = c.item ch
  /-- Every other cell is as it was. -/
  rest : ∀ j, (∀ n l, lines[n]? = some l →
    ¬ (80 * (r + n) ≤ j ∧ j < 80 * (r + n) + l.length)) → c'.cell b j = c.cell b j

/-- A line without a space is shown; the lines behind it are what is left to show. -/
theorem shows_cons {line : List (BitVec 8)} {lines : List (List (BitVec 8))} {r : ℕ}
    {c₁ d : State} (hindex : c.vgaIndex.toNat = 80 * r) (hlength : line.length ≤ 79)
    (hput : Puts b c line c₁) (hfore : c'.foreColor = c.foreColor)
    (hback : c'.backColor = c.backColor) (hcell : c'.cell b = c₁.cell b) :
    Shows b c d r (line :: lines) ↔ Shows b c' d (r + 1) lines := by
  have hitem : ∀ ch, c'.item ch = c.item ch := fun ch => by
    rw [State.item, State.item, hfore, hback]
  have hrow : ∀ n, r + 1 + n = r + (n + 1) := fun n => by omega
  have hother := hput.other
  rw [hindex] at hother
  constructor
  · rintro ⟨htext, hrest⟩
    refine ⟨fun n l k ch hl hk => ?_, fun j hj => ?_⟩
    · rw [hrow, hitem]
      exact htext (n + 1) l k ch hl hk
    · rw [hcell]
      by_cases hin : 80 * r ≤ j ∧ j < 80 * r + line.length
      · obtain ⟨k, rfl⟩ := Nat.exists_eq_add_of_le hin.1
        have hlt : k < line.length := by omega
        have hk := List.getElem?_eq_getElem hlt
        have hput' := hput.put k _ hk
        rw [hindex] at hput'
        rw [hput']
        exact htext 0 line k _ rfl hk
      · rw [hother j (by omega)]
        refine hrest j fun n l hl => ?_
        cases n with
        | zero =>
            obtain rfl : line = l := Option.some.inj hl
            exact hin
        | succ n => exact hrow n ▸ hj n l hl
  · rintro ⟨htext, hrest⟩
    refine ⟨fun n l k ch hl hk => ?_, fun j hj => ?_⟩
    · cases n with
      | zero =>
          obtain rfl : line = l := Option.some.inj hl
          have hlt : k < line.length := (List.getElem?_eq_some_iff.mp hk).1
          have hput' := hput.put k ch hk
          rw [hindex] at hput'
          rw [Nat.add_zero, hrest _ fun n _ _ => by omega, hcell, hput']
      | succ n => exact (hitem ch) ▸ (hrow n ▸ htext n l k ch hl hk)
    · rw [hrest j fun n l hl => hrow n ▸ hj (n + 1) l hl, hcell]
      exact hother j (by have := hj 0 line rfl; omega)

/-- A line with a space comes out longer than it is. -/
theorem not_shows_of_space {line : List (BitVec 8)} {lines : List (List (BitVec 8))} {r : ℕ}
    (hindex : c.vgaIndex.toNat = 80 * r) (h : Room (line :: lines) c) (hspace : SPACE ∈ line)
    (hclear : ∀ ch, Printable ch → c.cell b (80 * r + line.length) ≠ c.item ch) :
    ¬ Shows b c (moreLines lines (line.foldl consolePutchar c)) r (line :: lines) := by
  intro hshows
  have hput := h.line (b := b)
  have hlonger : line.length < (doubled line).length := by
    have hcount := List.count_pos_iff.mpr hspace
    rw [length_doubled]
    omega
  have hk : (doubled line)[line.length]? = some (doubled line)[line.length] :=
    List.getElem?_eq_getElem hlonger
  have hcell := hput.put _ _ hk
  rw [← h.ahead (by rw [hput.index]; omega), hindex] at hcell
  have hprintable : Printable (doubled line)[line.length] := by
    obtain ⟨ch, hch, hmem⟩ := List.mem_flatMap.mp (List.getElem_mem hlonger)
    have hch := h.printable line List.mem_cons_self ch hch
    split_ifs at hmem with hsp
    · simp only [List.mem_cons, List.not_mem_nil, or_false, or_self] at hmem
      rw [hmem, ← hsp]
      exact hch
    · rw [List.mem_singleton.mp hmem]
      exact hch
  have hlength := h.length line List.mem_cons_self
  refine hclear _ hprintable (Eq.trans (hshows.rest _ fun n l hl => ?_).symm hcell)
  cases n with
  | zero =>
      obtain rfl : line = l := Option.some.inj hl
      omega
  | succ n => omega

/-- On a clear screen, a space in the first line is one in the text, which is not shown then. -/
theorem shows_iff_of_space {line : List (BitVec 8)} {lines : List (List (BitVec 8))} {r : ℕ}
    (hindex : c.vgaIndex.toNat = 80 * r) (hrow : c.cursorPosY.toNat = r)
    (h : Room (line :: lines) c)
    (hclear : ∀ j ch, 80 * r ≤ j → j < VGA_TOTAL_ITEMS → Printable ch → c.cell b j ≠ c.item ch)
    (hspace : SPACE ∈ line) :
    Shows b c (moreLines lines (line.foldl consolePutchar c)) r (line :: lines) ↔
      ∀ l ∈ line :: lines, SPACE ∉ l := by
  have hlength := h.length line List.mem_cons_self
  have hlast := h.row
  rw [List.length_cons, hrow] at hlast
  refine iff_of_false (not_shows_of_space hindex h hspace fun ch hch => ?_)
    fun hnone => hnone line List.mem_cons_self hspace
  exact hclear _ ch (by omega) (by rw [VGA_TOTAL_ITEMS]; omega) hch

/-- From the start of a row of a clear screen, a text is shown when it has no space. -/
theorem shows_iff {line : List (BitVec 8)} {lines : List (List (BitVec 8))} {r : ℕ}
    (hindex : c.vgaIndex.toNat = 80 * r) (hrow : c.cursorPosY.toNat = r)
    (h : Room (line :: lines) c)
    (hclear : ∀ j ch, 80 * r ≤ j → j < VGA_TOTAL_ITEMS → Printable ch → c.cell b j ≠ c.item ch) :
    Shows b c (moreLines lines (line.foldl consolePutchar c)) r (line :: lines) ↔
      ∀ l ∈ line :: lines, SPACE ∉ l := by
  induction lines generalizing c line r with
  | nil =>
      have hlength := h.length line List.mem_cons_self
      by_cases hspace : SPACE ∈ line
      · exact shows_iff_of_space hindex hrow h hclear hspace
      · have hput := h.line (b := b)
        rw [doubled_eq_self hspace] at hput
        refine iff_of_true ((shows_cons hindex hlength hput hput.fore hput.back rfl).mpr ?_)
          (List.forall_mem_singleton.mpr hspace)
        exact ⟨fun n l k ch hl => by simp at hl, fun j _ => rfl⟩
  | cons next lines ih =>
      have hlength := h.length line List.mem_cons_self
      have hlast := h.row
      rw [List.length_cons, hrow] at hlast
      by_cases hspace : SPACE ∈ line
      · exact shows_iff_of_space hindex hrow h hclear hspace
      · have hput := h.line (b := b)
        rw [doubled_eq_self hspace] at hput
        obtain ⟨hindex', hrow', hfore, hback, hcell⟩ := h.newline (b := b)
        rw [hput.index, hindex] at hindex'
        rw [hrow] at hrow'
        rw [List.forall_mem_cons, and_iff_right hspace,
          shows_cons hindex hlength hput hfore hback hcell]
        refine ih (by omega) hrow' h.next fun j ch hj hlt hch => ?_
        rw [hcell, hput.other j (.inr (by omega)), State.item, hfore, hback]
        exact hclear j ch (by omega) hlt hch

/-! ### From a cleared console -/

/-- The clearing loop puts the empty item into every cell of the buffer. -/
theorem cell_clear (foreColor backColor : BitVec 8) (c : State) {j : ℕ} (hj : j < VGA_TOTAL_ITEMS) :
    (consoleClear foreColor backColor c).cell b j = vgaItemEntry 0 foreColor backColor := by
  have hloop := forUpTo_cell (f := fun i (c : State) =>
      c.store (BitVec.ofNat 32 i) (vgaItemEntry 0 foreColor backColor))
    (fun _ _ => True) (fun c => c.cell b j) (j := j) (P := True)
    (v := vgaItemEntry 0 foreColor backColor) (n := VGA_TOTAL_ITEMS) (a := c) trivial
    (fun _ _ _ _ => trivial) (fun i hi a _ => by
      have hnat : (BitVec.ofNat 32 i).toNat = i := by
        rw [VGA_TOTAL_ITEMS] at hi
        rw [BitVec.toNat_ofNat]
        omega
      have hcons : (a.store (BitVec.ofNat 32 i) (vgaItemEntry 0 foreColor backColor)).cell b j =
          if j = (BitVec.ofNat 32 i).toNat then vgaItemEntry 0 foreColor backColor
          else a.cell b j :=
        cell_cons (s := (_, _)) rfl j
      rw [hcons, hnat]
      simp [eq_comm])
  rw [if_pos ⟨hj, trivial⟩] at hloop
  rw [consoleClear]
  generalize forUpTo _ VGA_TOTAL_ITEMS c = d at hloop ⊢
  exact hloop

/-- The empty item is the item of no printable character. -/
theorem vgaItemEntry_ne {ch foreColor backColor foreColor' backColor' : BitVec 8}
    (hch : Printable ch) :
    vgaItemEntry 0 foreColor backColor ≠ vgaItemEntry ch foreColor' backColor' := by
  intro heq
  have hlow := congrArg (BitVec.setWidth 8) heq
  simp only [vgaItemEntry, BitVec.setWidth_append_eq_right] at hlow
  subst hlow
  exact absurd hch.1 (by decide)

theorem chars_append {text : List (BitVec 8)} (htext : ∀ ch ∈ text, ch ≠ 0)
    (rest : List (BitVec 8)) : chars (text ++ 0 :: rest) = text := by
  rw [chars, List.takeWhile_append_of_pos (by simpa using htext)]
  simp

theorem ne_zero_of_text {lines : List (List (BitVec 8))}
    (h : ∀ line ∈ lines, ∀ ch ∈ line, Printable ch) :
    ∀ ch ∈ [NEWLINE].intercalate lines, ch ≠ 0 := by
  induction lines with
  | nil => simp
  | cons line lines ih =>
      have hline : ∀ ch ∈ line, ch ≠ 0 := fun ch hch =>
        (h line List.mem_cons_self ch hch).moves.2.2.2
      have hlines := ih fun l hl => h l (List.mem_cons_of_mem _ hl)
      cases lines with
      | nil => simpa using hline
      | cons next lines =>
          rw [List.intercalate_cons_cons, List.forall_mem_append, List.forall_mem_append]
          exact ⟨⟨hline, by simp [NEWLINE]⟩, hlines⟩

/-- **From a cleared console `console_putstr` shows a text of at most 25 lines of printable ASCII
characters, each at most 79 long, exactly when no line has a space.** -/
theorem showsText_iff (b : ℕ → BitVec 16) (foreColor backColor : BitVec 8) (c : State)
    (lines : List (List (BitVec 8))) (rest : List (BitVec 8)) (hcount : lines.length ≤ 25)
    (hprintable : ∀ line ∈ lines, ∀ ch ∈ line, Printable ch)
    (hlength : ∀ line ∈ lines, line.length ≤ 79) :
    let cleared := consoleClear foreColor backColor c
    Shows b cleared
        (consolePutstr ([NEWLINE].intercalate lines ++ 0 :: rest) cleared) 0 lines ↔
      ∀ line ∈ lines, SPACE ∉ line := by
  intro cleared
  rw [consolePutstr_eq, chars_append (ne_zero_of_text hprintable)]
  cases lines with
  | nil => exact iff_of_true ⟨fun n l k ch hl => by simp at hl, fun j _ => rfl⟩ (by simp)
  | cons line lines =>
      rw [putText]
      refine shows_iff rfl rfl ⟨hprintable, hlength, ?_, ?_⟩ fun j ch _ hj hch => ?_
      · exact (Nat.zero_add _).trans_le hcount
      · change 0 + 240 * (line :: lines).length < 2 ^ 32
        omega
      · rw [cell_clear foreColor backColor c hj]
        exact vgaItemEntry_ne hch

/-- `HI` and `!` on two lines. -/
theorem showsText_iff_hi :
    let cleared := consoleClear 15 1 blank
    Shows (fun _ => 0) cleared
        (consolePutstr ([NEWLINE].intercalate [[0x48, 0x49], [0x21]] ++ 0 :: []) cleared) 0
        [[0x48, 0x49], [0x21]] ↔
      ∀ line ∈ [[0x48#8, 0x49#8], [0x21#8]], SPACE ∉ line :=
  showsText_iff (fun _ => 0) 15 1 blank [[0x48, 0x49], [0x21]] [] (by decide)
    (by simp [Printable]) (by simp)

/-- Of the line ` A` the second column shows another space. -/
theorem space_put_twice :
    ¬ Shows (fun _ => 0) (consoleClear 15 0 blank)
      (consolePutstr ([NEWLINE].intercalate [[SPACE, 0x41]] ++ 0 :: []) (consoleClear 15 0 blank)) 0
      [[SPACE, 0x41]] := by
  intro h
  have hcell := h.text 0 [SPACE, 0x41] 1 0x41 rfl rfl
  have hindex : (consoleClear 15 0 blank).vgaIndex = 0 := rfl
  have hput : (consolePutstr [SPACE, 0x41, 0] (consoleClear 15 0 blank)).cell (fun _ => 0) 1 =
      (consoleClear 15 0 blank).item SPACE := by
    generalize consoleClear 15 0 blank = cleared at hindex
    have hstores : (consolePutstr [SPACE, 0x41, 0] cleared).stores =
        (2, cleared.item 0x41) :: (1, cleared.item SPACE) :: (0, cleared.item SPACE) ::
          cleared.stores := by
      obtain ⟨_, _, _, _, _, _, _⟩ := cleared
      obtain rfl := hindex
      rfl
    rw [State.cell, hstores]
    simp
  have hlow := congrArg (BitVec.setWidth 8) (hput.symm.trans hcell)
  simp only [State.item, vgaItemEntry, BitVec.setWidth_append_eq_right] at hlow
  exact absurd hlow (by decide)

end B2OS.Console
