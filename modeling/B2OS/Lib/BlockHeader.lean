import B2OS.Lib.BlockChain
import B2OS.Lib.ByteMemory

/-!
# Block Headers in Byte Memory

A `HeaderFormat` lays the header of a block out in a record: it reads a record as a `Hdr`
and has a store for each field, with the laws of the stores. What a store does to the
headers of a memory is an `Edit`: one header changes, the headers apart from it stay.

## Main results

* `Edit.trans`, `Edit2.editFst`, `Edit2.editSnd`: edits of one header, or of two that are
  apart, compose.
* `Chain.edit_used`, `Chain.edit_absorb`: the stores that mark a block and that let a block
  swallow its successor.
* `Chain.changedOnly`: stores into a payload leave a chain alone.
-/

namespace BlockChain

open ByteMemory

variable {p : Addr}

/-- The header at `p` fits below the end of the address space. -/
def Fits (p : Addr) : Prop := p.toNat + recordSize ≤ 2 ^ 32

/-- Two headers do not overlap. -/
def Apart (x y : ℕ) : Prop := x + recordSize ≤ y ∨ y + recordSize ≤ x

theorem Apart.symm {x y : ℕ} (h : Apart x y) : Apart y x := Or.symm h

theorem ne_zero_of_pos (h : 0 < p.toNat) : p ≠ 0 := by
  rintro rfl
  exact absurd h (by decide)

/-- A layout of headers in records, with a store for each field. -/
structure HeaderFormat where
  hdr : Record → Hdr
  setPrev : Memory → Addr → BitVec 32 → Memory
  setNext : Memory → Addr → BitVec 32 → Memory
  setLen : Memory → Addr → BitVec 32 → Memory
  setUsed : Memory → Addr → Bool → Memory
  setPrev_self : ∀ m p v, Fits p →
    hdr (record (setPrev m p v) p) = { hdr (record m p) with prev := v.toNat }
  setNext_self : ∀ m p v, Fits p →
    hdr (record (setNext m p v) p) = { hdr (record m p) with next := v.toNat }
  setLen_self : ∀ m p v, Fits p →
    hdr (record (setLen m p v) p) = { hdr (record m p) with len := v.toNat }
  setUsed_self : ∀ m p b, Fits p →
    hdr (record (setUsed m p b) p) = { hdr (record m p) with used := b }
  setPrev_apart : ∀ m p v q, Fits p → Fits q → Apart q.toNat p.toNat →
    record (setPrev m p v) q = record m q
  setNext_apart : ∀ m p v q, Fits p → Fits q → Apart q.toNat p.toNat →
    record (setNext m p v) q = record m q
  setLen_apart : ∀ m p v q, Fits p → Fits q → Apart q.toNat p.toNat →
    record (setLen m p v) q = record m q
  setUsed_apart : ∀ m p b q, Fits p → Fits q → Apart q.toNat p.toNat →
    record (setUsed m p b) q = record m q

/-- The header at an address, in numbers. -/
def HeaderFormat.at (F : HeaderFormat) (m : Memory) (x : ℕ) : Hdr :=
  F.hdr (record m (BitVec.ofNat 32 x))

variable {F : HeaderFormat} {m m' m'' : Memory}

theorem HeaderFormat.at_toNat (F : HeaderFormat) (m : Memory) (p : Addr) :
    F.at m p.toNat = F.hdr (record m p) := by
  rw [HeaderFormat.at, BitVec.ofNat_toNat, BitVec.setWidth_eq]

/-- The header at `p` changes by `f`, the headers apart from it stay. -/
structure Edit (F : HeaderFormat) (m m' : Memory) (p : Addr) (f : Hdr → Hdr) : Prop where
  self : F.at m' p.toNat = f (F.at m p.toNat)
  other : ∀ x, x + recordSize ≤ 2 ^ 32 → Apart x p.toNat → F.at m' x = F.at m x

/-- Two edits of one header are one. -/
theorem Edit.trans {f g : Hdr → Hdr} (h : Edit F m m' p f) (h' : Edit F m' m'' p g) :
    Edit F m m'' p fun x => g (f x) where
  self := by rw [h'.self, h.self]
  other x hx hapart := by rw [h'.other x hx hapart, h.other x hx hapart]

theorem Edit.of_record {f : Hdr → Hdr}
    (hself : F.hdr (record m' p) = f (F.hdr (record m p)))
    (hother : ∀ q, Fits q → Apart q.toNat p.toNat → record m' q = record m q) :
    Edit F m m' p f where
  self := by rw [F.at_toNat, F.at_toNat, hself]
  other x hx hapart := by
    have hlt : x < 2 ^ 32 := by
      rw [recordSize] at hx
      omega
    have hnat : (BitVec.ofNat 32 x).toNat = x := by
      rw [BitVec.toNat_ofNat, Nat.mod_eq_of_lt hlt]
    rw [HeaderFormat.at, HeaderFormat.at,
      hother (BitVec.ofNat 32 x) (by rw [Fits, hnat]; exact hx) (by rwa [hnat])]

/-- The headers at `p` and `q` change by `f` and `g`, the headers apart from both stay. -/
structure Edit2 (F : HeaderFormat) (m m' : Memory) (p q : Addr) (f g : Hdr → Hdr) :
    Prop where
  fst : F.at m' p.toNat = f (F.at m p.toNat)
  snd : F.at m' q.toNat = g (F.at m q.toNat)
  other : ∀ x, x + recordSize ≤ 2 ^ 32 → Apart x p.toNat → Apart x q.toNat →
    F.at m' x = F.at m x

section Edit2

variable {q : Addr} {f g e : Hdr → Hdr}

theorem Edit2.refl (F : HeaderFormat) (m : Memory) (p q : Addr) :
    Edit2 F m m p q id id := ⟨rfl, rfl, fun _ _ _ _ => rfl⟩

/-- One more edit of the first header. -/
theorem Edit2.editFst (h : Edit2 F m m' p q f g) (hq : Fits q) (hpq : Apart p.toNat q.toNat)
    (he : Edit F m' m'' p e) : Edit2 F m m'' p q (fun x => e (f x)) g where
  fst := by rw [he.self, h.fst]
  snd := by rw [he.other _ hq hpq.symm, h.snd]
  other x hx hxp hxq := by rw [he.other x hx hxp, h.other x hx hxp hxq]

/-- One more edit of the second header. -/
theorem Edit2.editSnd (h : Edit2 F m m' p q f g) (hp : Fits p) (hpq : Apart p.toNat q.toNat)
    (he : Edit F m' m'' q e) : Edit2 F m m'' p q f fun x => e (g x) where
  fst := by rw [he.other _ hp hpq, h.fst]
  snd := by rw [he.self, h.snd]
  other x hx hxp hxq := by rw [he.other x hx hxq, h.other x hx hxp hxq]

end Edit2

namespace HeaderFormat

variable (F) (m)

theorem edit_setPrev (hp : Fits p) (v : BitVec 32) :
    Edit F m (F.setPrev m p v) p fun x => { x with prev := v.toNat } :=
  .of_record (F.setPrev_self m p v hp) fun q hq => F.setPrev_apart m p v q hp hq

theorem edit_setNext (hp : Fits p) (v : BitVec 32) :
    Edit F m (F.setNext m p v) p fun x => { x with next := v.toNat } :=
  .of_record (F.setNext_self m p v hp) fun q hq => F.setNext_apart m p v q hp hq

theorem edit_setLen (hp : Fits p) (v : BitVec 32) :
    Edit F m (F.setLen m p v) p fun x => { x with len := v.toNat } :=
  .of_record (F.setLen_self m p v hp) fun q hq => F.setLen_apart m p v q hp hq

theorem edit_setUsed (hp : Fits p) (b : Bool) :
    Edit F m (F.setUsed m p b) p fun x => { x with used := b } :=
  .of_record (F.setUsed_self m p b hp) fun q hq => F.setUsed_apart m p b q hp hq

end HeaderFormat

/-! ### Edits of a chain -/

section Chain

universe u

variable {τ : Type u} {fin prv a : ℕ} {pre post : List (Block τ)} {b c : Block τ}

/-- A header outside the changed addresses is unchanged. -/
theorem HeaderFormat.at_changedOnly {lo hi x : ℕ} (hch : ChangedOnly m m' lo hi)
    (hx : x + recordSize ≤ 2 ^ 32) (hout : x + recordSize ≤ lo ∨ hi ≤ x) :
    F.at m' x = F.at m x := by
  have hnat : (BitVec.ofNat 32 x).toNat = x := by
    rw [BitVec.toNat_ofNat, Nat.mod_eq_of_lt]
    rw [recordSize] at hx
    omega
  rw [HeaderFormat.at, HeaderFormat.at,
    hch.record_eq (by rw [hnat]; exact hx) (by rw [hnat]; exact hout)]

/-- Stores into a payload in use leave the chain alone. -/
theorem Chain.changedOnly {bs : List (Block τ)} {x : Payload τ}
    (hc : Chain recordSize (F.at m) fin prv a bs)
    (htop : a + span recordSize bs ≤ 2 ^ 32) (hx : x ∈ payloads recordSize a bs)
    (hch : ChangedOnly m m' x.addr (x.addr + x.len)) :
    Chain recordSize (F.at m') fin prv a bs := by
  obtain ⟨pre, b, post, rfl, -, haddr, hlen⟩ := mem_payloads_iff.mp hx
  obtain ⟨hpre, hb, hpost⟩ := chain_focus.mp hc
  rw [span_append, span_cons] at htop
  refine chain_focus.mpr ⟨hpre.congr fun y _ hy => ?_, ?_, hpost.congr fun y hy hy' => ?_⟩
  · exact HeaderFormat.at_changedOnly hch (by omega) (.inl (by omega))
  · rw [← hb]
    exact HeaderFormat.at_changedOnly hch (by omega) (.inl (by omega))
  · exact HeaderFormat.at_changedOnly hch (by omega) (.inr (by omega))

/-- Storing the flag of a block gives it another tag. -/
theorem Chain.edit_used (t : Option τ)
    (hc : Chain recordSize (F.at m) fin prv a (pre ++ b :: post))
    (htop : a + span recordSize (pre ++ b :: post) ≤ 2 ^ 32)
    (hp : p.toNat = a + span recordSize pre)
    (hedit : Edit F m m' p fun x => { x with used := t.isSome }) :
    Chain recordSize (F.at m') fin prv a (pre ++ { b with tag := t } :: post) := by
  refine hc.setTag t (by rw [← hp]; exact hedit.self) fun x hx => hedit.other x ?_ ?_
  · rw [span_append, span_cons] at htop hx
    omega
  · rw [Apart, hp]
    omega

/-- The block at `p` swallows its successor at `q`: its header gets the length of both and
the link of the successor, and the block at that link, if there is one, links back. -/
theorem Chain.edit_absorb {q n : Addr} {f g : Hdr → Hdr}
    (hc : Chain recordSize (F.at m) 0 prv a (pre ++ b :: c :: post))
    (htop : a + span recordSize (pre ++ b :: c :: post) ≤ 2 ^ 32)
    (ha : 0 < a)
    (hp : p.toNat = a + span recordSize pre)
    (hq : q.toNat = p.toNat + recordSize + b.len)
    (hn : n.toNat = (F.at m q.toNat).next)
    (hlast : n = 0 → Edit F m m' p f)
    (hmid : n ≠ 0 → Fits n → Apart p.toNat n.toNat → Edit2 F m m' p n f g)
    (hf : ∀ x, f x = { x with len := b.len + (recordSize + c.len), next := n.toNat })
    (hg : ∀ x, g x = { x with prev := p.toNat }) :
    Chain recordSize (F.at m') 0 prv a
      (pre ++ { b with len := b.len + (recordSize + c.len) } :: post) := by
  have hspan : q.toNat + recordSize + c.len + span recordSize post ≤ 2 ^ 32 := by
    rw [span_append, span_cons, span_cons] at htop
    omega
  have hlink : n.toNat = link (q.toNat + recordSize + c.len) 0 post := by
    obtain ⟨-, -, hcc, -⟩ := chain_focus.mp hc
    rw [hn, hq, hp, hcc]
  cases post with
  | nil =>
      have hedit := hlast (BitVec.eq_of_toNat_eq (by rw [hlink]; rfl))
      rw [span_append, span_cons, span_cons, span_nil] at htop
      refine hc.merge ?_ (fun h => absurd rfl h) fun x hx => hedit.other x ?_ ?_
      · rw [← hp, ← hq, ← hn, hedit.self, hf]
      · rw [span_append, span_cons, span_cons, span_nil] at hx
        omega
      · rw [Apart, hp]
        omega
  | cons d post =>
      have hnat : n.toNat = q.toNat + recordSize + c.len := hlink
      rw [span_cons] at hspan
      have hedit := hmid (ne_zero_of_pos (by rw [recordSize] at hnat; omega))
        (by rw [Fits]; omega) (.inl (by omega))
      refine hc.merge ?_ (fun _ => ?_) fun x hx => hedit.other x (by omega) ?_ ?_
      · rw [← hp, ← hq, ← hn, hedit.fst, hf]
      · rw [← hp, ← hq, ← hnat, hedit.snd, hg]
      · rw [Apart]
        omega
      · rw [Apart]
        omega

/-- The stores that cut a block of length `n` off the front of the last block. -/
theorem Chain.edit_split {q : Addr} {n r : ℕ} {f g : Hdr → Hdr} (t : Option τ)
    (hc : Chain recordSize (F.at m) fin prv a (pre ++ [b]))
    (hp : p.toNat = a + span recordSize pre)
    (hq : q.toNat = p.toNat + recordSize + n)
    (hedit : Edit2 F m m' p q f g)
    (hf : ∀ x, f x = ⟨x.prev, q.toNat, n, t.isSome⟩)
    (hg : ∀ x, g x = ⟨p.toNat, (F.at m p.toNat).next, r, false⟩) :
    Chain recordSize (F.at m') fin prv a (pre ++ [⟨n, t⟩, ⟨r, none⟩]) := by
  refine hc.splitLast t ?_ ?_ fun x hx => hedit.other x ?_ ?_ ?_
  · rw [← hp, ← hq, hedit.fst, hf]
  · rw [← hp, ← hq, hedit.snd, hg]
  · omega
  · rw [Apart]
    omega
  · rw [Apart]
    omega

end Chain

end BlockChain
