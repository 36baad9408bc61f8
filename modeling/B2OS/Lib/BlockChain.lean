import Mathlib.Data.List.Basic
import Mathlib.Logic.Function.Basic

/-!
# Doubly Linked Blocks that Tile an Arena

The heap of a linked-list allocator is a row of blocks, each a header of `h` bytes and a
payload, one right after the other. The abstract heap is the list of the blocks, `Block`,
with the length of the payload and a tag for those in use. The concrete heap is whatever
headers a memory shows, `H : ℕ → Hdr`, and `Chain` ties the two together: every block has
the header of its place, `next` is the address behind its payload and `prev` the address
of its predecessor.

An allocator changes a few headers around one block. The edits of this module say which
change of the list of blocks that is; everything else is left alone as long as the headers
at the other places are.

## Main results

* `chain_append`, `chain_focus`: a chain around one of its blocks.
* `Chain.setTag`, `Chain.merge`, `Chain.splitLast`, `Chain.padLast`: the edits.
* `Chain.links`, `Links.replace`: a row whose links back may be stale, and its edits.
* `payloads_disjoint`: payloads of different blocks do not overlap.
* `Coalesced.eq_single`: free neighbours apart, a heap with no block in use is one block.
* `Coalesced.headersBelow`: free neighbours apart, the payloads in use bound the headers.
-/

universe u

namespace BlockChain

/-- A header as it stands in memory. -/
structure Hdr where
  prev : ℕ
  next : ℕ
  len : ℕ
  used : Bool
deriving DecidableEq, Repr

/-- A header without its link back. -/
def Hdr.fwd (x : Hdr) : Hdr := { x with prev := 0 }

/-- A block of the abstract heap; the tag of a block in use says what it was allocated
for. -/
structure Block (τ : Type u) where
  len : ℕ
  tag : Option τ

/-- A payload in use: its address, its length and its tag. -/
structure Payload (τ : Type u) where
  addr : ℕ
  len : ℕ
  tag : τ

variable {τ : Type u} (h : ℕ)

/-- The bytes that blocks take with their headers. -/
def span : List (Block τ) → ℕ
  | [] => 0
  | b :: bs => h + b.len + span bs

/-- The address of the last of the blocks from `a` on, `prv` when there is none. -/
def lastAddr (prv a : ℕ) : List (Block τ) → ℕ
  | [] => prv
  | b :: bs => lastAddr a (a + h + b.len) bs

/-- The link to a row of blocks at `a`: `fin` when the row is empty. -/
def link (a fin : ℕ) : List (Block τ) → ℕ
  | [] => fin
  | _ :: _ => a

/-- The headers `H` show the blocks from address `a` on, the first with predecessor
`prv`, the last with successor `fin`. -/
def Chain (H : ℕ → Hdr) (fin : ℕ) (prv a : ℕ) : List (Block τ) → Prop
  | [] => True
  | b :: bs =>
      H a = ⟨prv, link (a + h + b.len) fin bs, b.len, b.tag.isSome⟩ ∧
        Chain H fin a (a + h + b.len) bs

/-- The headers `H` show the blocks from address `a` on by their links to the successors;
the links back may lead anywhere. -/
def Links (H : ℕ → Hdr) (fin : ℕ) (a : ℕ) : List (Block τ) → Prop
  | [] => True
  | b :: bs =>
      (H a).fwd = ⟨0, link (a + h + b.len) fin bs, b.len, b.tag.isSome⟩ ∧
        Links H fin (a + h + b.len) bs

/-- The addresses of the headers of the row at `a`. -/
def places (a : ℕ) : List (Block τ) → List ℕ
  | [] => []
  | b :: bs => a :: places (a + h + b.len) bs

/-- The payloads in use of the blocks from `a` on. -/
def payloads (a : ℕ) : List (Block τ) → List (Payload τ)
  | [] => []
  | b :: bs =>
      (b.tag.toList.map fun t => ⟨a + h, b.len, t⟩) ++ payloads (a + h + b.len) bs

/-- No two neighbours are both free. -/
def Coalesced : List (Block τ) → Prop
  | [] => True
  | [_] => True
  | b :: c :: bs => (b.tag.isSome ∨ c.tag.isSome) ∧ Coalesced (c :: bs)

/-- The headers of the row at `a` lie below `top`. -/
def HeadersBelow (top : ℕ) (a : ℕ) : List (Block τ) → Prop
  | [] => True
  | b :: bs => a + h ≤ top ∧ HeadersBelow top (a + h + b.len) bs

/-! ### Rows of blocks -/

@[simp] theorem span_nil : span h ([] : List (Block τ)) = 0 := rfl

@[simp] theorem span_cons (b : Block τ) (bs : List (Block τ)) :
    span h (b :: bs) = h + b.len + span h bs := rfl

@[simp] theorem span_append (xs ys : List (Block τ)) :
    span h (xs ++ ys) = span h xs + span h ys := by
  induction xs with
  | nil => simp
  | cons b xs ih =>
      rw [List.cons_append, span_cons, span_cons, ih]
      omega

@[simp] theorem link_nil (a fin : ℕ) : link a fin ([] : List (Block τ)) = fin := rfl

@[simp] theorem link_cons (a fin : ℕ) (b : Block τ) (bs : List (Block τ)) :
    link a fin (b :: bs) = a := rfl

/-- Rows of blocks in front of one list are equal when they take as many bytes. -/
theorem eq_of_span_eq (hpos : 0 < h) {xs xs' ys ys' : List (Block τ)}
    (heq : xs ++ ys = xs' ++ ys') (hspan : span h xs = span h xs') : xs = xs' := by
  induction xs generalizing xs' with
  | nil =>
      cases xs' with
      | nil => rfl
      | cons c xs' =>
          rw [span_nil, span_cons] at hspan
          omega
  | cons b xs ih =>
      cases xs' with
      | nil =>
          rw [span_nil, span_cons] at hspan
          omega
      | cons c xs' =>
          obtain ⟨rfl, hrest⟩ := List.cons.inj heq
          rw [span_cons, span_cons] at hspan
          rw [ih hrest (by omega)]

theorem lastAddr_concat (prv a : ℕ) (xs : List (Block τ)) (b : Block τ) :
    lastAddr h prv a (xs ++ [b]) = a + span h xs := by
  induction xs generalizing prv a with
  | nil => rfl
  | cons c xs ih =>
      rw [List.cons_append, lastAddr, ih, span_cons]
      omega

/-! ### Chains -/

section Chain

variable {h} {H H' : ℕ → Hdr} {fin prv a : ℕ}

/-- A chain of two rows: the first leads to the second, the second back to the first. -/
theorem chain_append {xs ys : List (Block τ)} :
    Chain h H fin prv a (xs ++ ys) ↔
      Chain h H (link (a + span h xs) fin ys) prv a xs ∧
        Chain h H fin (lastAddr h prv a xs) (a + span h xs) ys := by
  induction xs generalizing prv a with
  | nil => simp [Chain, lastAddr]
  | cons b xs ih =>
      have hspan : a + h + b.len + span h xs = a + span h (b :: xs) := by
        rw [span_cons]
        omega
      have hlink : link (a + h + b.len) fin (xs ++ ys) =
          link (a + h + b.len) (link (a + span h (b :: xs)) fin ys) xs := by
        cases xs with
        | nil => simp [Nat.add_assoc]
        | cons c xs => rfl
      rw [List.cons_append, Chain, Chain, ih, hspan, hlink, and_assoc]
      rfl

/-- A chain around one of its blocks. -/
theorem chain_focus {pre post : List (Block τ)} {b : Block τ} :
    Chain h H fin prv a (pre ++ b :: post) ↔
      Chain h H (a + span h pre) prv a pre ∧
        H (a + span h pre) = ⟨lastAddr h prv a pre,
          link (a + span h pre + h + b.len) fin post, b.len, b.tag.isSome⟩ ∧
        Chain h H fin (a + span h pre) (a + span h pre + h + b.len) post := by
  rw [chain_append]
  rfl

/-- A chain depends on the headers inside its row only. -/
theorem Chain.congr {bs : List (Block τ)} (hc : Chain h H fin prv a bs)
    (heq : ∀ x, a ≤ x → x + h ≤ a + span h bs → H' x = H x) :
    Chain h H' fin prv a bs := by
  induction bs generalizing prv a with
  | nil => trivial
  | cons b bs ih =>
      rw [span_cons] at heq
      refine ⟨(heq a (Nat.le_refl a) (by omega)).trans hc.1, ih hc.2 fun x hx hx' => ?_⟩
      exact heq x (by omega) (by omega)

/-- A chain depends on the headers at its places only. -/
theorem Chain.congr_headers {top : ℕ} {bs : List (Block τ)} (hc : Chain h H fin prv a bs)
    (hbelow : HeadersBelow h top a bs) (heq : ∀ x, a ≤ x → x + h ≤ top → H' x = H x) :
    Chain h H' fin prv a bs := by
  induction bs generalizing prv a with
  | nil => trivial
  | cons b bs ih =>
      refine ⟨(heq a (Nat.le_refl a) hbelow.1).trans hc.1, ih hc.2 hbelow.2 fun x hx hx' => ?_⟩
      exact heq x (by omega) hx'

/-- The first header of a row may get a new predecessor. -/
theorem Chain.setPrev {bs : List (Block τ)} (prv' : ℕ) (hc : Chain h H fin prv a bs)
    (hself : bs ≠ [] → H' a = { H a with prev := prv' })
    (heq : ∀ x, a + h ≤ x → x + h ≤ a + span h bs → H' x = H x) :
    Chain h H' fin prv' a bs := by
  cases bs with
  | nil => trivial
  | cons b bs =>
      rw [span_cons] at heq
      refine ⟨?_, hc.2.congr fun x hx hx' => heq x (by omega) (by omega)⟩
      rw [hself (List.cons_ne_nil b bs), hc.1]

/-- Give a block another tag. -/
theorem Chain.setTag {pre post : List (Block τ)} {b : Block τ} (t : Option τ)
    (hc : Chain h H fin prv a (pre ++ b :: post))
    (hself : H' (a + span h pre) = { H (a + span h pre) with used := t.isSome })
    (heq : ∀ x, x + h ≤ a + span h pre ∨
      (a + span h pre + h ≤ x ∧ x + h ≤ a + span h (pre ++ b :: post)) → H' x = H x) :
    Chain h H' fin prv a (pre ++ { b with tag := t } :: post) := by
  obtain ⟨hpre, hb, hpost⟩ := chain_focus.mp hc
  rw [span_append, span_cons] at heq
  refine chain_focus.mpr ⟨hpre.congr fun x _ hx => heq x (.inl hx), ?_,
    hpost.congr fun x hx hx' => heq x (.inr ⟨by omega, by omega⟩)⟩
  rw [hself, hb]

/-- Let a block swallow its successor. -/
theorem Chain.merge {pre post : List (Block τ)} {b c : Block τ}
    (hc : Chain h H fin prv a (pre ++ b :: c :: post))
    (hself : H' (a + span h pre) = { H (a + span h pre) with
      len := b.len + (h + c.len)
      next := (H (a + span h pre + h + b.len)).next })
    (hnext : post ≠ [] → H' (a + span h pre + h + b.len + h + c.len) =
      { H (a + span h pre + h + b.len + h + c.len) with prev := a + span h pre })
    (heq : ∀ x, x + h ≤ a + span h pre ∨
      (a + span h pre + h + b.len + h + c.len + h ≤ x ∧
        x + h ≤ a + span h (pre ++ b :: c :: post)) → H' x = H x) :
    Chain h H' fin prv a (pre ++ { b with len := b.len + (h + c.len) } :: post) := by
  obtain ⟨hpre, hb, hcc, hpost⟩ := chain_focus.mp hc
  have haddr : a + span h pre + h + (b.len + (h + c.len)) =
      a + span h pre + h + b.len + h + c.len := by omega
  rw [span_append, span_cons, span_cons] at heq
  refine chain_focus.mpr ⟨hpre.congr fun x _ hx => heq x (.inl hx), ?_, ?_⟩
  · rw [hself, hb, hcc, haddr]
  · rw [haddr]
    exact hpost.setPrev _ hnext fun x hx hx' => heq x (.inr ⟨hx, by omega⟩)

/-- Cut a tagged block of length `n` off the front of the last block. -/
theorem Chain.splitLast {pre : List (Block τ)} {b : Block τ} {n r : ℕ} (t : Option τ)
    (hc : Chain h H fin prv a (pre ++ [b]))
    (hself : H' (a + span h pre) =
      ⟨(H (a + span h pre)).prev, a + span h pre + h + n, n, t.isSome⟩)
    (hnew : H' (a + span h pre + h + n) = ⟨a + span h pre, (H (a + span h pre)).next, r,
      false⟩)
    (heq : ∀ x, x + h ≤ a + span h pre → H' x = H x) :
    Chain h H' fin prv a (pre ++ [⟨n, t⟩, ⟨r, none⟩]) := by
  obtain ⟨hpre, hb, -⟩ := chain_focus.mp hc
  refine chain_focus.mpr ⟨hpre.congr fun x _ hx => heq x hx, ?_, ?_, trivial⟩
  · rw [hself, hb]
    rfl
  · rw [hnew, hb]
    rfl

/-- Move the header of the last block up by `pad`, and give the bytes below it to its
predecessor. -/
theorem Chain.padLast {pre : List (Block τ)} {b c : Block τ} {pad : ℕ}
    (hc : Chain h H fin prv a (pre ++ [b, c]))
    (hself : H' (a + span h pre) = { H (a + span h pre) with
      len := b.len + pad
      next := a + span h pre + h + (b.len + pad) })
    (hmoved : H' (a + span h pre + h + (b.len + pad)) =
      { H (a + span h pre + h + b.len) with len := c.len - pad })
    (heq : ∀ x, x + h ≤ a + span h pre → H' x = H x) :
    Chain h H' fin prv a
      (pre ++ [{ b with len := b.len + pad }, { c with len := c.len - pad }]) := by
  obtain ⟨hpre, hb, hcc, -⟩ := chain_focus.mp hc
  refine chain_focus.mpr ⟨hpre.congr fun x _ hx => heq x hx, ?_, ?_, trivial⟩
  · rw [hself, hb]
    rfl
  · rw [hmoved, hcc]
    rfl

end Chain

/-! ### Rows with links to the successors only -/

section Links

variable {h} {H H' : ℕ → Hdr} {fin prv a x : ℕ}

@[simp] theorem places_nil : places h a ([] : List (Block τ)) = [] := rfl

@[simp] theorem places_cons (b : Block τ) (bs : List (Block τ)) :
    places h a (b :: bs) = a :: places h (a + h + b.len) bs := rfl

theorem places_append (xs ys : List (Block τ)) :
    places h a (xs ++ ys) = places h a xs ++ places h (a + span h xs) ys := by
  induction xs generalizing a with
  | nil => rfl
  | cons b xs ih =>
      have hspan : a + h + b.len + span h xs = a + span h (b :: xs) := by
        rw [span_cons]
        omega
      rw [List.cons_append, places, places, ih, hspan, List.cons_append]

/-- A header stands at the place of one of the blocks. -/
theorem mem_places_iff {bs : List (Block τ)} :
    x ∈ places h a bs ↔ ∃ pre b post, bs = pre ++ b :: post ∧ x = a + span h pre := by
  constructor
  · intro hx
    induction bs generalizing a with
    | nil => cases hx
    | cons c bs ih =>
        rcases List.mem_cons.mp hx with rfl | hx
        · exact ⟨[], c, bs, rfl, rfl⟩
        · obtain ⟨pre, b, post, rfl, rfl⟩ := ih hx
          exact ⟨c :: pre, b, post, rfl, by rw [span_cons]; omega⟩
  · rintro ⟨pre, b, post, rfl, rfl⟩
    rw [places_append, places_cons]
    exact List.mem_append_right _ List.mem_cons_self

theorem place_mem (a : ℕ) (pre post : List (Block τ)) (b : Block τ) :
    a + span h pre ∈ places h a (pre ++ b :: post) :=
  mem_places_iff.mpr ⟨pre, b, post, rfl, rfl⟩

/-- The headers of a row lie in its bytes. -/
theorem place_bounds {bs : List (Block τ)} (hx : x ∈ places h a bs) :
    a ≤ x ∧ x + h ≤ a + span h bs := by
  obtain ⟨pre, b, post, rfl, rfl⟩ := mem_places_iff.mp hx
  rw [span_append, span_cons]
  omega

/-- The first place of a row where `P` holds, if there is one. -/
theorem exists_first_place (P : ℕ → Prop) (a : ℕ) (bs : List (Block τ)) :
    (∃ pre b post, bs = pre ++ b :: post ∧ P (a + span h pre) ∧ ∀ x ∈ places h a pre, ¬ P x) ∨
      ∀ x ∈ places h a bs, ¬ P x := by
  induction bs generalizing a with
  | nil => exact .inr (List.forall_mem_nil _)
  | cons c bs ih =>
      by_cases hc : P a
      · exact .inl ⟨[], c, bs, rfl, hc, List.forall_mem_nil _⟩
      · rcases ih (a + h + c.len) with ⟨pre, b, post, rfl, hb, hpre⟩ | hnone
        · refine .inl ⟨c :: pre, b, post, rfl, ?_, List.forall_mem_cons.mpr ⟨hc, hpre⟩⟩
          rwa [span_cons, ← Nat.add_assoc, ← Nat.add_assoc]
        · exact .inr (List.forall_mem_cons.mpr ⟨hc, hnone⟩)

/-- The places of the blocks before a block are those below its own. -/
theorem mem_places_before (hpos : 0 < h) {pre post : List (Block τ)} {b : Block τ}
    (hx : x ∈ places h a (pre ++ b :: post)) :
    x ∈ places h a pre ↔ x < a + span h pre := by
  constructor
  · intro hpre
    have hbounds := place_bounds hpre
    omega
  · intro hlt
    rw [places_append, places_cons, List.mem_append, List.mem_cons] at hx
    rcases hx with hx | rfl | hx
    · exact hx
    · omega
    · have hbounds := place_bounds hx
      omega

/-- Headers at different places do not overlap. -/
theorem places_apart {bs : List (Block τ)} {y : ℕ} (hx : x ∈ places h a bs)
    (hy : y ∈ places h a bs) : x = y ∨ x + h ≤ y ∨ y + h ≤ x := by
  obtain ⟨pre, b, post, rfl, rfl⟩ := mem_places_iff.mp hy
  rw [places_append, places_cons, List.mem_append, List.mem_cons] at hx
  rcases hx with hx | rfl | hx
  · exact .inr (.inl (place_bounds hx).2)
  · exact .inl rfl
  · have hbounds := place_bounds hx
    omega

/-- A chain is a row, whatever its links back. -/
theorem Chain.links {bs : List (Block τ)} (hc : Chain h H fin prv a bs) :
    Links h H fin a bs := by
  induction bs generalizing prv a with
  | nil => trivial
  | cons b bs ih => exact ⟨by rw [hc.1]; rfl, ih hc.2⟩

/-- Two rows in one: the first leads to the second. -/
theorem links_append {xs ys : List (Block τ)} :
    Links h H fin a (xs ++ ys) ↔
      Links h H (link (a + span h xs) fin ys) a xs ∧ Links h H fin (a + span h xs) ys := by
  induction xs generalizing a with
  | nil => simp [Links]
  | cons b xs ih =>
      have hspan : a + h + b.len + span h xs = a + span h (b :: xs) := by
        rw [span_cons]
        omega
      have hlink : link (a + h + b.len) fin (xs ++ ys) =
          link (a + h + b.len) (link (a + span h (b :: xs)) fin ys) xs := by
        cases xs with
        | nil => simp [Nat.add_assoc]
        | cons c xs => rfl
      rw [List.cons_append, Links, Links, ih, hspan, hlink, and_assoc]

/-- A row around one of its blocks. -/
theorem links_focus {pre post : List (Block τ)} {b : Block τ} :
    Links h H fin a (pre ++ b :: post) ↔
      Links h H (a + span h pre) a pre ∧
        (H (a + span h pre)).fwd =
          ⟨0, link (a + span h pre + h + b.len) fin post, b.len, b.tag.isSome⟩ ∧
        Links h H fin (a + span h pre + h + b.len) post := by
  rw [links_append]
  rfl

/-- A row depends on the links to the successors at its places only. -/
theorem Links.congr {bs : List (Block τ)} (hl : Links h H fin a bs)
    (heq : ∀ x ∈ places h a bs, (H' x).fwd = (H x).fwd) : Links h H' fin a bs := by
  induction bs generalizing a with
  | nil => trivial
  | cons b bs ih =>
      rw [places_cons, List.forall_mem_cons] at heq
      exact ⟨heq.1.trans hl.1, ih hl.2 heq.2⟩

/-- Blocks in the middle of a row may be replaced by others that take the same bytes. -/
theorem Links.replace {pre post : List (Block τ)} (mid mid' : List (Block τ))
    (hl : Links h H fin a (pre ++ (mid ++ post))) (hne : mid ≠ []) (hne' : mid' ≠ [])
    (hspan : span h mid' = span h mid)
    (hpre : ∀ x ∈ places h a pre, (H' x).fwd = (H x).fwd)
    (hpost : ∀ x ∈ places h (a + span h pre + span h mid) post, (H' x).fwd = (H x).fwd)
    (hmid : Links h H' (link (a + span h pre + span h mid) fin post) (a + span h pre) mid') :
    Links h H' fin a (pre ++ (mid' ++ post)) := by
  obtain ⟨b, mid, rfl⟩ := List.exists_cons_of_ne_nil hne
  obtain ⟨b', mid', rfl⟩ := List.exists_cons_of_ne_nil hne'
  obtain ⟨hp, hrest⟩ := links_append.mp hl
  obtain ⟨-, hq⟩ := links_append.mp hrest
  refine links_append.mpr ⟨hp.congr hpre, links_append.mpr ⟨?_, ?_⟩⟩
  · rwa [hspan]
  · rw [hspan]
    exact hq.congr hpost

end Links

/-! ### Payloads -/

section Payloads

variable {h}

theorem payloads_append (a : ℕ) (xs ys : List (Block τ)) :
    payloads h a (xs ++ ys) = payloads h a xs ++ payloads h (a + span h xs) ys := by
  induction xs generalizing a with
  | nil => rfl
  | cons b xs ih =>
      have hspan : a + h + b.len + span h xs = a + span h (b :: xs) := by
        rw [span_cons]
        omega
      rw [List.cons_append, payloads, payloads, ih, hspan, List.append_assoc]

/-- A payload belongs to one of the blocks. -/
theorem mem_payloads_iff {a : ℕ} {bs : List (Block τ)} {x : Payload τ} :
    x ∈ payloads h a bs ↔ ∃ pre b post, bs = pre ++ b :: post ∧ b.tag = some x.tag ∧
      x.addr = a + span h pre + h ∧ x.len = b.len := by
  induction bs generalizing a with
  | nil => simp [payloads]
  | cons c bs ih =>
      rw [payloads, List.mem_append, List.mem_map, ih]
      constructor
      · rintro (⟨t, ht, rfl⟩ | ⟨pre, b, post, rfl, htag, haddr, hlen⟩)
        · exact ⟨[], c, bs, rfl, Option.mem_toList.mp ht, rfl, rfl⟩
        · exact ⟨c :: pre, b, post, rfl, htag, by rw [haddr, span_cons]; omega, hlen⟩
      · rintro ⟨pre, b, post, heq, htag, haddr, hlen⟩
        cases pre with
        | nil =>
            obtain ⟨rfl, rfl⟩ := List.cons.inj heq
            refine .inl ⟨x.tag, Option.mem_toList.mpr htag, ?_⟩
            obtain ⟨addr, len, tag⟩ := x
            simp only [span_nil, Nat.add_zero] at haddr hlen
            rw [haddr, hlen]
        | cons c' pre =>
            obtain ⟨rfl, rfl⟩ := List.cons.inj heq
            exact .inr ⟨pre, b, post, rfl, htag, by rw [haddr, span_cons]; omega, hlen⟩

/-- A payload lies inside the row. -/
theorem payload_bounds {a : ℕ} {bs : List (Block τ)} {x : Payload τ}
    (hx : x ∈ payloads h a bs) : a + h ≤ x.addr ∧ x.addr + x.len ≤ a + span h bs := by
  obtain ⟨pre, b, post, rfl, -, haddr, hlen⟩ := mem_payloads_iff.mp hx
  rw [span_append, span_cons]
  omega

/-- Payloads at different addresses do not overlap. -/
theorem payloads_disjoint {a : ℕ} {bs : List (Block τ)} {x y : Payload τ}
    (hx : x ∈ payloads h a bs) (hy : y ∈ payloads h a bs) (hne : x.addr ≠ y.addr) :
    x.addr + x.len ≤ y.addr ∨ y.addr + y.len ≤ x.addr := by
  induction bs generalizing a with
  | nil => simp [payloads] at hx
  | cons b bs ih =>
      rw [payloads, List.mem_append] at hx hy
      rcases hx with hx | hx <;> obtain hy | hy := hy
      · obtain ⟨t, -, rfl⟩ := List.mem_map.mp hx
        obtain ⟨t', -, rfl⟩ := List.mem_map.mp hy
        exact absurd rfl hne
      · obtain ⟨t, -, rfl⟩ := List.mem_map.mp hx
        have hbounds := payload_bounds hy
        simp only
        omega
      · obtain ⟨t, -, rfl⟩ := List.mem_map.mp hy
        have hbounds := payload_bounds hx
        simp only
        omega
      · exact ih hx hy

/-- The payloads up to a last block. -/
theorem mem_payloads_concat {a : ℕ} {bs : List (Block τ)} {b : Block τ} {x : Payload τ} :
    x ∈ payloads h a (bs ++ [b]) ↔ x ∈ payloads h a bs ∨
      (b.tag = some x.tag ∧ x.addr = a + span h bs + h ∧ x.len = b.len) := by
  rw [payloads_append, List.mem_append, payloads, payloads, List.append_nil, List.mem_map]
  refine or_congr_right ?_
  constructor
  · rintro ⟨t, ht, rfl⟩
    exact ⟨Option.mem_toList.mp ht, rfl, rfl⟩
  · rintro ⟨htag, haddr, hlen⟩
    refine ⟨x.tag, Option.mem_toList.mpr htag, ?_⟩
    rw [← haddr, ← hlen]

/-- The payloads before and behind a block have other addresses than its own. -/
theorem payload_ne (hpos : 0 < h) {a n : ℕ} {pre post : List (Block τ)} :
    ∀ y ∈ payloads h a pre ++ payloads h (a + span h pre + h + n) post,
      y.addr ≠ a + span h pre + h := by
  intro y hy
  rcases List.mem_append.mp hy with hy | hy
  · have hbounds := payload_bounds hy
    omega
  · have hbounds := payload_bounds hy
    omega

/-- The payload of a free block is not in use. -/
theorem payloads_free (a : ℕ) (b : Block τ) (bs : List (Block τ)) (hfree : b.tag = none) :
    payloads h a (b :: bs) = payloads h (a + h + b.len) bs := by
  rw [payloads, hfree]
  rfl

end Payloads

/-! ### Owners -/

section Owned

variable {live : ℕ → Option τ} {ps qs : List (Payload τ)} {x len : ℕ} {t : τ}

/-- The payloads in use are those of the live addresses, with their tags. -/
def Owned (live : ℕ → Option τ) (ps : List (Payload τ)) : Prop :=
  ∀ x t, live x = some t ↔ ∃ len, ⟨x, len, t⟩ ∈ ps

/-- A new payload at an address that no other one has. -/
theorem Owned.alloc (ho : Owned live (ps ++ qs)) (hnew : ∀ y ∈ ps ++ qs, y.addr ≠ x) :
    Owned (Function.update live x (some t)) (ps ++ ⟨x, len, t⟩ :: qs) := by
  intro y u
  by_cases hy : y = x
  · subst hy
    rw [Function.update_self, Option.some_inj]
    constructor
    · rintro rfl
      exact ⟨len, by simp⟩
    · rintro ⟨n, hn⟩
      obtain hin | heq | hin := by simpa using hn
      · exact absurd rfl (hnew _ (List.mem_append_left _ hin))
      · exact heq.2.symm
      · exact absurd rfl (hnew _ (List.mem_append_right _ hin))
  · rw [Function.update_of_ne hy, ho]
    simp [hy]

/-- A payload is given back. -/
theorem Owned.release (ho : Owned live (ps ++ ⟨x, len, t⟩ :: qs))
    (hother : ∀ y ∈ ps ++ qs, y.addr ≠ x) :
    Owned (Function.update live x none) (ps ++ qs) := by
  intro y u
  by_cases hy : y = x
  · subst hy
    rw [Function.update_self]
    simp only [reduceCtorEq, false_iff, not_exists]
    exact fun n hn => hother _ hn rfl
  · rw [Function.update_of_ne hy, ho]
    simp [hy]

/-- Owners do not see how long a payload is. -/
theorem Owned.setLen {h a n : ℕ} {bs : List (Block τ)} {b : Block τ}
    (ho : Owned live (payloads h a (bs ++ [b]) ++ qs)) :
    Owned live (payloads h a (bs ++ [{ b with len := n }]) ++ qs) := by
  intro x t
  rw [ho x t]
  simp only [List.mem_append, mem_payloads_concat]
  constructor
  · rintro ⟨len, (hmem | ⟨htag, haddr, -⟩) | hmem⟩
    · exact ⟨len, .inl (.inl hmem)⟩
    · exact ⟨n, .inl (.inr ⟨htag, haddr, rfl⟩)⟩
    · exact ⟨len, .inr hmem⟩
  · rintro ⟨len, (hmem | ⟨htag, haddr, -⟩) | hmem⟩
    · exact ⟨len, .inl (.inl hmem)⟩
    · exact ⟨b.len, .inl (.inr ⟨htag, haddr, rfl⟩)⟩
    · exact ⟨len, .inr hmem⟩

end Owned

/-! ### Free neighbours -/

section Coalesced

/-- Around a block: the rows on both sides, and the block with its neighbours. -/
theorem coalesced_append {xs ys : List (Block τ)} :
    Coalesced (xs ++ ys) ↔ Coalesced xs ∧ Coalesced ys ∧
      ∀ b ∈ xs.getLast?, ∀ c ∈ ys.head?, b.tag.isSome ∨ c.tag.isSome := by
  induction xs with
  | nil => simp [Coalesced]
  | cons b xs ih =>
      cases xs with
      | nil =>
          cases ys with
          | nil => simp [Coalesced]
          | cons c ys => simp [Coalesced, and_comm]
      | cons b' xs =>
          simp only [List.cons_append] at ih ⊢
          rw [Coalesced, ih, Coalesced, List.getLast?_cons_cons]
          tauto

/-- Behind a free block any block may stand in its place. -/
theorem Coalesced.replace_head {b : Block τ} {bs : List (Block τ)}
    (hc : Coalesced (b :: bs)) (hfree : b.tag = none) (b' : Block τ) :
    Coalesced (b' :: bs) := by
  cases bs with
  | nil => trivial
  | cons c bs =>
      refine ⟨.inr ?_, hc.2⟩
      rcases hc.1 with h | h
      · rw [hfree] at h
        cases h
      · exact h

/-- Before a block in use any block may stand. -/
theorem Coalesced.cons_used {b : Block τ} {bs : List (Block τ)} (hc : Coalesced (b :: bs))
    (hused : b.tag.isSome) (b' : Block τ) : Coalesced (b' :: b :: bs) :=
  ⟨.inr hused, hc⟩

/-- After a block in use any row may follow. -/
theorem Coalesced.append_used {xs ys : List (Block τ)} {b : Block τ}
    (hxs : Coalesced (xs ++ [b])) (hused : b.tag.isSome) (hys : Coalesced ys) :
    Coalesced (xs ++ b :: ys) := by
  rw [List.append_cons]
  refine coalesced_append.mpr ⟨hxs, hys, fun c hc d _ => .inl ?_⟩
  simp only [List.getLast?_concat, Option.mem_some] at hc
  rwa [← hc]

/-- A block in use may stand anywhere. -/
theorem Coalesced.replace_used {xs ys : List (Block τ)} {b b' : Block τ}
    (hc : Coalesced (xs ++ b :: ys)) (hused : b'.tag.isSome) :
    Coalesced (xs ++ b' :: ys) := by
  obtain ⟨hx, hy, -⟩ := coalesced_append.mp hc
  refine coalesced_append.mpr ⟨hx, ?_, fun c _ d hd => .inr ?_⟩
  · cases ys with
    | nil => trivial
    | cons c ys => exact ⟨.inl hused, hy.2⟩
  · simp only [List.head?_cons, Option.mem_some] at hd
    rwa [← hd]

/-- A free last block may be replaced together with what follows it. -/
theorem Coalesced.replace_last {xs ys : List (Block τ)} {b b' : Block τ}
    (hxs : Coalesced (xs ++ [b])) (hfree : b.tag = none) (hys : Coalesced (b' :: ys)) :
    Coalesced (xs ++ b' :: ys) := by
  obtain ⟨hx, -, hseam⟩ := coalesced_append.mp hxs
  refine coalesced_append.mpr ⟨hx, hys, fun c hc d _ => .inl ?_⟩
  rcases hseam c hc b (by simp) with h | h
  · exact h
  · rw [hfree] at h
    cases h

theorem Coalesced.of_append_left {xs ys : List (Block τ)} (hc : Coalesced (xs ++ ys)) :
    Coalesced xs := (coalesced_append.mp hc).1

theorem Coalesced.of_append_right {xs ys : List (Block τ)} (hc : Coalesced (xs ++ ys)) :
    Coalesced ys := (coalesced_append.mp hc).2.1

theorem Coalesced.tail {b : Block τ} {bs : List (Block τ)} (hc : Coalesced (b :: bs)) :
    Coalesced bs := by
  cases bs with
  | nil => trivial
  | cons c bs => exact hc.2

/-- A coalesced heap with no block in use is one free block. -/
theorem Coalesced.eq_single {bs : List (Block τ)} (hc : Coalesced bs)
    (hfree : ∀ b ∈ bs, b.tag = none) (hne : bs ≠ []) : ∃ n, bs = [⟨n, none⟩] := by
  cases bs with
  | nil => exact absurd rfl hne
  | cons b bs =>
      have hb := hfree b (by simp)
      cases bs with
      | nil => exact ⟨b.len, by rw [← hb]⟩
      | cons c bs =>
          have hcfree := hfree c (by simp)
          rcases hc.1 with h | h
          · rw [hb] at h
            cases h
          · rw [hcfree] at h
            cases h

end Coalesced

/-! ### Headers below an address -/

section HeadersBelow

variable {h} {top a : ℕ} {bs xs ys : List (Block τ)}

@[simp] theorem headersBelow_nil : HeadersBelow h top a ([] : List (Block τ)) := trivial

@[simp] theorem headersBelow_cons {b : Block τ} :
    HeadersBelow h top a (b :: bs) ↔ a + h ≤ top ∧ HeadersBelow h top (a + h + b.len) bs :=
  Iff.rfl

theorem headersBelow_append :
    HeadersBelow h top a (xs ++ ys) ↔
      HeadersBelow h top a xs ∧ HeadersBelow h top (a + span h xs) ys := by
  induction xs generalizing a with
  | nil => simp
  | cons b xs ih =>
      have hspan : a + h + b.len + span h xs = a + span h (b :: xs) := by
        rw [span_cons]
        omega
      rw [List.cons_append, headersBelow_cons, headersBelow_cons, ih, hspan, and_assoc]

/-- The headers of a row lie in its bytes. -/
theorem headersBelow_span (hspan : a + span h bs ≤ top) : HeadersBelow h top a bs := by
  induction bs generalizing a with
  | nil => trivial
  | cons b bs ih =>
      rw [span_cons] at hspan
      exact ⟨by omega, ih (by omega)⟩

/-- When the first header and every payload in use with room for one header more lie below
`top`, so do all headers of a coalesced row: a header stands behind a payload in use, or
before one. -/
theorem Coalesced.headersBelow (hco : Coalesced bs) (ha : a + h ≤ top)
    (hpay : ∀ x ∈ payloads h a bs, x.addr + x.len + h ≤ top) : HeadersBelow h top a bs := by
  induction bs generalizing a with
  | nil => trivial
  | cons b bs ih =>
      have hrest : ∀ x ∈ payloads h (a + h + b.len) bs, x.addr + x.len + h ≤ top :=
        fun x hx => hpay x (List.mem_append_right _ hx)
      refine ⟨ha, ?_⟩
      cases bs with
      | nil => trivial
      | cons c bs =>
          refine ih hco.tail ?_ hrest
          rcases hco.1 with hused | hused
          · obtain ⟨t, ht⟩ := Option.isSome_iff_exists.mp hused
            exact hpay ⟨a + h, b.len, t⟩ (mem_payloads_iff.mpr ⟨[], b, c :: bs, rfl, ht, rfl, rfl⟩)
          · obtain ⟨t, ht⟩ := Option.isSome_iff_exists.mp hused
            have hc := hrest ⟨a + h + b.len + h, c.len, t⟩
              (mem_payloads_iff.mpr ⟨[], c, bs, rfl, ht, rfl, rfl⟩)
            dsimp only at hc
            omega

end HeadersBelow

end BlockChain
