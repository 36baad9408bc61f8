import B2OS.Lib.BlockHeader

/-!
# Arenas Tiled by Blocks

An `Arena` is a range of addresses that a list of blocks tiles: `Tiling` says that the
headers in memory form the chain of the blocks, and that the chain spans the arena.
`Forward` asks the same of the links to the successors only. A `Walk` visits the blocks from
the first address on, along these links.

## Main results

* `Tiling.setTag`, `Tiling.absorb`, `Tiling.splitLast`, `Tiling.padLast`: the edits of
  headers that keep an arena tiled.
* `Forward.setTag`, `Forward.absorb`, `Forward.split`, `Forward.pad`: the same edits, in the
  middle of an arena whose links back may be stale.
* `Forward.walk_iff`, `Tiling.walk_iff`: a walk visits exactly the blocks of the tiling.
* `Tiling.linked`, `Tiling.last`: what a walk sees of the links.
-/

universe u

namespace BlockChain

open ByteMemory

/-- A range of addresses, below the end of the address space and not at its start. -/
structure Arena where
  lo : ℕ
  size : ℕ
  lo_pos : 0 < lo
  hi_le : lo + size ≤ 2 ^ 32

variable {τ : Type u}

/-- The blocks `bs` tile the arena. -/
structure Tiling (F : HeaderFormat) (A : Arena) (m : Memory) (bs : List (Block τ)) : Prop where
  chain : Chain recordSize (F.at m) 0 0 A.lo bs
  span : BlockChain.span recordSize bs = A.size

section Tiling

variable {F : HeaderFormat} {A : Arena} {m m' : Memory} {p : Addr}
variable {pre post bs : List (Block τ)} {b c : Block τ}

/-- The header that a memory shows at the place of a block. -/
theorem Tiling.header (ht : Tiling F A m (pre ++ b :: post))
    (hp : p.toNat = A.lo + BlockChain.span recordSize pre) :
    F.hdr (record m p) = ⟨lastAddr recordSize 0 A.lo pre,
      link (p.toNat + recordSize + b.len) 0 post, b.len, b.tag.isSome⟩ := by
  obtain ⟨-, hb, -⟩ := chain_focus.mp ht.chain
  rw [← hp, F.at_toNat] at hb
  exact hb

/-- A block lies in the arena. -/
theorem Tiling.bounds (ht : Tiling F A m (pre ++ b :: post))
    (hp : p.toNat = A.lo + BlockChain.span recordSize pre) :
    p.toNat + recordSize + b.len + BlockChain.span recordSize post = A.lo + A.size ∧
      Fits p := by
  have hspan := ht.span
  have htop := A.hi_le
  rw [span_append, span_cons] at hspan
  rw [Fits]
  omega

theorem Tiling.top_le (ht : Tiling F A m bs) :
    A.lo + BlockChain.span recordSize bs ≤ 2 ^ 32 := by
  rw [ht.span]
  exact A.hi_le

/-- Storing the flag of a block gives it another tag. -/
theorem Tiling.setTag (ht : Tiling F A m (pre ++ b :: post))
    (hp : p.toNat = A.lo + BlockChain.span recordSize pre) (t : Option τ)
    (hedit : Edit F m m' p fun x => { x with used := t.isSome }) :
    Tiling F A m' (pre ++ { b with tag := t } :: post) where
  chain := ht.chain.edit_used t ht.top_le hp hedit
  span := by
    have hspan := ht.span
    rwa [span_append, span_cons] at hspan ⊢

/-- A block swallows its successor. -/
theorem Tiling.absorb {q n : Addr} {f g : Hdr → Hdr}
    (ht : Tiling F A m (pre ++ b :: c :: post))
    (hp : p.toNat = A.lo + BlockChain.span recordSize pre)
    (hq : q.toNat = p.toNat + recordSize + b.len)
    (hn : n.toNat = (F.hdr (record m q)).next)
    (hlast : n = 0 → Edit F m m' p f)
    (hmid : n ≠ 0 → Fits n → Apart p.toNat n.toNat → Edit2 F m m' p n f g)
    (hf : ∀ x, f x = { x with len := b.len + (recordSize + c.len), next := n.toNat })
    (hg : ∀ x, g x = { x with prev := p.toNat }) :
    Tiling F A m' (pre ++ { b with len := b.len + (recordSize + c.len) } :: post) where
  chain := by
    rw [← F.at_toNat] at hn
    exact ht.chain.edit_absorb ht.top_le A.lo_pos hp hq hn hlast hmid hf hg
  span := by
    have hspan := ht.span
    simp only [span_append, span_cons] at hspan ⊢
    omega

/-- The last block is split: `n` bytes stay with it, the rest becomes a free block. -/
theorem Tiling.splitLast {q : Addr} {n r : ℕ} {f g : Hdr → Hdr} (t : Option τ)
    (ht : Tiling F A m (pre ++ [b]))
    (hp : p.toNat = A.lo + BlockChain.span recordSize pre)
    (hq : q.toNat = p.toNat + recordSize + n) (hr : n + recordSize + r = b.len)
    (hedit : Edit2 F m m' p q f g)
    (hf : ∀ x, f x = ⟨x.prev, q.toNat, n, t.isSome⟩)
    (hg : ∀ x, g x = ⟨p.toNat, 0, r, false⟩) :
    Tiling F A m' (pre ++ [⟨n, t⟩, ⟨r, none⟩]) where
  chain := by
    refine ht.chain.edit_split t hp hq hedit hf fun x => ?_
    rw [hg, F.at_toNat, ht.header hp]
    rfl
  span := by
    have hspan := ht.span
    simp only [span_append, span_cons, span_nil] at hspan ⊢
    omega

/-- The header of the last block moves up by `pad`, and the block before it gets the bytes
below. -/
theorem Tiling.padLast {q : Addr} {pad : ℕ} (ht : Tiling F A m (pre ++ [b, c]))
    (hp : p.toNat = A.lo + BlockChain.span recordSize pre)
    (hq : q.toNat = p.toNat + recordSize + b.len) (hpad : pad ≤ c.len)
    (hself : F.at m' p.toNat =
      { F.at m p.toNat with len := b.len + pad, next := q.toNat + pad })
    (hmoved : F.at m' (q.toNat + pad) = { F.at m q.toNat with len := c.len - pad })
    (hother : ∀ x, x + recordSize ≤ p.toNat → F.at m' x = F.at m x) :
    Tiling F A m'
      (pre ++ [{ b with len := b.len + pad }, { c with len := c.len - pad }]) where
  chain := by
    refine ht.chain.padLast ?_ ?_ (fun x hx => hother x (by omega))
    · rw [← hp, hself, hq, Nat.add_assoc _ b.len]
    · rw [← hp, ← hq, ← Nat.add_assoc _ b.len, ← hq, hmoved]
  span := by
    have hspan := ht.span
    simp only [span_append, span_cons, span_nil] at hspan ⊢
    omega

/-- Stores into a payload in use keep the tiling. -/
theorem Tiling.changedOnly {x : Payload τ} (ht : Tiling F A m bs)
    (hx : x ∈ payloads recordSize A.lo bs)
    (hch : ChangedOnly m m' x.addr (x.addr + x.len)) : Tiling F A m' bs where
  chain := ht.chain.changedOnly ht.top_le hx hch
  span := ht.span

end Tiling

/-! ### Arenas with stale links back -/

/-- The blocks `bs` fill the arena, as the links to the successors show them; the links back
may be stale. -/
structure Forward (F : HeaderFormat) (A : Arena) (m : Memory) (bs : List (Block τ)) :
    Prop where
  links : Links recordSize (F.at m) 0 A.lo bs
  span : BlockChain.span recordSize bs = A.size

theorem Tiling.forward {F : HeaderFormat} {A : Arena} {m : Memory} {bs : List (Block τ)}
    (ht : Tiling F A m bs) : Forward F A m bs := ⟨ht.chain.links, ht.span⟩

section Forward

variable {F : HeaderFormat} {A : Arena} {m m' : Memory} {p q n : Addr}
variable {pre post bs : List (Block τ)} {b c : Block τ}

/-- What the header at the place of a block shows, but for its link back. -/
theorem Forward.header (hf : Forward F A m (pre ++ b :: post))
    (hp : p.toNat = A.lo + BlockChain.span recordSize pre) :
    (F.hdr (record m p)).fwd =
      ⟨0, link (p.toNat + recordSize + b.len) 0 post, b.len, b.tag.isSome⟩ := by
  obtain ⟨-, hb, -⟩ := links_focus.mp hf.links
  rw [← hp, F.at_toNat] at hb
  exact hb

theorem Forward.bounds (hf : Forward F A m (pre ++ b :: post))
    (hp : p.toNat = A.lo + BlockChain.span recordSize pre) :
    p.toNat + recordSize + b.len + BlockChain.span recordSize post = A.lo + A.size ∧
      Fits p := by
  have hspan := hf.span
  have htop := A.hi_le
  rw [span_append, span_cons] at hspan
  rw [Fits]
  omega

/-- A place of the row holds a header, and is not `0`. -/
theorem Forward.place_fits (hf : Forward F A m bs)
    (hp : p.toNat ∈ places recordSize A.lo bs) : Fits p ∧ p ≠ 0 := by
  have hbounds := place_bounds hp
  have htop := A.hi_le
  have hpos := A.lo_pos
  rw [hf.span] at hbounds
  exact ⟨hbounds.2.trans htop, ne_zero_of_pos (by omega)⟩

/-- A link that is not `0` leads to the address behind the block, where a header fits. -/
theorem Forward.of_link (hf : Forward F A m (pre ++ b :: post))
    (hp : p.toNat = A.lo + BlockChain.span recordSize pre)
    (hn : n.toNat = link (p.toNat + recordSize + b.len) 0 post) (hne : n ≠ 0) :
    n.toNat = p.toNat + recordSize + b.len ∧ Fits n := by
  obtain ⟨htop, -⟩ := hf.bounds hp
  have hhi := A.hi_le
  cases post with
  | nil => exact absurd (BitVec.eq_of_toNat_eq hn) hne
  | cons c post =>
      rw [link_cons] at hn
      rw [span_cons] at htop
      rw [Fits]
      omega

/-- Stores into a payload keep the row. -/
theorem Forward.changedOnly {lo hi : ℕ} (hf : Forward F A m (pre ++ b :: post))
    (hp : p.toNat = A.lo + BlockChain.span recordSize pre)
    (hch : ChangedOnly m m' lo hi) (hlo : p.toNat + recordSize ≤ lo)
    (hhi : hi ≤ p.toNat + recordSize + b.len) : Forward F A m' (pre ++ b :: post) where
  links := by
    obtain ⟨htop, -⟩ := hf.bounds hp
    have htop' := A.hi_le
    refine hf.links.congr fun x hx => congrArg Hdr.fwd ?_
    rw [places_append, places_cons, List.mem_append, List.mem_cons, ← hp] at hx
    rcases hx with hx | rfl | hx
    · have hbounds := place_bounds hx
      exact HeaderFormat.at_changedOnly hch (by omega) (.inl (by omega))
    · exact HeaderFormat.at_changedOnly hch (by omega) (.inl hlo)
    · have hbounds := place_bounds hx
      exact HeaderFormat.at_changedOnly hch (by omega) (.inr (by omega))
  span := hf.span

/-- Storing a link back keeps the row. -/
theorem Forward.setBack {f : Hdr → Hdr} (hf : Forward F A m bs)
    (hp : p.toNat ∈ places recordSize A.lo bs) (hedit : Edit F m m' p f)
    (hfx : ∀ x, (f x).fwd = x.fwd) : Forward F A m' bs where
  links := by
    have htop := A.hi_le
    refine hf.links.congr fun x hx => ?_
    have hbounds := place_bounds hx
    rw [hf.span] at hbounds
    rcases places_apart hx hp with rfl | hapart
    · rw [hedit.self, hfx]
    · rw [hedit.other x (by omega) hapart]
  span := hf.span

/-- Storing the flag of a block gives it another tag. -/
theorem Forward.setTag (hf : Forward F A m (pre ++ b :: post))
    (hp : p.toNat = A.lo + BlockChain.span recordSize pre) (t : Option τ)
    (hedit : Edit F m m' p fun x => { x with used := t.isSome }) :
    Forward F A m' (pre ++ { b with tag := t } :: post) := by
  obtain ⟨htop, -⟩ := hf.bounds hp
  have htop' := A.hi_le
  constructor
  case links =>
    refine Links.replace [b] [{ b with tag := t }] hf.links
      (List.cons_ne_nil _ _) (List.cons_ne_nil _ _) rfl (fun x hx => congrArg Hdr.fwd ?_)
      (fun x hx => congrArg Hdr.fwd ?_) ⟨?_, trivial⟩
    · have hbounds := place_bounds hx
      exact hedit.other x (by omega) (.inl (by omega))
    · rw [span_cons, span_nil] at hx
      have hbounds := place_bounds hx
      exact hedit.other x (by omega) (.inr (by omega))
    · have hb := congrArg (fun y : Hdr => { y with used := t.isSome }) (hf.header hp)
      rw [← hp, hedit.self, F.at_toNat, span_cons, span_nil, link_nil, Nat.add_zero,
        ← Nat.add_assoc]
      exact hb
  case span =>
    have hspan := hf.span
    rwa [span_append, span_cons] at hspan ⊢

/-- A block swallows its successor. -/
theorem Forward.absorb {f g : Hdr → Hdr} (hf : Forward F A m (pre ++ b :: c :: post))
    (hp : p.toNat = A.lo + BlockChain.span recordSize pre)
    (hq : q.toNat = p.toNat + recordSize + b.len)
    (hn : n.toNat = (F.hdr (record m q)).next)
    (hlast : n = 0 → Edit F m m' p f)
    (hmid : n ≠ 0 → Fits n → Apart p.toNat n.toNat → Edit2 F m m' p n f g)
    (hfx : ∀ x, f x = { x with len := b.len + (recordSize + c.len), next := n.toNat })
    (hgx : ∀ x, g x = { x with prev := p.toNat }) :
    Forward F A m' (pre ++ { b with len := b.len + (recordSize + c.len) } :: post) := by
  obtain ⟨htop, -⟩ := hf.bounds hp
  have htop' := A.hi_le
  have hb := hf.header hp
  have hfc : Forward F A m ((pre ++ [b]) ++ c :: post) := by simpa using hf
  have hc := hfc.header (p := q) (by rw [hq, hp, span_append, span_cons, span_nil]; omega)
  have hlink : n.toNat = link (q.toNat + recordSize + c.len) 0 post :=
    hn.trans (congrArg Hdr.next hc)
  have hself : ∀ x, x.fwd = (F.hdr (record m p)).fwd → (f x).fwd =
      ⟨0, n.toNat, b.len + (recordSize + c.len), b.tag.isSome⟩ := by
    intro x hx
    rw [hb] at hx
    have hused : x.used = b.tag.isSome := congrArg Hdr.used hx
    rw [hfx, Hdr.fwd, hused]
  rw [span_cons] at htop
  constructor
  case links =>
    have hmidspan : A.lo + BlockChain.span recordSize pre +
        BlockChain.span recordSize [b, c] = q.toNat + recordSize + c.len := by
      rw [span_cons, span_cons, span_nil]
      omega
    refine Links.replace [b, c] [{ b with len := b.len + (recordSize + c.len) }] hf.links
      (List.cons_ne_nil _ _) (List.cons_ne_nil _ _) ?_ (fun x hx => congrArg Hdr.fwd ?_)
      (fun x hx => ?_) ⟨?_, trivial⟩
    · simp only [span_cons, span_nil]
      omega
    · have hbounds := place_bounds hx
      by_cases hzero : n = 0
      · exact (hlast hzero).other x (by omega) (.inl (by omega))
      · obtain ⟨hnat, hnfits⟩ := hfc.of_link
          (by rw [hq, hp, span_append, span_cons, span_nil]; omega) hlink hzero
        exact (hmid hzero hnfits (.inl (by omega))).other x (by omega) (.inl (by omega))
          (.inl (by omega))
    · rw [hmidspan] at hx
      cases post with
      | nil => cases hx
      | cons d post =>
          have hnat : n.toNat = q.toNat + recordSize + c.len := hlink
          rw [span_cons] at htop
          have hedit := hmid (ne_zero_of_pos (by rw [recordSize] at hnat; omega))
            (by rw [Fits]; omega) (.inl (by omega))
          rw [places_cons, ← hnat, List.mem_cons] at hx
          rcases hx with rfl | hx
          · rw [hedit.snd, hgx]
            rfl
          · have hbounds := place_bounds hx
            rw [hedit.other x (by omega) (.inr (by omega)) (.inr (by omega))]
    · rw [hmidspan, link_nil, ← hp, ← hlink]
      by_cases hzero : n = 0
      · rw [(hlast hzero).self, hself _ (by rw [F.at_toNat])]
      · obtain ⟨hnat, hnfits⟩ := hfc.of_link
          (by rw [hq, hp, span_append, span_cons, span_nil]; omega) hlink hzero
        rw [(hmid hzero hnfits (.inl (by omega))).fst, hself _ (by rw [F.at_toNat])]
  case span =>
    have hspan := hf.span
    simp only [span_append, span_cons] at hspan ⊢
    omega

/-- A block is split: `k` bytes stay with it, the rest becomes a free block. -/
theorem Forward.split {k r : ℕ} {f g : Hdr → Hdr} (t : Option τ)
    (hf : Forward F A m (pre ++ b :: post))
    (hp : p.toNat = A.lo + BlockChain.span recordSize pre)
    (hq : q.toNat = p.toNat + recordSize + k) (hr : k + recordSize + r = b.len)
    (hedit : Edit2 F m m' p q f g)
    (hfx : ∀ x, f x = ⟨x.prev, q.toNat, k, t.isSome⟩)
    (hgx : ∀ x, (g x).fwd = ⟨0, (F.hdr (record m p)).next, r, false⟩) :
    Forward F A m' (pre ++ ⟨k, t⟩ :: ⟨r, none⟩ :: post) := by
  obtain ⟨htop, -⟩ := hf.bounds hp
  have htop' := A.hi_le
  constructor
  case links =>
    refine Links.replace [b] [⟨k, t⟩, ⟨r, none⟩] hf.links
      (List.cons_ne_nil _ _) (List.cons_ne_nil _ _) ?_ (fun x hx => congrArg Hdr.fwd ?_)
      (fun x hx => congrArg Hdr.fwd ?_) ⟨?_, ?_, trivial⟩
    · simp only [span_cons, span_nil]
      omega
    · have hbounds := place_bounds hx
      exact hedit.other x (by omega) (.inl (by omega)) (.inl (by omega))
    · rw [span_cons, span_nil] at hx
      have hbounds := place_bounds hx
      exact hedit.other x (by omega) (.inr (by omega)) (.inr (by omega))
    · rw [← hp, hedit.fst, hfx, link_cons, ← hq]
      rfl
    · have hnext : (F.hdr (record m p)).next = link (p.toNat + recordSize + b.len) 0 post :=
        congrArg Hdr.next (hf.header hp)
      rw [← hp, ← hq, hedit.snd, hgx, hnext, span_cons, span_nil, link_nil, Nat.add_zero,
        ← Nat.add_assoc]
      rfl
  case span =>
    have hspan := hf.span
    simp only [span_append, span_cons] at hspan ⊢
    omega

/-- The header of a block moves up by `pad`, and the block before it gets the bytes
below. -/
theorem Forward.pad {pad : ℕ} (hf : Forward F A m (pre ++ b :: c :: post))
    (hp : p.toNat = A.lo + BlockChain.span recordSize pre)
    (hq : q.toNat = p.toNat + recordSize + b.len) (hpad : pad ≤ c.len)
    (hself : (F.at m' p.toNat).fwd =
      { (F.at m p.toNat).fwd with len := b.len + pad, next := q.toNat + pad })
    (hmoved : (F.at m' (q.toNat + pad)).fwd = { (F.at m q.toNat).fwd with len := c.len - pad })
    (hpre : ∀ x ∈ places recordSize A.lo pre, (F.at m' x).fwd = (F.at m x).fwd)
    (hpost : ∀ x ∈ places recordSize (q.toNat + recordSize + c.len) post,
      (F.at m' x).fwd = (F.at m x).fwd) :
    Forward F A m'
      (pre ++ { b with len := b.len + pad } :: { c with len := c.len - pad } :: post) := by
  have hfc : Forward F A m ((pre ++ [b]) ++ c :: post) := by simpa using hf
  have hb := hf.header hp
  have hc := hfc.header (p := q) (by rw [hq, hp, span_append, span_cons, span_nil]; omega)
  have hmidspan : A.lo + BlockChain.span recordSize pre + BlockChain.span recordSize [b, c] =
      q.toNat + recordSize + c.len := by
    rw [span_cons, span_cons, span_nil]
    omega
  constructor
  case links =>
    refine Links.replace [b, c]
      [{ b with len := b.len + pad }, { c with len := c.len - pad }] hf.links
      (List.cons_ne_nil _ _) (List.cons_ne_nil _ _) ?_ hpre (fun x hx => ?_)
      ⟨?_, ?_, trivial⟩
    · simp only [span_cons, span_nil]
      omega
    · rw [hmidspan] at hx
      exact hpost x hx
    · rw [← hp, hself, F.at_toNat, hb, hq, link_cons, Nat.add_assoc _ b.len]
      rfl
    · have hqpad : p.toNat + recordSize + (b.len + pad) = q.toNat + pad := by omega
      rw [← hp, hqpad, hmoved, F.at_toNat, hc, link_nil, hp, hmidspan]
  case span =>
    have hspan := hf.span
    simp only [span_append, span_cons] at hspan ⊢
    omega

end Forward

/-! ### Stores into headers -/

/-- The memories differ in the headers of the row at `lo` only. -/
def HeadersOnly (lo : ℕ) (bs : List (Block τ)) (m m' : Memory) : Prop :=
  ∀ x : Addr, (∀ y ∈ places recordSize lo bs, x.toNat < y ∨ y + recordSize ≤ x.toNat) →
    m' x = m x

section HeadersOnly

variable {lo : ℕ} {m m' m'' : Memory} {p : Addr} {bs bs' : List (Block τ)}

theorem HeadersOnly.refl (lo : ℕ) (bs : List (Block τ)) (m : Memory) :
    HeadersOnly lo bs m m := fun _ _ => rfl

theorem HeadersOnly.trans (h : HeadersOnly lo bs m m') (h' : HeadersOnly lo bs' m' m'')
    (hsub : ∀ y ∈ places recordSize lo bs', y ∈ places recordSize lo bs) :
    HeadersOnly lo bs m m'' :=
  fun x hx => (h' x fun y hy => hx y (hsub y hy)).trans (h x hx)

/-- One more store into a header. -/
theorem HeadersOnly.store (h : HeadersOnly lo bs m m')
    (hp : p.toNat ∈ places recordSize lo bs)
    (hch : ChangedOnly m' m'' p.toNat (p.toNat + recordSize)) : HeadersOnly lo bs m m'' :=
  fun x hx => (hch x (hx _ hp)).trans (h x hx)

/-- The bytes of a payload are not in a header. -/
theorem HeadersOnly.payload_eq (h : HeadersOnly lo bs m m') {x : Payload τ}
    (hx : x ∈ payloads recordSize lo bs) {y : Addr} (hlo : x.addr ≤ y.toNat)
    (hhi : y.toNat < x.addr + x.len) : m' y = m y := by
  obtain ⟨pre, b, post, rfl, -, haddr, hlen⟩ := mem_payloads_iff.mp hx
  refine h y fun z hz => ?_
  rw [places_append, places_cons, List.mem_append, List.mem_cons] at hz
  rcases hz with hz | rfl | hz
  · have hbounds := place_bounds hz
    omega
  · exact .inr (by omega)
  · have hbounds := place_bounds hz
    omega

end HeadersOnly

/-! ### Headers below an address -/

theorem Tiling.headersBelow {F : HeaderFormat} {A : Arena} {m : Memory} {bs : List (Block τ)}
    (ht : Tiling F A m bs) : HeadersBelow recordSize (A.lo + A.size) A.lo bs :=
  headersBelow_span (by rw [ht.span])

section HeadersBelow

variable {pre post : List (Block τ)} {b : Block τ} {lo top : ℕ} {p n : Addr}

/-- The header of a block of a row whose headers lie below `top`. -/
theorem HeadersBelow.inside (hbelow : HeadersBelow recordSize top lo (pre ++ b :: post))
    (hp : p.toNat = lo + BlockChain.span recordSize pre) : Inside p lo top := by
  obtain ⟨-, hb, -⟩ := headersBelow_append.mp hbelow
  exact ⟨by omega, by omega⟩

/-- The header that the link of such a block leads to. -/
theorem HeadersBelow.link_inside (hbelow : HeadersBelow recordSize top lo (pre ++ b :: post))
    (hp : p.toNat = lo + BlockChain.span recordSize pre)
    (hn : n.toNat = link (p.toNat + recordSize + b.len) 0 post) (hne : n ≠ 0) :
    Inside n lo top := by
  obtain ⟨-, -, hpost⟩ := headersBelow_append.mp hbelow
  cases post with
  | nil => exact absurd (BitVec.eq_of_toNat_eq hn) hne
  | cons c post =>
      have hc := hpost.1
      rw [link_cons] at hn
      exact ⟨by omega, by omega⟩

end HeadersBelow

/-- Stores beside the headers keep the tiling. -/
theorem Tiling.frame {F : HeaderFormat} {A : Arena} {m m' : Memory} {bs : List (Block τ)}
    {top lo hi : ℕ} (ht : Tiling F A m bs) (hbelow : HeadersBelow recordSize top A.lo bs)
    (htop : top ≤ 2 ^ 32) (hch : ChangedOnly m m' lo hi) (hout : top ≤ lo ∨ hi ≤ A.lo) :
    Tiling F A m' bs where
  chain := ht.chain.congr_headers hbelow fun x _ _ =>
    HeaderFormat.at_changedOnly hch (by omega) (by omega)
  span := ht.span

/-- A link that is not `0` leads to the address behind the block, where a header fits. -/
theorem Tiling.of_link {F : HeaderFormat} {A : Arena} {m : Memory} {p n : Addr}
    {pre post : List (Block τ)} {b : Block τ} (ht : Tiling F A m (pre ++ b :: post))
    (hp : p.toNat = A.lo + BlockChain.span recordSize pre)
    (hn : n.toNat = link (p.toNat + recordSize + b.len) 0 post) (hne : n ≠ 0) :
    n.toNat = p.toNat + recordSize + b.len ∧ Fits n := by
  obtain ⟨htop, -⟩ := ht.bounds hp
  have hhi := A.hi_le
  cases post with
  | nil => exact absurd (BitVec.eq_of_toNat_eq hn) hne
  | cons c post =>
      rw [link_cons] at hn
      rw [span_cons] at htop
      rw [Fits]
      omega

/-! ### Walks -/

/-- The addresses that a walk along the links `nxt` meets, from `head` to the link that is
`0`. -/
inductive Walk (nxt : Addr → Addr) (head : Addr) : Addr → Prop
  | head : head ≠ 0 → Walk nxt head head
  | next {p : Addr} : Walk nxt head p → nxt p ≠ 0 → Walk nxt head (nxt p)

section Walk

variable {F : HeaderFormat} {A : Arena} {m : Memory} {nxt : Addr → Addr} {head p : Addr}
variable {bs : List (Block τ)}

variable (hnxt : ∀ p, (nxt p).toNat = (F.hdr (record m p)).next)
include hnxt

/-- The link of a block leads to the block behind it. -/
theorem Forward.next_eq {pre post : List (Block τ)} {b : Block τ}
    (hf : Forward F A m (pre ++ b :: post))
    (hp : p.toNat = A.lo + BlockChain.span recordSize pre) :
    (nxt p).toNat = link (p.toNat + recordSize + b.len) 0 post := by
  rw [hnxt]
  exact congrArg Hdr.next (hf.header hp)

theorem Tiling.next_eq {pre post : List (Block τ)} {b : Block τ}
    (ht : Tiling F A m (pre ++ b :: post))
    (hp : p.toNat = A.lo + BlockChain.span recordSize pre) :
    (nxt p).toNat = link (p.toNat + recordSize + b.len) 0 post :=
  ht.forward.next_eq hnxt hp

/-- A walk meets exactly the places of the row. -/
theorem Forward.walk_iff (hf : Forward F A m bs) (hhead : head.toNat = A.lo) (hne : bs ≠ []) :
    Walk nxt head p ↔ p.toNat ∈ places recordSize A.lo bs := by
  rw [mem_places_iff]
  constructor
  · intro hw
    induction hw with
    | head _ =>
        obtain ⟨b, bs, rfl⟩ := List.exists_cons_of_ne_nil hne
        exact ⟨[], b, bs, rfl, hhead⟩
    | @next p _ hnz ih =>
        obtain ⟨pre, b, post, rfl, hp⟩ := ih
        have hlink := hf.next_eq hnxt hp
        cases post with
        | nil => exact absurd (BitVec.eq_of_toNat_eq hlink) hnz
        | cons c post =>
            refine ⟨pre ++ [b], c, post, by simp, ?_⟩
            rw [hlink, link_cons, hp, span_append, span_cons, span_nil]
            omega
  · rintro ⟨pre, b, post, heq, hp⟩
    induction pre using List.reverseRecOn generalizing b post p with
    | nil =>
        have hpos := A.lo_pos
        obtain rfl : p = head := BitVec.eq_of_toNat_eq (by rw [hp, hhead]; rfl)
        exact .head (ne_zero_of_pos (by omega))
    | append_singleton pre c ih =>
        have heq' : bs = pre ++ c :: b :: post := by simpa using heq
        subst heq'
        have htop := hf.span
        have hhi := A.hi_le
        have hsize : recordSize = 16 := rfl
        rw [span_append, span_cons] at htop
        have hq : (BitVec.ofNat 32 (A.lo + BlockChain.span recordSize pre)).toNat =
            A.lo + BlockChain.span recordSize pre := by
          rw [BitVec.toNat_ofNat, Nat.mod_eq_of_lt (by omega)]
        have hlink := hf.next_eq hnxt hq
        rw [link_cons, hq] at hlink
        rw [span_append, span_cons, span_nil] at hp
        have hstep : nxt (BitVec.ofNat 32 (A.lo + BlockChain.span recordSize pre)) = p :=
          BitVec.eq_of_toNat_eq (by rw [hlink, hp]; omega)
        have hprev := ih c (b :: post) rfl hq
        rw [← hstep]
        refine hprev.next (ne_zero_of_pos ?_)
        rw [hlink, recordSize]
        omega

/-- A walk meets exactly the blocks of the tiling. -/
theorem Tiling.walk_iff (ht : Tiling F A m bs) (hhead : head.toNat = A.lo) (hne : bs ≠ []) :
    Walk nxt head p ↔
      ∃ pre b post, bs = pre ++ b :: post ∧
        p.toNat = A.lo + BlockChain.span recordSize pre := by
  rw [ht.forward.walk_iff hnxt hhead hne, mem_places_iff]

/-- The successor of a block starts where the block ends, and links back to it. -/
theorem Tiling.linked (ht : Tiling F A m bs) (hhead : head.toNat = A.lo) (hne : bs ≠ [])
    (hw : Walk nxt head p) (hnz : nxt p ≠ 0) :
    (nxt p).toNat = p.toNat + recordSize + (F.hdr (record m p)).len ∧
      (F.hdr (record m (nxt p))).prev = p.toNat := by
  obtain ⟨pre, b, post, rfl, hp⟩ := (ht.walk_iff hnxt hhead hne).mp hw
  have hlink := ht.next_eq hnxt hp
  cases post with
  | nil => exact absurd (BitVec.eq_of_toNat_eq hlink) hnz
  | cons c post =>
      rw [link_cons] at hlink
      have ht' : Tiling F A m ((pre ++ [b]) ++ c :: post) := by simpa using ht
      have hc := ht'.header (p := nxt p) (by
        rw [hlink, hp, span_append, span_cons, span_nil]
        omega)
      rw [hc, ht.header hp, hlink, lastAddr_concat]
      exact ⟨rfl, hp.symm⟩

/-- The block without a successor ends with the arena. -/
theorem Tiling.last (ht : Tiling F A m bs) (hhead : head.toNat = A.lo) (hne : bs ≠ [])
    (hw : Walk nxt head p) (hzero : nxt p = 0) :
    p.toNat + recordSize + (F.hdr (record m p)).len = A.lo + A.size := by
  obtain ⟨pre, b, post, rfl, hp⟩ := (ht.walk_iff hnxt hhead hne).mp hw
  have hlink := ht.next_eq hnxt hp
  obtain ⟨htop, -⟩ := ht.bounds hp
  cases post with
  | nil =>
      rw [ht.header hp]
      exact htop
  | cons c post =>
      rw [hzero, link_cons, recordSize] at hlink
      have hnat : (0 : Addr).toNat = 0 := rfl
      omega

/-- Two neighbours on a coalesced list are not both free. -/
theorem Tiling.coalesced (ht : Tiling F A m bs) (hhead : head.toNat = A.lo) (hne : bs ≠ [])
    (hco : Coalesced bs) (hw : Walk nxt head p) (hnz : nxt p ≠ 0) :
    (F.hdr (record m p)).used ∨ (F.hdr (record m (nxt p))).used := by
  obtain ⟨pre, b, post, rfl, hp⟩ := (ht.walk_iff hnxt hhead hne).mp hw
  have hlink := ht.next_eq hnxt hp
  cases post with
  | nil => exact absurd (BitVec.eq_of_toNat_eq hlink) hnz
  | cons c post =>
      rw [link_cons] at hlink
      have ht' : Tiling F A m ((pre ++ [b]) ++ c :: post) := by simpa using ht
      have hc := ht'.header (p := nxt p) (by
        rw [hlink, hp, span_append, span_cons, span_nil]
        omega)
      rw [hc, ht.header hp]
      exact hco.of_append_right.1

end Walk

/-! ### Arenas and their owners -/

section Owned

variable {F : HeaderFormat} {A : Arena} {m : Memory} {p : Addr}
variable {live : ℕ → Option τ} {bs : List (Block τ)}

/-- A live pointer is the payload of a block. -/
theorem Owned.block (ho : Owned live (payloads recordSize A.lo bs)) {x : ℕ} {t : τ}
    (hx : live x = some t) :
    ∃ pre b post, bs = pre ++ b :: post ∧ b.tag = some t ∧
      x = A.lo + BlockChain.span recordSize pre + recordSize ∧
      ⟨x, b.len, t⟩ ∈ payloads recordSize A.lo bs := by
  obtain ⟨len, hmem⟩ := (ho x t).mp hx
  obtain ⟨pre, b, post, heq, htag, haddr, hlen⟩ := mem_payloads_iff.mp hmem
  obtain rfl : len = b.len := hlen
  exact ⟨pre, b, post, heq, htag, haddr, hmem⟩

/-- The arena does not start at zero, and no live pointer is zero. -/
theorem Owned.live_zero (ho : Owned live (payloads recordSize A.lo bs)) : live 0 = none := by
  cases hlive : live 0 with
  | none => rfl
  | some t =>
      obtain ⟨pre, b, post, -, -, haddr, -⟩ := ho.block hlive
      have hpos := A.lo_pos
      omega

/-- A coalesced arena without live pointers is one free block. -/
theorem Owned.single (ho : Owned live (payloads recordSize A.lo bs)) (hco : Coalesced bs)
    (hne : bs ≠ []) (hnone : ∀ x, live x = none) : ∃ n, bs = [⟨n, none⟩] := by
  refine hco.eq_single (fun b hb => ?_) hne
  obtain ⟨pre, post, rfl⟩ := List.append_of_mem hb
  cases htag : b.tag with
  | none => rfl
  | some t =>
      have hlive := (ho _ t).mpr
        ⟨b.len, mem_payloads_iff.mpr ⟨pre, b, post, rfl, htag, rfl, rfl⟩⟩
      rw [hnone] at hlive
      cases hlive

end Owned

end BlockChain
