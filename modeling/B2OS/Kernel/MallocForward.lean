import B2OS.Kernel.Confined

/-!
# The Kernel Heap with Stale Links Back

A split in the middle of the list of `Src/memory.c` leaves one link back stale, and the list
is still a row of blocks that fill the arena, as its links to the successors show it. This
module follows `malloc` and `free` on such a row.

## Main results

* `takeBlock_forward`: `malloc` takes a block of the row, wherever it stands.
* `free_forward`: `free` gives a block back when its link back does not mislead it.
* `Row.live_iff`: the live blocks are the payloads in use.
-/

namespace B2OS.Kernel

open ByteMemory BlockChain

/-- The blocks `bs` fill the arena, as the links to the successors show them. -/
structure Row (k : KernelHeap) (bs : List (Block ℕ)) : Prop where
  head : k.head = gMemory
  forward : Forward mHeader kernelArena k.mem bs

/-- The list fills the arena, as its links to the successors show it. -/
def ListTiles (k : KernelHeap) : Prop := ∃ bs, Row k bs

/-- A pointer to the payload of a block that is on the list and in use. -/
def LiveBlock (k : KernelHeap) (ptr : Addr) : Prop :=
  OnList k (ptr - headerLen) ∧ used k.mem (ptr - headerLen) = true

/-! ### Giving a block back -/

section Forward

variable {m : Memory} {pre post bs : List (Block ℕ)} {b : Block ℕ} {p n : Addr}

theorem mergeStores_headersOnly (l : BitVec 32) (hp : p.toNat ∈ places recordSize base bs)
    (hfits : Fits p) (hn : n ≠ 0 → n.toNat ∈ places recordSize base bs ∧ Fits n) :
    HeadersOnly base bs m (mergeStores m p n l) := by
  have hself : HeadersOnly base bs m (setNext (setLength m p l) p n) :=
    (HeadersOnly.refl base bs m).store hp
      (((ChangedOnly.refl m _ _).setWord2 ⟨le_rfl, le_rfl⟩ hfits l).setWord1 ⟨le_rfl, le_rfl⟩
        hfits n)
  rw [mergeStores]
  split_ifs with hne
  · obtain ⟨hplace, hnfits⟩ := hn hne
    exact hself.store hplace ((ChangedOnly.refl _ _ _).setWord0 ⟨le_rfl, le_rfl⟩ hnfits p)
  · exact hself

/-- The stores of a merge let the block at `p` swallow its successor. -/
theorem mergeStores_forward {c : Block ℕ} {q : Addr} {l : BitVec 32}
    (hf : Forward mHeader kernelArena m (pre ++ b :: c :: post))
    (hp : p.toNat = base + span recordSize pre) (hq : q.toNat = p.toNat + recordSize + b.len)
    (hlen : l.toNat = b.len + (recordSize + c.len)) (hn : n = next m q) :
    Forward mHeader kernelArena (mergeStores m p n l)
        (pre ++ { b with len := b.len + (recordSize + c.len) } :: post) ∧
      prev (mergeStores m p n l) p = prev m p ∧
      HeadersOnly base (pre ++ b :: c :: post) m (mergeStores m p n l) := by
  obtain ⟨-, hfits⟩ := hf.bounds hp
  have hfc : Forward mHeader kernelArena m ((pre ++ [b]) ++ c :: post) := by simpa using hf
  have hqp : q.toNat = base + span recordSize (pre ++ [b]) := by
    rw [hq, hp, span_append, span_cons, span_nil]
    omega
  obtain ⟨hlink, -, -⟩ := row_header hfc hqp
  rw [← hn] at hlink
  have hedit : n = 0 → Edit mHeader m (mergeStores m p n l) p
      fun x => { x with len := l.toNat, next := n.toNat } := by
    intro hzero
    rw [mergeStores, if_neg (not_not.mpr hzero)]
    exact (mHeader.edit_setLen m hfits l).trans (mHeader.edit_setNext _ hfits n)
  have hedit2 : n ≠ 0 → Fits n → Apart p.toNat n.toNat →
      Edit2 mHeader m (mergeStores m p n l) p n
        (fun x => { x with len := l.toNat, next := n.toNat })
        fun x => { x with prev := p.toNat } := by
    intro hne hnfits hapart
    rw [mergeStores, if_pos hne]
    exact merge_edit2 l hfits hnfits hapart
  refine ⟨hf.absorb hp hq (by rw [hn]; rfl) hedit hedit2 (fun x => by rw [hlen]) fun x => rfl,
    ?_, ?_⟩
  · by_cases hzero : n = 0
    · have hself := (hedit hzero).self
      rw [mHeader.at_toNat, mHeader.at_toNat] at hself
      exact BitVec.eq_of_toNat_eq (congrArg Hdr.prev hself)
    · obtain ⟨hnat, hnfits⟩ := hfc.of_link hqp hlink hzero
      have hself := (hedit2 hzero hnfits (.inl (by omega))).fst
      rw [mHeader.at_toNat, mHeader.at_toNat] at hself
      exact BitVec.eq_of_toNat_eq (congrArg Hdr.prev hself)
  · refine mergeStores_headersOnly l (mem_places_iff.mpr ⟨pre, b, c :: post, rfl, hp⟩) hfits
      fun hne => ?_
    obtain ⟨hnat, hnfits⟩ := hfc.of_link hqp hlink hne
    cases post with
    | nil => exact absurd (BitVec.eq_of_toNat_eq hlink) hne
    | cons d post =>
        refine ⟨mem_places_iff.mpr ⟨pre ++ [b, c], d, post, by simp, ?_⟩, hnfits⟩
        rw [hnat, hq, hp, span_append, span_cons, span_cons, span_nil]
        omega

/-- Swallowing a block takes a header out of the row. -/
theorem places_absorb {a l : ℕ} {t : Option ℕ} {c : Block ℕ}
    (hl : l = b.len + (recordSize + c.len)) :
    ∀ y ∈ places recordSize a (pre ++ ⟨l, t⟩ :: post),
      y ∈ places recordSize a (pre ++ b :: c :: post) := by
  intro y hy
  subst hl
  simp only [places_append, places_cons, List.mem_append, List.mem_cons] at hy ⊢
  rcases hy with hy | hy | hy
  · exact .inl hy
  · exact .inr (.inl hy)
  · refine .inr (.inr (.inr ?_))
    simp only [← Nat.add_assoc] at hy
    exact hy

/-- The first merge of `free` on a row. -/
theorem mergeNext_forward (hf : Forward mHeader kernelArena m (pre ++ b :: post))
    (hp : p.toNat = base + span recordSize pre) :
    ∃ l post', Forward mHeader kernelArena (mergeNext m p) (pre ++ ⟨l, b.tag⟩ :: post') ∧
      (∀ a, payloads recordSize (a + recordSize + l) post' =
        payloads recordSize (a + recordSize + b.len) post) ∧
      prev (mergeNext m p) p = prev m p ∧
      HeadersOnly base (pre ++ b :: post) m (mergeNext m p) ∧
      ∀ y ∈ places recordSize base (pre ++ ⟨l, b.tag⟩ :: post'),
        y ∈ places recordSize base (pre ++ b :: post) := by
  rcases mergeNext_cases hf hp with ⟨hsame, -⟩ | ⟨c, post, rfl, hctag, hq, hmerge⟩
  · rw [hsame]
    exact ⟨b.len, post, hf, fun _ => rfl, rfl, .refl _ _ _, fun _ hy => hy⟩
  · have hfc : Forward mHeader kernelArena m ((pre ++ [b]) ++ c :: post) := by simpa using hf
    have hqp : (next m p).toNat = base + span recordSize (pre ++ [b]) := by
      rw [hq, hp, span_append, span_cons, span_nil]
      omega
    obtain ⟨-, hlen, -⟩ := row_header hf hp
    obtain ⟨-, hclen, -⟩ := row_header hfc hqp
    obtain ⟨hctop, -⟩ := hfc.bounds hqp
    have hsum := toNat_merged hlen hclen
      (by simp only [kernelArena, base, arena] at hctop; omega)
    obtain ⟨hf', hprev, hheaders⟩ := mergeStores_forward hf hp hq hsum rfl
    rw [hmerge]
    refine ⟨_, post, hf', fun a => ?_, hprev, hheaders, places_absorb rfl⟩
    rw [payloads_free _ c _ hctag]
    congr 1
    omega

/-- The second merge of `free` on a row. -/
theorem mergePrev_forward (hf : Forward mHeader kernelArena m (pre ++ b :: post))
    (hp : p.toNat = base + span recordSize pre) (hback : BackLinked m pre p)
    (hfree : b.tag = none) :
    ∃ bs, Forward mHeader kernelArena (mergePrev m p) bs ∧
      payloads recordSize base bs = payloads recordSize base (pre ++ b :: post) ∧
      HeadersOnly base (pre ++ b :: post) m (mergePrev m p) := by
  rcases mergePrev_row hf hp hback with ⟨hsame, -⟩ | ⟨pre, a, rfl, hatag, hprev, hpq, hmerge⟩
  · rw [hsame]
    exact ⟨_, hf, rfl, .refl _ _ _⟩
  · have hfa : Forward mHeader kernelArena m (pre ++ a :: b :: post) := by simpa using hf
    obtain ⟨-, hlen, -⟩ := row_header hf hp
    obtain ⟨-, halen, -⟩ := row_header hfa hprev
    obtain ⟨htop, -⟩ := hf.bounds hp
    have hsum := toNat_merged halen hlen
      (by simp only [kernelArena, base, arena] at htop; omega)
    obtain ⟨hf', -, hheaders⟩ := mergeStores_forward hfa hprev hpq hsum rfl
    rw [hmerge, ← List.append_cons]
    refine ⟨_, hf', ?_, hheaders⟩
    rw [payloads_append, payloads_append, hatag, payloads_absorb _ hatag hfree]

/-- What the two merges of `free` leave of a row: the block is free, the other payloads are as
they were, and stores went into headers only. -/
theorem free_forward (hf : Forward mHeader kernelArena m (pre ++ b :: post))
    (hp : p.toNat = base + span recordSize pre)
    (hback : BackLinked (mergeNext (setUsed m p false) p) pre p) :
    ∃ bs, Forward mHeader kernelArena (mergePrev (mergeNext (setUsed m p false) p) p) bs ∧
      payloads recordSize base bs = payloads recordSize base pre ++
        payloads recordSize (base + span recordSize pre + recordSize + b.len) post ∧
      HeadersOnly base (pre ++ b :: post) m
        (mergePrev (mergeNext (setUsed m p false) p) p) := by
  obtain ⟨-, hfits⟩ := hf.bounds hp
  have hplace : p.toNat ∈ places recordSize base (pre ++ b :: post) :=
    mem_places_iff.mpr ⟨pre, b, post, rfl, hp⟩
  have hmark : HeadersOnly base (pre ++ b :: post) m (setUsed m p false) :=
    (HeadersOnly.refl _ _ _).store hplace
      ((ChangedOnly.refl _ _ _).setFlag ⟨le_rfl, le_rfl⟩ hfits false)
  have hf₁ : Forward mHeader kernelArena (setUsed m p false) (pre ++ ⟨b.len, none⟩ :: post) :=
    hf.setTag hp none (mHeader.edit_setUsed m hfits false)
  obtain ⟨l, post', hf₂, hpay₂, -, hheaders₂, hsub₂⟩ := mergeNext_forward hf₁ hp
  obtain ⟨bs, hf₃, hpay₃, hheaders₃⟩ := mergePrev_forward hf₂ hp hback rfl
  have hplaces : ∀ y ∈ places recordSize base (pre ++ ⟨b.len, none⟩ :: post),
      y ∈ places recordSize base (pre ++ b :: post) := by
    simp only [places_append, places_cons]
    exact fun y hy => hy
  refine ⟨bs, hf₃, ?_, ?_⟩
  · rw [hpay₃, payloads_append, payloads_free _ _ _ rfl, hpay₂]
  · exact (hmark.trans hheaders₂ hplaces).trans hheaders₃ fun y hy => hplaces y (hsub₂ y hy)

/-- A link back that leads to the block before, or to a block in use somewhere before, does
not mislead `free`. -/
theorem backLinked_mergeNext (hf : Forward mHeader kernelArena m (pre ++ b :: post))
    (hp : p.toNat = base + span recordSize pre)
    (hprev : prev m p ≠ 0 → ∃ pre₁ c pre₂, pre = pre₁ ++ c :: pre₂ ∧
      (prev m p).toNat = base + span recordSize pre₁ ∧ (pre₂ = [] ∨ c.tag.isSome)) :
    BackLinked (mergeNext (setUsed m p false) p) pre p := by
  obtain ⟨-, hfits⟩ := hf.bounds hp
  have hf₁ : Forward mHeader kernelArena (setUsed m p false) (pre ++ ⟨b.len, none⟩ :: post) :=
    hf.setTag hp none (mHeader.edit_setUsed m hfits false)
  obtain ⟨l, post', hf₂, -, hsame, -, -⟩ := mergeNext_forward hf₁ hp
  have hmark : prev (setUsed m p false) p = prev m p := by
    rw [prev, setUsed, record_setFlag hfits, prev]
  rw [BackLinked, hsame, hmark]
  intro hne hfree
  obtain ⟨pre₁, c, pre₂, rfl, hat, rfl | hused⟩ := hprev hne
  · exact ⟨pre₁, c, rfl, hat⟩
  · have hf₃ : Forward mHeader kernelArena (mergeNext (setUsed m p false) p)
        (pre₁ ++ c :: (pre₂ ++ ⟨l, none⟩ :: post')) := by simpa using hf₂
    obtain ⟨-, -, hflag⟩ := row_header hf₃ hat
    rw [hfree, hused] at hflag
    cases hflag

/-! ### Taking a block -/

/-- The blocks that stand where `malloc` took `size` bytes of `b`, for a request of `n`. -/
def carve (b : Block ℕ) (size n : ℕ) : List (Block ℕ) :=
  if size + recordSize ≤ b.len then [⟨size, some n⟩, ⟨b.len - size - recordSize, none⟩]
  else [⟨b.len, some n⟩]

theorem span_carve (b : Block ℕ) (size n : ℕ) :
    span recordSize (carve b size n) = recordSize + b.len := by
  rw [carve]
  split_ifs with hroom <;> simp only [span_cons, span_nil] <;> omega

/-- The taken block comes first, holds `size` bytes, and is the only one in use. -/
theorem carve_spec {b : Block ℕ} {size : ℕ} (n : ℕ) (hfit : size ≤ b.len) :
    ∃ len rest, carve b size n = ⟨len, some n⟩ :: rest ∧ size ≤ len ∧ len ≤ b.len ∧
      ∀ a, payloads recordSize a (carve b size n) = [⟨a + recordSize, len, n⟩] := by
  rw [carve]
  split_ifs with hroom
  · exact ⟨size, _, rfl, le_rfl, hfit, fun a => rfl⟩
  · exact ⟨b.len, _, rfl, hfit, le_rfl, fun a => rfl⟩

/-- The stores of `malloc` on a block of the row. -/
theorem takeBlock_forward (hf : Forward mHeader kernelArena m (pre ++ b :: post))
    (hp : p.toNat = base + span recordSize pre) {size : BitVec 32}
    (hfit : size.toNat ≤ b.len) (n : ℕ) :
    Forward mHeader kernelArena (takeBlock m size p)
        (pre ++ (carve b size.toNat n ++ post)) ∧
      ChangedOnly m (takeBlock m size p) p.toNat (p.toNat + recordSize + b.len) := by
  obtain ⟨hnext, hlen, -⟩ := row_header hf hp
  obtain ⟨htop, hfits⟩ := hf.bounds hp
  have hend : p.toNat + recordSize + b.len < 2 ^ 32 := by
    simp only [kernelArena, base, arena] at htop
    omega
  have hcond : size + headerLen ≤ length m p ↔ size.toNat + recordSize ≤ b.len :=
    splits_iff hlen (by omega)
  refine ⟨?_, takeBlock_changedOnly hend.le ⟨le_rfl, Nat.le_add_right _ _⟩ fun hroom => ?_⟩
  · rw [carve]
    by_cases hroom : size.toNat + recordSize ≤ b.len
    · rw [if_pos hroom]
      obtain ⟨hsplit, f, g, hedit, hfx, hgx⟩ := takeBlock_edit hlen hend hroom
      refine hf.split (some n) hp hsplit (by omega) hedit hfx fun x => ?_
      rw [hgx, mHeader.at_toNat]
      rfl
    · rw [takeBlock, if_neg fun h => hroom (hcond.mp h), if_neg hroom]
      exact hf.setTag hp (some n) (mHeader.edit_setUsed m hfits true)
  · have hle := hcond.mp hroom
    have hsplit : (p + headerLen + size).toNat = p.toNat + recordSize + size.toNat :=
      toNat_split (by omega)
    exact ⟨by omega, by omega⟩

end Forward

/-! ### Rows and what is live in them -/

section Row

variable {k k' : KernelHeap} {bs : List (Block ℕ)} {p ptr : Addr}

theorem Row.ne_nil (hr : Row k bs) : bs ≠ [] := by
  rintro rfl
  have hspan := hr.forward.span
  simp [kernelArena, arena] at hspan

theorem Row.head_toNat (hr : Row k bs) : k.head.toNat = link base 0 bs := by
  obtain ⟨b, bs, rfl⟩ := List.exists_cons_of_ne_nil hr.ne_nil
  rw [hr.head]
  rfl

theorem Row.onList_iff (hr : Row k bs) : OnList k p ↔ p.toNat ∈ places recordSize base bs :=
  hr.forward.walk_iff (next_toNat k.mem) (by rw [hr.head]; rfl) hr.ne_nil

/-- The payload behind a header of the row. -/
theorem Row.payload_toNat (hr : Row k bs) (hp : p.toNat ∈ places recordSize base bs) :
    (p + headerLen).toNat = p.toNat + recordSize := by
  have hheader : headerLen.toNat = 16 := rfl
  have hbounds := place_bounds hp
  rw [hr.forward.span] at hbounds
  rw [BitVec.toNat_add, hheader]
  simp only [kernelArena, base, arena, recordSize] at *
  omega

/-- The live blocks are the payloads in use. -/
theorem Row.live_iff (hr : Row k bs) :
    LiveBlock k ptr ↔ ∃ t, ⟨ptr.toNat, usable k ptr, t⟩ ∈ payloads recordSize base bs := by
  constructor
  · rintro ⟨hon, hused⟩
    have hplace := hr.onList_iff.mp hon
    have hptr := hr.payload_toNat hplace
    obtain ⟨pre, b, post, rfl, hp⟩ := mem_places_iff.mp hplace
    obtain ⟨-, hlen, hflag⟩ := row_header hr.forward hp
    rw [hused] at hflag
    obtain ⟨t, ht⟩ := Option.isSome_iff_exists.mp hflag.symm
    rw [BitVec.sub_add_cancel, hp] at hptr
    exact ⟨t, mem_payloads_iff.mpr ⟨pre, b, post, rfl, ht, hptr, hlen⟩⟩
  · rintro ⟨t, hmem⟩
    obtain ⟨pre, b, post, rfl, ht, haddr, -⟩ := mem_payloads_iff.mp hmem
    have hp : (ptr - headerLen).toNat = base + span recordSize pre := entry_toNat haddr
    obtain ⟨-, -, hflag⟩ := row_header hr.forward hp
    exact ⟨hr.onList_iff.mpr (mem_places_iff.mpr ⟨pre, b, post, rfl, hp⟩),
      by rw [hflag, ht]; rfl⟩

/-- The header of a payload gives its length. -/
theorem Row.usable_eq (hr : Row k bs) {len t : ℕ}
    (hmem : ⟨ptr.toNat, len, t⟩ ∈ payloads recordSize base bs) : usable k ptr = len := by
  obtain ⟨pre, b, post, rfl, -, haddr, hlen⟩ := mem_payloads_iff.mp hmem
  have hp : (ptr - headerLen).toNat = base + span recordSize pre := entry_toNat haddr
  obtain ⟨-, hlen', -⟩ := row_header hr.forward hp
  exact hlen'.trans hlen.symm

/-- A payload in use is a live block. -/
theorem Row.live_of_mem (hr : Row k bs) {len t : ℕ}
    (hmem : ⟨ptr.toNat, len, t⟩ ∈ payloads recordSize base bs) : LiveBlock k ptr :=
  hr.live_iff.mpr ⟨t, by rwa [hr.usable_eq hmem]⟩

/-- `malloc` answers `NULL` and changes nothing when no free block holds the rounded request,
and else takes the first one that does. -/
theorem Row.malloc (hr : Row k bs) {size : BitVec 32} {fuel : ℕ}
    (h : Kernel.malloc fuel size k = some (ptr, k')) :
    (ptr = 0 ∧ k' = k ∧
        (size = 0 ∨ ∀ b ∈ bs, b.tag = none → b.len < (roundUp size).toNat)) ∨
      ∃ pre b post, bs = pre ++ b :: post ∧ b.tag = none ∧ size ≠ 0 ∧
        (roundUp size).toNat ≤ b.len ∧ ptr.toNat = base + span recordSize pre + recordSize ∧
        Row k' (pre ++ (carve b (roundUp size).toNat size.toNat ++ post)) ∧
        ChangedOnly k.mem k'.mem (base + span recordSize pre)
          (base + span recordSize pre + recordSize + b.len) ∧
        k'.mem = takeBlock k.mem (roundUp size) (ptr - headerLen) ∧
        ∀ c ∈ pre, c.tag = none → c.len < (roundUp size).toNat := by
  rw [Kernel.malloc] at h
  split_ifs at h with hzero
  · obtain ⟨rfl, rfl⟩ := Prod.mk.inj (Option.some.inj h)
    exact .inl ⟨rfl, rfl, .inl hzero⟩
  obtain ⟨r, hfind, hmap⟩ := Option.map_eq_some_iff.mp h
  rcases findFit_row hr.forward.links (by decide) hr.head_toNat hfind with
    ⟨hnull, hnone⟩ | ⟨pre, b, post, rfl, hrat, hfree, hfit, hfirst⟩
  · rw [if_pos hnull] at hmap
    obtain ⟨rfl, rfl⟩ := Prod.mk.inj hmap
    exact .inl ⟨rfl, rfl, .inr hnone⟩
  · have hplace : r.toNat ∈ places recordSize base (pre ++ b :: post) :=
      mem_places_iff.mpr ⟨pre, b, post, rfl, hrat⟩
    rw [if_neg (hr.forward.place_fits hplace).2] at hmap
    obtain ⟨rfl, rfl⟩ := Prod.mk.inj hmap
    obtain ⟨hf, hch⟩ := takeBlock_forward hr.forward hrat hfit size.toNat
    refine .inr ⟨pre, b, post, rfl, hfree, hzero, hfit, ?_, ⟨hr.head, hf⟩, ?_, ?_, hfirst⟩
    · rw [hr.payload_toNat hplace, hrat]
      rfl
    · rwa [hrat] at hch
    · rw [BitVec.add_sub_cancel]

/-- `malloc` comes back, with fuel for more blocks than the row has. -/
theorem Row.malloc_comes_back (hr : Row k bs) (size : BitVec 32) {fuel : ℕ}
    (hfuel : bs.length < fuel) : ∃ r, Kernel.malloc fuel size k = some r := by
  obtain ⟨r, hfind⟩ : ∃ r, findFit k.mem (roundUp size) fuel k.head = some r :=
    findFit_returns hr.forward.links (by decide) hr.head_toNat hfuel
  refine Option.isSome_iff_exists.mp ?_
  rw [Kernel.malloc]
  split_ifs
  · rfl
  · rw [Option.isSome_map, hfind]
    rfl

theorem Row.malloc_returns (hr : Row k bs) (size : BitVec 32) :
    ∃ fuel r, Kernel.malloc fuel size k = some r :=
  ⟨bs.length + 1, hr.malloc_comes_back size (Nat.lt_succ_self _)⟩

end Row

end B2OS.Kernel
