import B2OS.Kernel.MallocLimits
import B2OS.Lib.StaleLinks

/-!
# What a Client of the Kernel Heap Sees

A function that asks `malloc` of `Src/memory.c` for blocks, stores into them and gives them back
looks at no header. It relies on three things: the block that it gets is nobody else's, stores
into its blocks change nothing else, and a block that it gives back takes no other block with it.
They hold on a heap that is `Intact`: the list fills the arena, and no link back misleads `free`.

## Main results

* `SafeRow.malloc`, `Granted`: a new block, and all that is in use stays as it is.
* `SafeRow.store`: stores into a live block.
* `SafeRow.free`: a live block is given back.
* `Row.grants_both_iff`: when a heap has room for two blocks.
-/

namespace B2OS.Kernel

open ByteMemory BlockChain

/-- A row of blocks whose links back do not mislead `free`. -/
structure SafeRow (k : KernelHeap) (bs : List (Block ℕ)) : Prop extends Row k bs where
  backed : Backed recordSize (mHeader.at k.mem) ∅ 0 base bs

/-- The list fills the arena, and no link back misleads `free`. -/
def Intact (k : KernelHeap) : Prop := ∃ bs, SafeRow k bs

/-- A byte that is in use: it lies outside the arena, or in a live block. -/
def InUse (k : KernelHeap) (a : Addr) : Prop :=
  a.toNat < base ∨ base + arena ≤ a.toNat ∨
    ∃ r, LiveBlock k r ∧ r.toNat ≤ a.toNat ∧ a.toNat < r.toNat + usable k r

/-! ### Live blocks of a row -/

section Row

variable {k k' : KernelHeap} {bs bs' : List (Block ℕ)} {q r : Addr}

/-- A live block lies in the arena, behind its header. -/
theorem Row.live_bounds (hr : Row k bs) (hlive : LiveBlock k q) :
    base + recordSize ≤ q.toNat ∧ q.toNat + usable k q ≤ base + arena := by
  obtain ⟨t, hmem⟩ := hr.live_iff.mp hlive
  have hbounds := payload_bounds hmem
  rw [hr.forward.span] at hbounds
  exact hbounds

/-- Live blocks do not overlap. -/
theorem Row.live_disjoint (hr : Row k bs) (hq : LiveBlock k q) (hlive : LiveBlock k r)
    (hne : q ≠ r) :
    q.toNat + usable k q ≤ r.toNat ∨ r.toNat + usable k r ≤ q.toNat := by
  obtain ⟨t, hmem⟩ := hr.live_iff.mp hq
  obtain ⟨t', hmem'⟩ := hr.live_iff.mp hlive
  exact payloads_disjoint hmem hmem' fun heq => hne (BitVec.eq_of_toNat_eq heq)

/-- What is live in a row is live in a row with the same payload. -/
theorem Row.live_transfer (hr : Row k bs) (hr' : Row k' bs')
    (hsub : ∀ x ∈ payloads recordSize base bs, x.addr = q.toNat → x ∈ payloads recordSize base bs')
    (hlive : LiveBlock k q) : LiveBlock k' q ∧ usable k' q = usable k q := by
  obtain ⟨t, hmem⟩ := hr.live_iff.mp hlive
  have hmem' := hsub _ hmem rfl
  exact ⟨hr'.live_of_mem hmem', hr'.usable_eq hmem'⟩

/-- The bytes of a live block are in use. -/
theorem LiveBlock.inUse (hr : Row k bs) (hlive : LiveBlock k q) {i : ℕ} (hi : i < usable k q) :
    (q + BitVec.ofNat 32 i).toNat = q.toNat + i ∧ InUse k (q + BitVec.ofNat 32 i) := by
  obtain ⟨-, hend⟩ := hr.live_bounds hlive
  have hnat : (q + BitVec.ofNat 32 i).toNat = q.toNat + i :=
    toNat_add_lt (n := usable k q) (hend.trans (by decide)) hi
  exact ⟨hnat, .inr (.inr ⟨q, hlive, by omega, by omega⟩)⟩

/-- On a list that tiles the arena, all links back are right. -/
theorem Tiles.intact (hk : Tiles k) : Intact k := by
  obtain ⟨bs, hchain, hspan⟩ := hk.chain
  exact ⟨bs, ⟨hk.head, hchain.links, hspan⟩, hchain.backed⟩

/-- The heap that `k_init_mem` leaves is intact. -/
theorem start_intact (m : Memory) : Intact (Session.start m).heap := (start_layout m).tiles.intact

end Row

/-! ### A new block -/

/-- The stores of `malloc` leave no link back that misleads `free`. -/
theorem takeBlock_backed {m : Memory} {pre post : List (Block ℕ)} {b : Block ℕ} {p : Addr}
    (hf : Forward mHeader kernelArena m (pre ++ b :: post))
    (hb : Backed recordSize (mHeader.at m) ∅ 0 base (pre ++ b :: post))
    (hp : p.toNat = base + span recordSize pre) {size : BitVec 32} (hfit : size.toNat ≤ b.len)
    (n : ℕ) :
    Backed recordSize (mHeader.at (takeBlock m size p)) ∅ 0 base
      (pre ++ (carve b size.toNat n ++ post)) := by
  obtain ⟨-, hlen, -⟩ := row_header hf hp
  obtain ⟨htop, hfits⟩ := hf.bounds hp
  have hend : p.toNat + recordSize + b.len < 2 ^ 32 := by
    simp only [kernelArena, base, arena] at htop
    omega
  -- a header of the row is the one of the block, or lies outside the block
  have hplaces : ∀ x ∈ places recordSize base (pre ++ b :: post), x + recordSize ≤ 2 ^ 32 ∧
      (x = p.toNat ∨ x + recordSize ≤ p.toNat ∨ p.toNat + recordSize + b.len ≤ x) := by
    intro x hx
    have hbounds := place_bounds hx
    rw [hf.span] at hbounds
    refine ⟨hbounds.2.trans (by decide), ?_⟩
    rw [places_append, places_cons, List.mem_append, List.mem_cons, ← hp] at hx
    rcases hx with hx | hx | hx
    · have hpre := place_bounds hx
      omega
    · exact .inl hx
    · have hpost := place_bounds hx
      omega
  rw [carve]
  by_cases hroom : size.toNat + recordSize ≤ b.len
  · obtain ⟨hsplit, f, g, hedit, hfx, hgx⟩ := takeBlock_edit hlen hend hroom
    rw [if_pos hroom]
    refine hb.split (by omega) (fun x hx => ?_) ?_
    · obtain ⟨htop, rfl | hout⟩ := hplaces x hx
      · rw [hedit.fst, hfx]
      · rw [hedit.other x htop (by rw [Apart]; omega) (by rw [Apart]; omega)]
    · rw [← hp, ← hsplit, hedit.snd, hgx]
  · have hwhole : takeBlock m size p = setUsed m p true := by
      rw [takeBlock, if_neg fun h => hroom ((splits_iff hlen (by omega)).mp h)]
    have hedit : Edit mHeader m (setUsed m p true) p _ := mHeader.edit_setUsed m hfits true
    rw [if_neg hroom, hwhole]
    refine hb.take fun x hx => ?_
    obtain ⟨htop, rfl | hout⟩ := hplaces x hx
    · rw [hedit.self]
    · rw [hedit.other x htop (by rw [Apart]; omega)]

/-- What is live where `malloc` took a block: the new payload, and what was live before. -/
theorem mem_payloads_take {pre post : List (Block ℕ)} {b : Block ℕ} {a size n len : ℕ}
    {x : Payload ℕ} (hfree : b.tag = none)
    (hpay : ∀ a, payloads recordSize a (carve b size n) = [⟨a + recordSize, len, n⟩]) :
    x ∈ payloads recordSize a (pre ++ (carve b size n ++ post)) ↔
      x = ⟨a + span recordSize pre + recordSize, len, n⟩ ∨
        x ∈ payloads recordSize a (pre ++ b :: post) := by
  rw [payloads_append, payloads_append, payloads_append, payloads_free _ _ _ hfree, hpay,
    span_carve, List.mem_append, List.mem_append, List.mem_append, List.mem_singleton,
    ← Nat.add_assoc]
  tauto

/-- What was live before lies outside the free block. -/
theorem payload_outside {pre post : List (Block ℕ)} {b : Block ℕ} {a : ℕ} {x : Payload ℕ}
    (hfree : b.tag = none) (hx : x ∈ payloads recordSize a (pre ++ b :: post)) :
    x.addr + x.len ≤ a + span recordSize pre ∨
      a + span recordSize pre + recordSize + b.len + recordSize ≤ x.addr := by
  rw [payloads_append, payloads_free _ _ _ hfree, List.mem_append] at hx
  rcases hx with hx | hx
  · exact .inl (payload_bounds hx).2
  · exact .inr (payload_bounds hx).1

/-- `malloc` gave `q` out for `n` bytes: the block was not live before, the live blocks are still
live, and the bytes in use are as they were and none of the block's. -/
structure Granted (k k' : KernelHeap) (q : Addr) (n : ℕ) : Prop where
  fresh : ¬ LiveBlock k q
  live : LiveBlock k' q
  room : n ≤ usable k' q
  others : ∀ {r}, LiveBlock k r → LiveBlock k' r ∧ usable k' r = usable k r
  kept : ∀ {a}, InUse k a → k'.mem a = k.mem a
  apart : ∀ {a}, InUse k a → a.toNat < q.toNat ∨ q.toNat + usable k' q ≤ a.toNat

section Heap

variable {k k' : KernelHeap} {bs : List (Block ℕ)} {q r a : Addr} {n fuel : ℕ}

/-- The bytes in use stay in use. -/
theorem Granted.inUse (hg : Granted k k' q n) (ha : InUse k a) : InUse k' a := by
  rcases ha with hlo | hhi | ⟨r, hr, hlo, hhi⟩
  · exact .inl hlo
  · exact .inr (.inl hhi)
  · obtain ⟨hr', husable⟩ := hg.others hr
    exact .inr (.inr ⟨r, hr', hlo, by rwa [husable]⟩)

/-- A call of `malloc` that is not `NULL`. -/
theorem SafeRow.malloc (hs : SafeRow k bs) {size : BitVec 32}
    (h : Kernel.malloc fuel size k = some (q, k')) (hne : q ≠ 0) :
    ∃ bs', SafeRow k' bs' ∧ bs'.length ≤ bs.length + 1 ∧
      Granted k k' q (roundUp size).toNat := by
  rcases hs.toRow.malloc h with
    ⟨rfl, -⟩ | ⟨pre, b, post, rfl, hfree, -, hfit, hq, hr', hch, htake, -⟩
  · exact absurd rfl hne
  obtain ⟨len, rest, hcarve, hlen, hlenb, hpay⟩ := carve_spec size.toNat hfit
  have hmem : ⟨q.toNat, len, size.toNat⟩ ∈ payloads recordSize base
      (pre ++ (carve b (roundUp size).toNat size.toNat ++ post)) :=
    (mem_payloads_take hfree hpay).mpr (.inl (by rw [hq]))
  have hend := (hs.forward.bounds (entry_toNat hq)).1
  rw [entry_toNat hq] at hend
  have husable := hr'.usable_eq hmem
  -- a byte in use lies outside the block that was taken
  have hout : ∀ {a}, InUse k a → a.toNat < base + span recordSize pre ∨
      base + span recordSize pre + recordSize + b.len ≤ a.toNat := by
    rintro a (hlo | hhi | ⟨r, hr, hlo, hhi⟩)
    · exact .inl (by omega)
    · simp only [kernelArena] at hend
      exact .inr (by omega)
    · obtain ⟨t, hpayload⟩ := hs.toRow.live_iff.mp hr
      have hapart := payload_outside hfree hpayload
      dsimp only at hapart
      omega
  refine ⟨_, ⟨hr', ?_⟩, ?_, ?_⟩
  · rw [htake]
    exact takeBlock_backed hs.forward hs.backed (entry_toNat hq) hfit size.toNat
  · rw [carve]
    split_ifs <;> simp only [List.length_append, List.length_cons, List.length_nil] <;> omega
  · constructor
    case fresh =>
      intro hlive
      obtain ⟨t, hpayload⟩ := hs.toRow.live_iff.mp hlive
      have hapart := payload_outside hfree hpayload
      dsimp only at hapart
      rw [recordSize] at *
      omega
    case live => exact hr'.live_of_mem hmem
    case room => rwa [husable]
    case others =>
      intro r hr
      exact hs.toRow.live_transfer hr'
        (fun x hx _ => (mem_payloads_take hfree hpay).mpr (.inr hx)) hr
    case kept => exact fun ha => hch _ (hout ha)
    case apart =>
      intro a ha
      have hapart := hout ha
      rw [husable]
      omega

/-- Two blocks of `n₁` and `n₂` bytes of an intact heap. -/
structure TwoBlocks (k : KernelHeap) (p q : Addr) (n₁ n₂ : ℕ) : Prop where
  fst : LiveBlock k p ∧ n₁ ≤ usable k p
  snd : LiveBlock k q ∧ n₂ ≤ usable k q
  ne : p ≠ q

/-- Two calls of `malloc` that are not `NULL`. What was in use is as it was, outside both. -/
theorem SafeRow.malloc_both (hs : SafeRow k bs) {k₁ k₂ : KernelHeap} {p q : Addr}
    {size₁ size₂ : BitVec 32} (h₁ : Kernel.malloc fuel size₁ k = some (p, k₁)) (hp : p ≠ 0)
    (h₂ : Kernel.malloc fuel size₂ k₁ = some (q, k₂)) (hq : q ≠ 0)
    (hsize₁ : size₁.toNat ≤ maxRequest) (hsize₂ : size₂.toNat ≤ maxRequest) :
    (∃ bs₂, SafeRow k₂ bs₂) ∧ TwoBlocks k₂ p q size₁.toNat size₂.toNat ∧
      ∀ a, InUse k a → k₂.mem a = k.mem a ∧
        (a.toNat < q.toNat ∨ q.toNat + usable k₂ q ≤ a.toNat) := by
  obtain ⟨bs₁, hs₁, -, hg₁⟩ := hs.malloc h₁ hp
  obtain ⟨bs₂, hs₂, -, hg₂⟩ := hs₁.malloc h₂ hq
  obtain ⟨hlive, husable⟩ := hg₂.others hg₁.live
  refine ⟨⟨bs₂, hs₂⟩, ⟨⟨hlive, ?_⟩, ⟨hg₂.live, (le_roundUp hsize₂).trans hg₂.room⟩, ?_⟩, ?_⟩
  · rw [husable]
    exact (le_roundUp hsize₁).trans hg₁.room
  · rintro rfl
    exact hg₂.fresh hg₁.live
  · intro a ha
    have ha₁ := hg₁.inUse ha
    exact ⟨(hg₂.kept ha₁).trans (hg₁.kept ha), hg₂.apart ha₁⟩

/-- Two calls of `malloc` come back. -/
theorem SafeRow.malloc_both_returns (hs : SafeRow k bs) (size₁ size₂ : BitVec 32) :
    ∃ fuel p k₁ q k₂, Kernel.malloc fuel size₁ k = some (p, k₁) ∧
      Kernel.malloc fuel size₂ k₁ = some (q, k₂) := by
  obtain ⟨⟨p, k₁⟩, h₁⟩ : ∃ r, Kernel.malloc (bs.length + 2) size₁ k = some r :=
    hs.toRow.malloc_comes_back size₁ (by omega)
  by_cases hp : p = 0
  · subst hp
    obtain ⟨rfl, -⟩ := hs.toRow.malloc_null h₁
    obtain ⟨⟨q, k₂⟩, h₂⟩ : ∃ r, Kernel.malloc (bs.length + 2) size₂ k₁ = some r :=
      hs.toRow.malloc_comes_back size₂ (by omega)
    exact ⟨_, _, _, _, _, h₁, h₂⟩
  · obtain ⟨bs₁, hs₁, hlen, -⟩ := hs.malloc h₁ hp
    obtain ⟨⟨q, k₂⟩, h₂⟩ : ∃ r, Kernel.malloc (bs.length + 2) size₂ k₁ = some r :=
      hs₁.toRow.malloc_comes_back size₂ (by omega)
    exact ⟨_, _, _, _, _, h₁, h₂⟩

/-! ### Stores into a block -/

/-- Stores into a live block leave the list alone. -/
theorem SafeRow.store (hs : SafeRow k bs) (hq : LiveBlock k q) {m : Memory}
    (hch : ChangedOnly k.mem m q.toNat (q.toNat + usable k q)) :
    SafeRow { k with mem := m } bs := by
  obtain ⟨t, hmem⟩ := hs.toRow.live_iff.mp hq
  obtain ⟨pre, b, post, rfl, -, haddr, hlen⟩ := mem_payloads_iff.mp hmem
  have hp : (q - headerLen).toNat = base + span recordSize pre := entry_toNat haddr
  dsimp only at haddr hlen
  have hf := hs.forward.changedOnly hp hch (by omega) (by omega)
  refine ⟨⟨hs.head, hf⟩, hs.backed.congr fun x hx => congrArg Hdr.prev ?_⟩
  have hbounds := place_bounds hx
  rw [hs.forward.span] at hbounds
  refine HeaderFormat.at_changedOnly hch (hbounds.2.trans (by decide)) ?_
  rcases places_apart hx (place_mem base pre post b) with heq | happart
  · exact .inl (by omega)
  · rw [places_append, places_cons, List.mem_append, List.mem_cons] at hx
    rcases hx with hx | hx | hx
    · have hpre := place_bounds hx
      exact .inl (by omega)
    · exact .inl (by omega)
    · have hpost := place_bounds hx
      exact .inr (by omega)

/-- And the live blocks stay live. -/
theorem SafeRow.live_store (hs : SafeRow k bs) (hq : LiveBlock k q) {m : Memory}
    (hch : ChangedOnly k.mem m q.toNat (q.toNat + usable k q)) (hr : LiveBlock k r) :
    LiveBlock { k with mem := m } r ∧ usable { k with mem := m } r = usable k r :=
  hs.toRow.live_transfer (hs.store hq hch).toRow (fun _ hx _ => hx) hr

/-! ### A block given back -/

/-- What is live after a block was given back: what was live before, but for its payload. -/
theorem mem_payloads_release {pre post bs' : List (Block ℕ)} {b : Block ℕ} {a : ℕ}
    {x : Payload ℕ} (hpay : payloads recordSize a bs' = payloads recordSize a pre ++
      payloads recordSize (a + span recordSize pre + recordSize + b.len) post) :
    x ∈ payloads recordSize a bs' ↔ x ∈ payloads recordSize a (pre ++ b :: post) ∧
      x.addr ≠ a + span recordSize pre + recordSize := by
  rw [hpay, payloads_append, payloads, List.mem_append, List.mem_append, List.mem_append,
    List.mem_map]
  constructor
  · intro hx
    exact ⟨hx.imp_right .inr, payload_ne (by decide) x (List.mem_append.mpr hx)⟩
  · rintro ⟨hx | ⟨t, -, rfl⟩ | hx, hne⟩
    · exact .inl hx
    · exact absurd rfl hne
    · exact .inr hx

/-- `free` gave `q` back: the block is not live any more, the other live blocks still are, with
the bytes that they had. -/
structure Released (k k' : KernelHeap) (q : Addr) : Prop where
  gone : ¬ LiveBlock k' q
  others : ∀ {r}, LiveBlock k r → r ≠ q → LiveBlock k' r ∧ usable k' r = usable k r
  kept : ∀ {r}, LiveBlock k r → ∀ a : Addr, r.toNat ≤ a.toNat →
    a.toNat < r.toNat + usable k r → k'.mem a = k.mem a

/-- `free` of a live block. -/
theorem SafeRow.free (hs : SafeRow k bs) (hq : LiveBlock k q) :
    ∃ bs', Row (Kernel.free q k) bs' ∧ Released k (Kernel.free q k) q := by
  obtain ⟨t, hmem⟩ := hs.toRow.live_iff.mp hq
  obtain ⟨pre, b, post, rfl, -, haddr, -⟩ := mem_payloads_iff.mp hmem
  have hp : (q - headerLen).toNat = base + span recordSize pre := entry_toNat haddr
  dsimp only at haddr
  -- where the link back leads
  have hback := hs.backed.link
  rw [← hp, mHeader.at_toNat, Set.empty_union, mem_usedPlaces_iff] at hback
  have hsafe : BackLinked (mergeNext (setUsed k.mem (q - headerLen) false) (q - headerLen)) pre
      (q - headerLen) := by
    refine backLinked_mergeNext hs.forward hp fun hne => ?_
    rcases hback with hlast | ⟨pre₁, c, pre₂, rfl, hat, hc⟩
    · rcases List.eq_nil_or_concat' pre with rfl | ⟨pre, c, rfl⟩
      · have hzero : (prev k.mem (q - headerLen)).toNat = (0 : Addr).toNat := hlast
        exact absurd (BitVec.eq_of_toNat_eq hzero) hne
      · rw [lastAddr_concat] at hlast
        exact ⟨pre, c, [], rfl, hlast, .inl rfl⟩
    · exact ⟨pre₁, c, pre₂, rfl, hat, .inr hc⟩
  obtain ⟨bs', hf', hpay, hheaders⟩ := free_forward hs.forward hp hsafe
  have hne : q ≠ 0 := ne_zero_of_pos (by rw [haddr, base]; omega)
  rw [← free_mem hne] at hf' hheaders
  have hr' : Row (Kernel.free q k) bs' := ⟨(free_head _ _).trans hs.head, hf'⟩
  refine ⟨bs', hr', ?_, ?_, ?_⟩
  · intro hlive
    obtain ⟨t', hmem'⟩ := hr'.live_iff.mp hlive
    exact ((mem_payloads_release hpay).mp hmem').2 haddr
  · intro r hr hrq
    refine hs.toRow.live_transfer hr' (fun x hx hxr => ?_) hr
    refine (mem_payloads_release hpay).mpr ⟨hx, fun hxq => hrq (BitVec.eq_of_toNat_eq ?_)⟩
    rw [← hxr, hxq, haddr]
  · intro r hr a hlo hhi
    obtain ⟨t', hmem'⟩ := hs.toRow.live_iff.mp hr
    exact hheaders.payload_eq hmem' hlo hhi

end Heap

/-! ### Room for two blocks -/

/-- The heap has room for a block of `n₁` bytes and then for one of `n₂` bytes: the first free
block that holds `n₁` bytes holds a header and `n₂` bytes more, or another free block holds `n₂`
bytes. -/
def HoldsBoth (k : KernelHeap) (n₁ n₂ : ℕ) : Prop :=
  ∃ pre b post, Row k (pre ++ b :: post) ∧ (b.tag = none ∧ n₁ ≤ b.len) ∧
    (∀ c ∈ pre, c.tag = none → c.len < n₁) ∧
    (n₁ + recordSize + n₂ ≤ b.len ∨ ∃ c ∈ pre ++ post, c.tag = none ∧ n₂ ≤ c.len)

section Room

variable {k k₁ k₂ : KernelHeap} {bs pre pre' post post' : List (Block ℕ)} {b b' : Block ℕ}
variable {q q₁ q₂ : Addr} {size size₁ size₂ : BitVec 32} {n fuel : ℕ}

/-- The first of the two blocks fits the arena. -/
theorem HoldsBoth.le_arena {n₁ n₂ : ℕ} (h : HoldsBoth k n₁ n₂) : n₁ ≤ arena := by
  obtain ⟨pre, b, post, hr, ⟨-, hfit⟩, -, -⟩ := h
  have hspan := hr.forward.span
  rw [span_append, span_cons] at hspan
  simp only [kernelArena] at hspan
  omega

/-- A list has one first free block that holds `n` bytes. -/
theorem first_unique (heq : pre ++ b :: post = pre' ++ b' :: post')
    (hb : b.tag = none ∧ n ≤ b.len) (hfirst : ∀ c ∈ pre, c.tag = none → c.len < n)
    (hb' : b'.tag = none ∧ n ≤ b'.len) (hfirst' : ∀ c ∈ pre', c.tag = none → c.len < n) :
    pre = pre' ∧ b = b' ∧ post = post' := by
  rcases List.append_eq_append_iff.mp heq with ⟨mid, rfl, hrest⟩ | ⟨mid, rfl, hrest⟩
  · cases mid with
    | nil =>
        obtain ⟨rfl, rfl⟩ := List.cons.inj hrest
        exact ⟨(List.append_nil pre).symm, rfl, rfl⟩
    | cons c mid =>
        obtain ⟨rfl, -⟩ := List.cons.inj hrest
        have hshort := hfirst' b (by simp) hb.1
        omega
  · cases mid with
    | nil =>
        obtain ⟨rfl, rfl⟩ := List.cons.inj hrest
        exact ⟨List.append_nil pre', rfl, rfl⟩
    | cons c mid =>
        obtain ⟨rfl, -⟩ := List.cons.inj hrest
        have hshort := hfirst b' (by simp) hb'.1
        omega

/-- What is left of a block that was taken holds `n` bytes when the block held a header and `n`
bytes more. -/
theorem exists_free_carve (b : Block ℕ) (size m n : ℕ) :
    (∃ c ∈ carve b size m, c.tag = none ∧ n ≤ c.len) ↔ size + recordSize + n ≤ b.len := by
  rw [carve]
  split_ifs with hroom
  · simp only [List.mem_cons, List.not_mem_nil, or_false, exists_eq_or_imp, reduceCtorEq,
      false_and, false_or, exists_eq_left, true_and]
    omega
  · simp only [List.mem_cons, List.not_mem_nil, or_false, exists_eq_left, reduceCtorEq, false_and,
      false_iff]
    omega

/-- A request that is not empty is granted when a free block holds it, rounded up. -/
theorem Row.malloc_ne_null_iff (hr : Row k bs) (hsize : size ≠ 0)
    (h : Kernel.malloc fuel size k = some (q, k₁)) :
    q ≠ 0 ↔ Holds k (roundUp size).toNat := by
  constructor
  · intro hne
    obtain ⟨-, -, -, -, -, hholds⟩ := hr.malloc_room h hne
    exact hholds
  · rintro hholds rfl
    obtain ⟨-, hzero | hnone⟩ := hr.malloc_null h
    · exact hsize hzero
    · exact hnone hholds

/-- Two calls of `malloc` are granted when the heap has room for both. -/
theorem Row.grants_both_iff (hr : Row k bs) (hsize₁ : size₁ ≠ 0) (hsize₂ : size₂ ≠ 0)
    (h₁ : Kernel.malloc fuel size₁ k = some (q₁, k₁))
    (h₂ : Kernel.malloc fuel size₂ k₁ = some (q₂, k₂)) :
    (q₁ ≠ 0 ∧ q₂ ≠ 0) ↔ HoldsBoth k (roundUp size₁).toNat (roundUp size₂).toNat := by
  -- once the first block is taken, what the rest of the list holds
  have hsecond : ∀ {pre post b}, Row k₁ (pre ++ (carve b (roundUp size₁).toNat size₁.toNat ++ post)) →
      (q₂ ≠ 0 ↔ (roundUp size₁).toNat + recordSize + (roundUp size₂).toNat ≤ b.len ∨
        ∃ c ∈ pre ++ post, c.tag = none ∧ (roundUp size₂).toNat ≤ c.len) := by
    intro pre post b hr₁
    rw [hr₁.malloc_ne_null_iff hsize₂ h₂, hr₁.holds_iff, ← exists_free_carve b _ size₁.toNat]
    simp only [List.mem_append, or_and_right, exists_or]
    exact or_left_comm
  constructor
  · rintro ⟨hne₁, hne₂⟩
    rcases hr.malloc h₁ with ⟨rfl, -⟩ | ⟨pre, b, post, rfl, hfree, -, hfit, -, hr₁, -, -, hfirst⟩
    · exact absurd rfl hne₁
    · exact ⟨pre, b, post, hr, ⟨hfree, hfit⟩, hfirst, (hsecond hr₁).mp hne₂⟩
  · rintro ⟨pre, b, post, hr, hb, hfirst, hroom⟩
    rcases hr.malloc h₁ with
      ⟨-, -, hnone⟩ | ⟨pre', b', post', heq, hfree, -, hfit, hq, hr₁, -, -, hfirst'⟩
    · have hshort := hnone.resolve_left hsize₁ b (by simp) hb.1
      omega
    · obtain ⟨rfl, rfl, rfl⟩ := first_unique heq hb hfirst ⟨hfree, hfit⟩ hfirst'
      exact ⟨ne_zero_of_pos (by rw [hq, base]; omega), (hsecond hr₁).mpr hroom⟩

/-- The heap that `k_init_mem` leaves has room for all that fits into its one block. -/
theorem start_holdsBoth (m : Memory) {n₁ n₂ : ℕ} (hfit : n₁ + recordSize + n₂ ≤ arena - recordSize) :
    HoldsBoth (Session.start m).heap n₁ n₂ := by
  have hl := start_layout m
  refine ⟨[], ⟨arena - recordSize, none⟩, [], ⟨hl.head, hl.shape.tiling.forward⟩, ⟨rfl, ?_⟩,
    List.forall_mem_nil _, .inl hfit⟩
  dsimp only
  omega

end Room

end B2OS.Kernel
