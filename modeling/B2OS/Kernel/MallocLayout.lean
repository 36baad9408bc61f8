import B2OS.Kernel.MallocInv

/-!
# The Layout of the Kernel Heap

A client of the heap knows its live pointers and the bytes it asked for at each of them. The
allocator knows the list of its blocks. `Layout` ties the two together: the blocks in use are those
of the live pointers. Here is what one call, and one write of the client, does to it.
-/

namespace B2OS.Kernel

open ByteMemory BlockChain

/-! ### The functions on a heap with owners -/

/-- The invariant of the allocator: the heap has its shape with the blocks `bs`, of which
those in use belong to the live pointers, and no two neighbours are both free. -/
structure Layout (k : KernelHeap) (live : ℕ → Option ℕ) (bs : List (Block ℕ)) : Prop where
  head : k.head = gMemory
  shape : Shape k.mem bs
  owned : Owned live (payloads recordSize base bs)
  coalesced : Coalesced bs

/-- A request whose block `malloc` takes from the middle of the list, and splits. -/
def SplitsMiddle (k : KernelHeap) (size : BitVec 32) : Prop :=
  size ≠ 0 ∧ ∃ fuel ptr, findFit k.mem (roundUp size) fuel k.head = some ptr ∧ ptr ≠ 0 ∧
    roundUp size + headerLen ≤ length k.mem ptr ∧ next k.mem ptr ≠ 0

/-- The bytes of payload that `takeBlock` gives out. -/
def taken (m : Memory) (size : BitVec 32) (ptr : Addr) : ℕ :=
  if size + headerLen ≤ length m ptr then size.toNat else (length m ptr).toNat

/-- The live pointers after `ptr` was returned for a request of `n` bytes. -/
def grant (live : ℕ → Option ℕ) (ptr : Addr) (n : ℕ) : ℕ → Option ℕ :=
  if ptr = 0 then live else Function.update live ptr.toNat (some n)

section Layout

variable {k k' : KernelHeap} {live : ℕ → Option ℕ} {bs : List (Block ℕ)}

theorem Layout.ne_nil (hl : Layout k live bs) : bs ≠ [] := by
  rintro rfl
  have hspan := hl.shape.span
  simp [arena] at hspan

theorem Layout.head_toNat (hl : Layout k live bs) : k.head.toNat = link base 0 bs := by
  rw [hl.head]
  cases bs with
  | nil => exact absurd rfl hl.ne_nil
  | cons b bs => rfl

/-- A live pointer is the payload of a block. -/
theorem Layout.block (hl : Layout k live bs) {x n : ℕ} (hx : live x = some n) :
    ∃ pre b post, bs = pre ++ b :: post ∧ b.tag = some n ∧
      x = base + span recordSize pre + recordSize ∧
      ⟨x, b.len, n⟩ ∈ payloads recordSize base bs :=
  Owned.block (A := kernelArena) hl.owned hx

theorem Layout.live_zero (hl : Layout k live bs) : live 0 = none :=
  Owned.live_zero (A := kernelArena) hl.owned

/-- The header of a live pointer. -/
theorem entry_toNat {ptr : Addr} {a : ℕ} (h : ptr.toNat = base + a + recordSize) :
    (ptr - headerLen).toNat = base + a :=
  toNat_sub_record rfl h

/-- `free` of a live pointer gives its block back, and puts no other payload into use. -/
theorem Layout.release (hl : Layout k live bs) {ptr : Addr} {n : ℕ}
    (hlive : live ptr.toNat = some n) :
    ∃ bs', Layout (free ptr k) (Function.update live ptr.toNat none) bs' ∧
      ∀ x ∈ payloads recordSize base bs', x ∈ payloads recordSize base bs := by
  obtain ⟨pre, b, post, rfl, htag, haddr, -⟩ := hl.block hlive
  have hne : ptr ≠ 0 := ne_zero_of_pos (by rw [haddr, base]; omega)
  obtain ⟨bs', hshape, hpay, hco⟩ := free_shape hl.shape (entry_toNat haddr)
  have howned := hl.owned
  rw [payloads_append, payloads, htag] at howned
  refine ⟨bs', ⟨?_, ?_, ?_, hco hl.coalesced⟩, ?_⟩
  · rw [free_head]
    exact hl.head
  · rw [free_mem hne]
    exact hshape
  · rw [hpay, haddr]
    exact howned.release (payload_ne (by decide))
  · intro x hx
    rw [hpay] at hx
    rw [payloads_append, payloads]
    rcases List.mem_append.mp hx with hx | hx
    · exact List.mem_append_left _ hx
    · exact List.mem_append_right _ (List.mem_append_right _ hx)

/-- `free` of a live pointer keeps the layout. -/
theorem Layout.free (hl : Layout k live bs) {ptr : Addr} {n : ℕ}
    (hlive : live ptr.toNat = some n) :
    ∃ bs', Layout (Kernel.free ptr k) (Function.update live ptr.toNat none) bs' := by
  obtain ⟨bs', hl', -⟩ := hl.release hlive
  exact ⟨bs', hl'⟩

/-- `malloc` answers `NULL` and changes nothing, or takes the block that the search found. -/
theorem malloc_cases {size : BitVec 32} {fuel : ℕ} {ptr : Addr}
    (h : Kernel.malloc fuel size k = some (ptr, k')) :
    (ptr = 0 ∧ k' = k) ∨
      ∃ r, size ≠ 0 ∧ findFit k.mem (roundUp size) fuel k.head = some r ∧ r ≠ 0 ∧
        ptr = r + headerLen ∧ k' = { k with mem := takeBlock k.mem (roundUp size) r } := by
  rw [Kernel.malloc] at h
  split_ifs at h with hzero
  · obtain ⟨rfl, rfl⟩ := Prod.mk.inj (Option.some.inj h)
    exact .inl ⟨rfl, rfl⟩
  obtain ⟨r, hfind, hr⟩ := Option.map_eq_some_iff.mp h
  by_cases hnull : r = 0
  · rw [if_pos hnull] at hr
    obtain ⟨rfl, rfl⟩ := Prod.mk.inj hr
    exact .inl ⟨rfl, rfl⟩
  · rw [if_neg hnull] at hr
    obtain ⟨rfl, rfl⟩ := Prod.mk.inj hr
    exact .inr ⟨r, hzero, hfind, hnull, rfl, rfl⟩

/-- Taking the block that the search found grants a new pointer, and adds its payload to
those in use. -/
theorem Layout.take (hl : Layout k live bs) {size : BitVec 32} {fuel : ℕ} {r : Addr}
    (hzero : size ≠ 0) (hsafe : ¬ SplitsMiddle k size)
    (hfind : findFit k.mem (roundUp size) fuel k.head = some r) (hnull : r ≠ 0) :
    base ≤ r.toNat ∧ (r + headerLen).toNat = r.toNat + recordSize ∧
      live (r + headerLen).toNat = none ∧
      ∃ bs', Layout { k with mem := takeBlock k.mem (roundUp size) r }
          (Function.update live (r + headerLen).toNat (some size.toNat)) bs' ∧
        ∀ x ∈ payloads recordSize base bs', x ∈ payloads recordSize base bs ∨
          (x.addr = r.toNat + recordSize ∧ x.len = taken k.mem (roundUp size) r) := by
  obtain hr0 | ⟨pre, b, post, rfl, hrat, hfree, hfit⟩ :=
    findFit_cases hl.shape.chain (by decide) hl.head_toNat hfind
  · exact absurd hr0 hnull
  obtain ⟨htop, -⟩ := hl.shape.bounds hrat
  obtain ⟨-, hnext, hlen, -⟩ := hl.shape.header hrat
  have hheader : headerLen.toNat = 16 := rfl
  have hptr : (r + headerLen).toNat = base + span recordSize pre + recordSize := by
    rw [BitVec.toNat_add, hheader, hrat]
    simp only [base, arena, recordSize] at *
    omega
  have howned := hl.owned
  have hpay : payloads recordSize base (pre ++ b :: post) = payloads recordSize base pre ++
      payloads recordSize (base + span recordSize pre + recordSize + b.len) post := by
    rw [payloads_append, payloads_free _ _ _ hfree]
  rw [hpay] at howned ⊢
  refine ⟨by omega, by rw [hptr, hrat], ?_, ?_⟩
  · cases hx : live (r + headerLen).toNat with
    | none => rfl
    | some n =>
        obtain ⟨len, hmem⟩ := (howned _ _).mp hx
        exact absurd hptr (payload_ne (by decide) _ hmem)
  by_cases hsplit : roundUp size + headerLen ≤ length k.mem r
  · have hpost : post = [] := by
      cases post with
      | nil => rfl
      | cons c post =>
          refine absurd ⟨hzero, fuel, r, hfind, hnull, hsplit, ne_zero_of_pos ?_⟩ hsafe
          rw [hnext, link_cons, recordSize]
          omega
    subst hpost
    have hroom : (roundUp size).toNat + recordSize ≤ b.len := by
      have hle := BitVec.le_def.mp hsplit
      rw [hlen, BitVec.toNat_add, hheader] at hle
      rw [recordSize]
      simp only [base, arena, recordSize] at htop
      omega
    refine ⟨_, ⟨hl.head, hl.shape.split hrat hroom (roundUp_mod size) le_roundUp, ?_, ?_⟩, ?_⟩
    · rw [payloads_append, hptr]
      exact howned.alloc (payload_ne (by decide))
    · exact hl.coalesced.replace_last hfree ⟨.inl rfl, trivial⟩
    · intro x hx
      rw [payloads_append] at hx
      rcases List.mem_append.mp hx with hx | hx
      · exact .inl (List.mem_append_left _ hx)
      · obtain rfl := List.mem_singleton.mp hx
        exact .inr ⟨by rw [hrat], by rw [taken, if_pos hsplit]⟩
  · have htake : takeBlock k.mem (roundUp size) r = setUsed k.mem r true := by
      rw [takeBlock, if_neg hsplit]
    refine ⟨pre ++ ⟨b.len, some size.toNat⟩ :: post, ⟨hl.head, ?_, ?_, ?_⟩, ?_⟩
    · dsimp only
      rw [htake]
      exact hl.shape.setTaken hrat fun hle => (le_roundUp hle).trans hfit
    · rw [payloads_append, hptr]
      exact howned.alloc (payload_ne (by decide))
    · exact hl.coalesced.replace_used rfl
    · intro x hx
      rw [payloads_append] at hx
      rcases List.mem_append.mp hx with hx | hx
      · exact .inl (List.mem_append_left _ hx)
      · rcases List.mem_cons.mp hx with rfl | hx
        · exact .inr ⟨by rw [hrat], by rw [taken, if_neg hsplit, hlen]⟩
        · exact .inl (List.mem_append_right _ hx)

/-- `malloc` answers `NULL` and changes nothing, or grants a new pointer. -/
theorem Layout.malloc (hl : Layout k live bs) {size : BitVec 32} {fuel : ℕ} {ptr : Addr}
    (hsafe : ¬ SplitsMiddle k size) (h : malloc fuel size k = some (ptr, k')) :
    (ptr = 0 ∧ k' = k) ∨ (ptr ≠ 0 ∧ live ptr.toNat = none ∧
      ∃ bs', Layout k' (Function.update live ptr.toNat (some size.toNat)) bs') := by
  rcases malloc_cases h with hnone | ⟨r, hzero, hfind, hnull, rfl, rfl⟩
  · exact .inl hnone
  · obtain ⟨-, hptr, hnew, bs', hl', -⟩ := hl.take hzero hsafe hfind hnull
    exact .inr ⟨ne_zero_of_pos (by rw [hptr, recordSize]; omega), hnew, bs', hl'⟩

/-- `malloc` ends. -/
theorem Layout.malloc_returns (hl : Layout k live bs) (size : BitVec 32) :
    ∃ fuel r, Kernel.malloc fuel size k = some r := by
  obtain ⟨r, hr⟩ : ∃ r, findFit k.mem (roundUp size) (bs.length + 1) k.head = some r :=
    findFit_returns hl.shape.chain.links (by decide) hl.head_toNat (Nat.lt_succ_self _)
  by_cases hzero : size = 0
  · exact ⟨0, (0, k), by rw [Kernel.malloc, if_pos hzero]⟩
  · refine ⟨bs.length + 1, Option.isSome_iff_exists.mp ?_⟩
    rw [Kernel.malloc, if_neg hzero, Option.isSome_map, hr]
    rfl

/-- Stores into a payload in use keep the layout. -/
theorem Layout.write (hl : Layout k live bs) {x : Payload ℕ} {m' : Memory}
    (hx : x ∈ payloads recordSize base bs)
    (hch : ChangedOnly k.mem m' x.addr (x.addr + x.len)) :
    Layout { k with mem := m' } live bs where
  head := hl.head
  shape := ⟨hl.shape.tiling.changedOnly hx hch, hl.shape.sized⟩
  owned := hl.owned
  coalesced := hl.coalesced

/-- What the memory shows of a live pointer: its header is in use, and the payload that
the header gives it lies in the arena and holds the request. -/
theorem Layout.entry (hl : Layout k live bs) {ptr : Addr} {n : ℕ}
    (hlive : live ptr.toNat = some n) :
    used k.mem (ptr - headerLen) ∧ ptr.toNat % 4 = 0 ∧ base + recordSize ≤ ptr.toNat ∧
      ptr.toNat + (length k.mem (ptr - headerLen)).toNat ≤ base + arena ∧
      (n ≤ maxRequest → n ≤ (length k.mem (ptr - headerLen)).toNat) ∧
      ⟨ptr.toNat, (length k.mem (ptr - headerLen)).toNat, n⟩ ∈
        payloads recordSize base bs := by
  obtain ⟨pre, b, post, rfl, htag, haddr, hmem⟩ := hl.block hlive
  obtain ⟨-, -, hlen, hused⟩ := hl.shape.header (entry_toNat haddr)
  obtain ⟨htop, -⟩ := hl.shape.bounds (entry_toNat haddr)
  obtain ⟨hpre, hsized, -⟩ := forall_mem_middle.mp hl.shape.sized
  rw [hlen]
  refine ⟨by rw [hused, htag]; rfl, ?_, by omega, ?_, hsized.2 n htag, hmem⟩
  · have h4 := span_mod_four hpre
    simp only [base, recordSize] at *
    omega
  · rw [entry_toNat haddr] at htop
    omega

/-- Stores into the bytes of a live pointer keep the layout. -/
theorem Layout.write_live (hl : Layout k live bs) {ptr : Addr} {n N : ℕ} {m' : Memory}
    (hlive : live ptr.toNat = some n)
    (hN : N ≤ (length k.mem (ptr - headerLen)).toNat)
    (hch : ChangedOnly k.mem m' ptr.toNat (ptr.toNat + N)) :
    Layout { k with mem := m' } live bs := by
  obtain ⟨-, -, -, -, -, hmem⟩ := hl.entry hlive
  exact hl.write hmem (hch.mono le_rfl (Nat.add_le_add_left hN _))

end Layout

/-! ### The loops -/

theorem memsetFrom_changedOnly {ptr : Addr} (value : BitVec 8) {N : ℕ}
    (hptr : ptr.toNat + N ≤ 2 ^ 32) :
    ∀ (n i : ℕ) (m : Memory), i + n ≤ N →
      ChangedOnly m (memsetFrom ptr value n i m) ptr.toNat (ptr.toNat + N) := by
  intro n
  induction n with
  | zero => exact fun i m _ => .refl m _ _
  | succ n ih =>
      intro i m hi
      have haddr := toNat_add_lt (k := i) hptr (by omega)
      have hstore := ChangedOnly.store8 m (ptr + BitVec.ofNat 32 i) value
      rw [haddr] at hstore
      exact (hstore.mono (by omega) (by omega)).trans (ih (i + 1) _ (by omega))

theorem memset_changedOnly (m : Memory) {ptr : Addr} (value : BitVec 8) {size : BitVec 32}
    (h : ptr.toNat + size.toNat ≤ 2 ^ 32) :
    ChangedOnly m (memset m ptr value size) ptr.toNat (ptr.toNat + size.toNat) :=
  memsetFrom_changedOnly value h size.toNat 0 m (by omega)

/-- What the loop of `memset` leaves, also where it wraps around the address space. -/
theorem memsetFrom_apply {ptr x : Addr} (value : BitVec 8) :
    ∀ (n i : ℕ) (m : Memory), i + n ≤ 2 ^ 32 → memsetFrom ptr value n i m x =
      if i ≤ (x - ptr).toNat ∧ (x - ptr).toNat < i + n then value else m x := by
  intro n
  induction n with
  | zero =>
      intro i m _
      rw [if_neg (by omega)]
      rfl
  | succ n ih =>
      intro i m hi
      rw [memsetFrom, ih (i + 1) _ (by omega)]
      have hat : x = ptr + BitVec.ofNat 32 i ↔ (x - ptr).toNat = i := by
        have hnat : (BitVec.ofNat 32 i).toNat = i := by
          rw [BitVec.toNat_ofNat, Nat.mod_eq_of_lt (by omega)]
        rw [← hnat, ← BitVec.toNat_eq, hnat, BitVec.sub_eq_iff_eq_add, add_comm]
      by_cases hx : (x - ptr).toNat = i
      · rw [if_neg (by omega), if_pos (by omega), hat.mpr hx, store8_self]
      · rw [store8_of_ne fun h => hx (hat.mp h)]
        split_ifs <;> first | rfl | omega

theorem memset_apply (m : Memory) (ptr : Addr) (value : BitVec 8) (size : BitVec 32) (x : Addr) :
    memset m ptr value size x = if (x - ptr).toNat < size.toNat then value else m x := by
  rw [memset, memsetFrom_apply value _ _ _ (by have hsize := size.isLt; omega)]
  simp

theorem memcpyFrom_changedOnly {dst : Addr} (src : Addr) {N : ℕ}
    (hdst : dst.toNat + N ≤ 2 ^ 32) :
    ∀ (n i : ℕ) (m : Memory), i + n ≤ N →
      ChangedOnly m (memcpyFrom dst src n i m) dst.toNat (dst.toNat + N) := by
  intro n
  induction n with
  | zero => exact fun i m _ => .refl m _ _
  | succ n ih =>
      intro i m hi
      have haddr := toNat_add_lt (k := i) hdst (by omega)
      have hstore := ChangedOnly.store8 m (dst + BitVec.ofNat 32 i)
        (m (src + BitVec.ofNat 32 i))
      rw [haddr] at hstore
      exact (hstore.mono (by omega) (by omega)).trans (ih (i + 1) _ (by omega))

theorem memcpy_changedOnly (m : Memory) {dst : Addr} (src : Addr) {size : BitVec 32}
    (h : dst.toNat + size.toNat ≤ 2 ^ 32) :
    ChangedOnly m (memcpy m dst src size) dst.toNat (dst.toNat + size.toNat) :=
  memcpyFrom_changedOnly src h size.toNat 0 m (by omega)

/-- A copy to bytes apart from its source. -/
theorem memcpyFrom_apply {dst src : Addr} {N : ℕ} (hdst : dst.toNat + N ≤ 2 ^ 32)
    (hsrc : src.toNat + N ≤ 2 ^ 32)
    (hapart : src.toNat + N ≤ dst.toNat ∨ dst.toNat + N ≤ src.toNat) {j : ℕ} (hj : j < N) :
    ∀ (n i : ℕ) (m : Memory), i + n ≤ N →
      memcpyFrom dst src n i m (dst + BitVec.ofNat 32 j) =
        if i ≤ j ∧ j < i + n then m (src + BitVec.ofNat 32 j)
        else m (dst + BitVec.ofNat 32 j) := by
  have hdstj := toNat_add_lt hdst hj
  have hsrcj := toNat_add_lt hsrc hj
  intro n
  induction n with
  | zero =>
      intro i m _
      rw [if_neg (by omega)]
      rfl
  | succ n ih =>
      intro i m hi
      have hdsti := toNat_add_lt (k := i) hdst (by omega)
      have hne : src + BitVec.ofNat 32 j ≠ dst + BitVec.ofNat 32 i := by
        intro heq
        have hnat := congrArg BitVec.toNat heq
        omega
      rw [memcpyFrom, ih (i + 1) _ (by omega), store8_of_ne hne]
      by_cases hij : j = i
      · subst hij
        rw [if_neg (by omega), if_pos (by omega), store8_self]
      · have hne' : dst + BitVec.ofNat 32 j ≠ dst + BitVec.ofNat 32 i := by
          intro heq
          have hnat := congrArg BitVec.toNat heq
          omega
        rw [store8_of_ne hne']
        split_ifs <;> first | rfl | omega

/-- What a copy to bytes apart from its source leaves there. -/
theorem memcpy_apply (m : Memory) {dst src : Addr} {size : BitVec 32} {j : ℕ}
    (hdst : dst.toNat + size.toNat ≤ 2 ^ 32) (hsrc : src.toNat + size.toNat ≤ 2 ^ 32)
    (hapart : src.toNat + size.toNat ≤ dst.toNat ∨ dst.toNat + size.toNat ≤ src.toNat)
    (hj : j < size.toNat) :
    memcpy m dst src size (dst + BitVec.ofNat 32 j) = m (src + BitVec.ofNat 32 j) := by
  rw [memcpy, memcpyFrom_apply hdst hsrc hapart hj _ _ _ (by omega), if_pos (by omega)]

/-! ### `calloc` and `realloc` -/

section Layout

variable {k k' : KernelHeap} {live : ℕ → Option ℕ} {bs : List (Block ℕ)}

/-- `malloc` grants a pointer or `NULL`. -/
theorem Layout.malloc_grant (hl : Layout k live bs) {size : BitVec 32} {fuel : ℕ}
    {ptr : Addr} (hsafe : ¬ SplitsMiddle k size)
    (h : Kernel.malloc fuel size k = some (ptr, k')) :
    ∃ bs', Layout k' (grant live ptr size.toNat) bs' := by
  rcases hl.malloc hsafe h with ⟨rfl, rfl⟩ | ⟨hne, -, bs', hl'⟩
  · exact ⟨bs, by rwa [grant, if_pos rfl]⟩
  · exact ⟨bs', by rwa [grant, if_neg hne]⟩

/-- A pointer granted for `n` bytes is live, and the bytes end below the address space. -/
theorem Layout.granted {ptr : Addr} {n : ℕ} (hl : Layout k (grant live ptr n) bs)
    (hne : ptr ≠ 0) (hn : n ≤ maxRequest) :
    grant live ptr n ptr.toNat = some n ∧
      n ≤ (length k.mem (ptr - headerLen)).toNat ∧ ptr.toNat + n ≤ 2 ^ 32 := by
  have hlive : grant live ptr n ptr.toNat = some n := by
    rw [grant, if_neg hne, Function.update_self]
  obtain ⟨-, -, -, htop, hle, -⟩ := hl.entry hlive
  have hlen := hle hn
  simp only [base, arena] at htop
  exact ⟨hlive, hlen, by omega⟩

/-- `calloc` grants a pointer or `NULL`, when the product does not overflow. -/
theorem Layout.calloc (hl : Layout k live bs) {num size : BitVec 32} {fuel : ℕ}
    {ptr : Addr} (hsize : num.toNat * size.toNat ≤ maxRequest)
    (hsafe : ¬ SplitsMiddle k (num * size))
    (h : Kernel.calloc fuel num size k = some (ptr, k')) :
    ∃ bs', Layout k' (grant live ptr (num.toNat * size.toNat)) bs' := by
  have hprod : (num * size).toNat = num.toNat * size.toNat := by
    rw [BitVec.toNat_mul, Nat.mod_eq_of_lt]
    rw [maxRequest] at hsize
    omega
  obtain ⟨⟨buf, k₁⟩, hmalloc, hr⟩ := Option.map_eq_some_iff.mp h
  obtain ⟨bs₁, hl₁⟩ := hl.malloc_grant hsafe hmalloc
  rw [← hprod]
  by_cases hnull : buf = 0
  · simp only [hnull, ne_eq, not_true_eq_false, if_false, Prod.mk.injEq] at hr
    obtain ⟨rfl, rfl⟩ := hr
    exact ⟨bs₁, by rwa [hnull] at hl₁⟩
  · simp only [ne_eq, hnull, not_false_eq_true, if_true, Prod.mk.injEq] at hr
    obtain ⟨rfl, rfl⟩ := hr
    obtain ⟨hlive, hlen, htop⟩ := hl₁.granted hnull (by rwa [hprod])
    exact ⟨bs₁, hl₁.write_live hlive hlen (memset_changedOnly _ 0 htop)⟩

/-- `realloc` copies no more than it was asked for. -/
theorem minSize_le (size origSize : BitVec 32) :
    (if size > origSize then origSize else size).toNat ≤ size.toNat := by
  split_ifs with h
  · exact (BitVec.lt_def.mp h).le
  · exact le_rfl

/-- `realloc` moves the payload to a new pointer and gives the old one back, or answers
`NULL` and keeps it. -/
theorem Layout.realloc (hl : Layout k live bs) {size : BitVec 32} {fuel : ℕ}
    {ptr q : Addr} (hlive : ptr = 0 ∨ ∃ n, live ptr.toNat = some n)
    (hsize : size.toNat ≤ maxRequest) (hsafe : ¬ SplitsMiddle k size)
    (h : Kernel.realloc fuel ptr size k = some (q, k')) :
    ∃ bs', Layout k' (if q = 0 then live
      else grant (Function.update live ptr.toNat none) q size.toNat) bs' := by
  rw [Kernel.realloc] at h
  split_ifs at h with hptr
  · obtain ⟨bs', hl'⟩ := hl.malloc_grant hsafe h
    have hnone : Function.update live ptr.toNat none = live := by
      rw [hptr]
      exact Function.update_eq_self_iff.mpr hl.live_zero.symm
    rw [hnone]
    refine ⟨bs', ?_⟩
    split_ifs with hq
    · rwa [grant, if_pos hq] at hl'
    · exact hl'
  obtain ⟨⟨buf, k₁⟩, hmalloc, hr⟩ := Option.map_eq_some_iff.mp h
  rcases hl.malloc hsafe hmalloc with ⟨rfl, rfl⟩ | ⟨hne, hfresh, bs₁, hl₁⟩
  · simp only [if_true, Prod.mk.injEq] at hr
    obtain ⟨rfl, rfl⟩ := hr
    exact ⟨bs, by rwa [if_pos rfl]⟩
  obtain ⟨n, hn⟩ : ∃ n, live ptr.toNat = some n := by
    rcases hlive with h0 | hn
    · exact absurd h0 hptr
    · exact hn
  have hother : ptr.toNat ≠ buf.toNat := by
    intro heq
    rw [heq, hfresh] at hn
    cases hn
  simp only [if_neg hne, Prod.mk.injEq] at hr
  obtain ⟨rfl, rfl⟩ := hr
  -- The copy goes into the bytes that were just granted.
  have hgrant : grant live buf size.toNat = Function.update live buf.toNat
      (some size.toNat) := if_neg hne
  rw [← hgrant] at hl₁
  obtain ⟨hbuf, hlen, htop⟩ := hl₁.granted hne hsize
  have hptr₁ : grant live buf size.toNat ptr.toNat = some n := by
    rw [hgrant, Function.update_of_ne hother, hn]
  have hmin := minSize_le size (length k₁.mem (ptr - headerLen))
  have hcopy := memcpy_changedOnly k₁.mem ptr ((Nat.add_le_add_left hmin _).trans htop)
  have hl₂ := hl₁.write_live hbuf (hmin.trans hlen) hcopy
  obtain ⟨bs', hl'⟩ := hl₂.free hptr₁
  refine ⟨bs', ?_⟩
  rw [if_neg hne, grant, if_neg hne, Function.update_comm hother, ← hgrant]
  exact hl'

end Layout

end B2OS.Kernel
