import B2OS.Kernel.Malloc
import B2OS.Lib.Run

/-!
# The Kernel's `heap_alloc`

This module embeds the allocator of `Src/memory/heap.c`: the chain of blocks that starts at
the constant `first_block`, `heap_init`, `heap_alloc`, `heap_free` and `heap_calloc`.

The allocator keeps nothing but its headers, so its state is the memory. The loop of
`heap_alloc` follows links; it takes `fuel`, and answers `none` when it has not ended by
then. It ends with a block, or at the end of the chain, where the source panics and does
not come back.
-/

namespace B2OS.Heap

open ByteMemory B2OS.Kernel

/-- `HEAP_START`. -/
def HEAP_START : Addr := 0xA00000

def HEAP_SIZE : BitVec 32 := 0x3200000

/-- `sizeof(Block)`. -/
def blockSize : BitVec 32 := 16

def firstBlock : Addr := HEAP_START

/-! ### The fields of `struct Block` -/

section Fields

variable (m : Memory) (blk : Addr)

def next : Addr := (record m blk).word0
def prev : Addr := (record m blk).word1
def sz : BitVec 32 := (record m blk).word2
def isFree : Bool := (record m blk).flag

def setNext (v : Addr) : Memory := setWord0 m blk v
def setPrev (v : Addr) : Memory := setWord1 m blk v
def setSz (v : BitVec 32) : Memory := setWord2 m blk v
def setFree (b : Bool) : Memory := setFlag m blk b

/-- `*blk = (Block){ .next = .., .prev = .., .sz = .., .free = .. }`. -/
def setBlock (r : Record) : Memory :=
  setFree (setSz (setPrev (setNext m blk r.word0) blk r.word1) blk r.word2) blk r.flag

/-- `HEADER_TO_PTR(blk)`. -/
def headerToPtr : Addr := blk + blockSize

end Fields

/-! ### The functions of `heap.c` -/

def heapInit (m : Memory) : Memory :=
  let m := memset m HEAP_START 0 HEAP_SIZE
  setBlock m firstBlock ⟨0, 0, HEAP_SIZE - blockSize, true⟩

/-- `sz_pad`: the bytes from the payload of `blk` to the next multiple of `align`. -/
def szPad (align : BitVec 32) (blk : Addr) : BitVec 32 :=
  if headerToPtr blk % align ≠ 0 then align - headerToPtr blk % align else 0

/-- The search of `heap_alloc`, from `blk` on: `some blk` for the block that the body goes
on with, and `none` when the chain ends before. The test of the padded size goes on without
a look at the link. -/
def findBlock (m : Memory) (size align : BitVec 32) : ℕ → Addr → Option (Option Addr)
  | 0, _ => none
  | fuel + 1, blk =>
      if !isFree m blk ∨ sz m blk < size + blockSize then
        if next m blk = 0 then some none
        else findBlock m size align fuel (next m blk)
      else if szPad align blk ≠ 0 ∧ sz m blk - szPad align blk < size then
        findBlock m size align fuel (next m blk)
      else some (some blk)

/-- Move the header of `blk` up by `pad` bytes, which go to the previous block. -/
def moveBlock (m : Memory) (blk : Addr) (pad : BitVec 32) : Memory :=
  let tmp := record m blk
  let m := memset m blk 0 blockSize
  let blk := blk + pad
  let m := setBlock m blk tmp
  let m := setSz m blk (sz m blk - pad)
  let m :=
    if prev m blk ≠ 0 then
      let m := setSz m (prev m blk) (sz m (prev m blk) + pad)
      setNext m (prev m blk) blk
    else m
  if next m blk ≠ 0 then setPrev m (next m blk) blk else m

/-- Give the first `size` bytes of `blk` away, with a new block behind them. -/
def cutBlock (m : Memory) (blk : Addr) (size : BitVec 32) : Memory :=
  let newBlk := headerToPtr blk + size
  let m := setBlock m newBlk ⟨next m blk, blk, sz m blk - size - blockSize, true⟩
  let m := setNext m blk newBlk
  let m := setSz m blk size
  setFree m blk false

/-- The body of `heap_alloc` on the block that the search found. -/
def takeBlock (m : Memory) (size align : BitVec 32) (blk : Addr) : Addr × Memory :=
  let pad := szPad align blk
  let m := if pad ≠ 0 then moveBlock m blk pad else m
  let blk := blk + pad
  (headerToPtr blk, cutBlock m blk size)

/-- `heap_alloc`, with `none` for the pointer when it panics. -/
def heapAlloc (fuel : ℕ) (size align : BitVec 32) (m : Memory) :
    Option (Option (Addr × Memory)) :=
  (findBlock m size align fuel firstBlock).map fun found =>
    found.map fun blk => takeBlock m size align blk

/-- The first merge of `heap_free`: swallow the next block when it is free. -/
def mergeNext (m : Memory) (blk : Addr) : Memory :=
  if next m blk ≠ 0 ∧ isFree m (next m blk) then
    let m := setSz m blk (sz m blk + (blockSize + sz m (next m blk)))
    let m := if next m (next m blk) ≠ 0 then setPrev m (next m (next m blk)) blk else m
    setNext m blk (next m (next m blk))
  else m

/-- The second merge of `heap_free`: let the previous block swallow this one when it is
free. The block that `heap_free` goes on with is the second answer. -/
def mergePrev (m : Memory) (blk : Addr) : Memory × Addr :=
  if prev m blk ≠ 0 ∧ isFree m (prev m blk) then
    let m := setSz m (prev m blk) (sz m (prev m blk) + (blockSize + sz m blk))
    let m := if next m blk ≠ 0 then setPrev m (next m blk) (prev m blk) else m
    let m := setNext m (prev m blk) (next m blk)
    (m, prev m blk)
  else (m, blk)

def heapFree (ptr : Addr) (m : Memory) : Memory :=
  if ptr = 0 then m
  else
    let blk := ptr - blockSize
    let (m, blk) := mergePrev (mergeNext m blk) blk
    setFree m blk true

/-- The loop `for (i = 0; i < n; i++) casted[i] = 0` over items of `width` bytes; `store` stores
one of them. -/
def zeroItems (width : ℕ) (store : Memory → Addr → Memory) (casted : Addr) (n : BitVec 32) :
    Memory → Memory :=
  forUpTo (fun i m => store m (casted + BitVec.ofNat 32 (width * i))) n.toNat

/-- `heap_calloc`, with `none` for the pointer when its call of `heap_alloc` panics. -/
def heapCalloc (fuel : ℕ) (itemN itemSz align : BitVec 32) (m : Memory) :
    Option (Option (Addr × Memory)) :=
  let bytes := itemN * itemSz
  (heapAlloc fuel bytes align m).map fun found =>
    found.map fun (ptr, m) =>
      (ptr,
        if itemSz = 2 then zeroItems 2 (store16 · · 0) ptr itemN m
        else if itemSz = 4 then zeroItems 4 (store32 · · 0) ptr itemN m
        else zeroItems 1 (store8 · · 0) ptr bytes m)

end B2OS.Heap
