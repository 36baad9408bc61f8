import B2OS.Lib.ByteMemory

/-!
# The Kernel's `malloc`

This module embeds the allocator of `Src/memory.c`: the list of blocks threaded through
memory, `k_init_mem`, `malloc`, `free`, `calloc`, `realloc`, and the loops `memset` and
`memcpy` that the last two use.

Memory is byte memory, and a header is the 16 bytes of `struct m_header` in it, so that the
stores of a client go to the same bytes as the headers. Pointers and `size_t` are 32 bits
wide and wrap.

The loop of `malloc` follows links, so it may run for ever on a list that is none. It takes
`fuel`, and answers `none` when it has not ended by then.
-/

namespace B2OS.Kernel

open ByteMemory

/-- `(void*)0x00100000`. -/
def gMemory : Addr := 0x00100000

def MAX_MEM_SIZE : BitVec 32 := 1024 * 1024 * 10

/-- `sizeof(m_header_t)`. -/
def headerLen : BitVec 32 := 16

/-- Memory and the global `head`. -/
structure KernelHeap where
  mem : Memory
  head : Addr

/-! ### The fields of `struct m_header` -/

section Fields

variable (m : Memory) (p : Addr)

def prev : Addr := (record m p).word0
def next : Addr := (record m p).word1
def length : BitVec 32 := (record m p).word2
def used : Bool := (record m p).flag

def setPrev (v : Addr) : Memory := setWord0 m p v
def setNext (v : Addr) : Memory := setWord1 m p v
def setLength (v : BitVec 32) : Memory := setWord2 m p v
def setUsed (b : Bool) : Memory := setFlag m p b

end Fields

/-! ### The functions of `memory.c` -/

def kInitMem (k : KernelHeap) : KernelHeap :=
  let ptr := gMemory
  let size := MAX_MEM_SIZE
  if k.head ≠ 0 ∨ size < headerLen then k
  else
    let head := ptr
    let m := setNext k.mem head 0
    let m := setPrev m head 0
    let m := setUsed m head false
    let m := setLength m head (size - headerLen)
    ⟨m, head⟩

/-- `if (size & 0b11) size = (size & ~0b11) + 4`. -/
def roundUp (size : BitVec 32) : BitVec 32 :=
  if size &&& 3 ≠ 0 then (size &&& ~~~3) + 4 else size

/-- The search of `malloc`: follow `next` from `ptr` to a free block of `size` bytes; `0`
when the list ends before. -/
def findFit (m : Memory) (size : BitVec 32) : ℕ → Addr → Option Addr
  | 0, _ => none
  | fuel + 1, ptr =>
      if ptr = 0 then some 0
      else if !used m ptr ∧ length m ptr ≥ size then some ptr
      else findFit m size fuel (next m ptr)

/-- The split of `malloc`: a new header behind the first `size` bytes of the block
`ptr`. -/
def splitBlock (m : Memory) (size : BitVec 32) (ptr : Addr) : Memory :=
  let split := ptr + headerLen + size
  let m := setPrev m split ptr
  let m := setNext m split (next m ptr)
  let m := setNext m ptr split
  let m := setUsed m split false
  let m := setLength m split (length m ptr - size - headerLen)
  setLength m ptr size

/-- The body of the search: take `size` bytes of the block `ptr`, and split the rest off
when it holds a header. -/
def takeBlock (m : Memory) (size : BitVec 32) (ptr : Addr) : Memory :=
  let m := if size + headerLen ≤ length m ptr then splitBlock m size ptr else m
  setUsed m ptr true

def malloc (fuel : ℕ) (size : BitVec 32) (k : KernelHeap) : Option (Addr × KernelHeap) :=
  if size = 0 then some (0, k)
  else
    let size := roundUp size
    (findFit k.mem size fuel k.head).map fun ptr =>
      if ptr = 0 then (0, k)
      else (ptr + headerLen, { k with mem := takeBlock k.mem size ptr })

/-- The first merge of `free`: swallow the next block when it is free. -/
def mergeNext (m : Memory) (entry : Addr) : Memory :=
  if next m entry ≠ 0 ∧ !used m (next m entry) then
    let m := setLength m entry (length m entry + (headerLen + length m (next m entry)))
    let m := setNext m entry (next m (next m entry))
    if next m entry ≠ 0 then setPrev m (next m entry) entry else m
  else m

/-- The second merge of `free`: let the previous block swallow this one when it is free. -/
def mergePrev (m : Memory) (entry : Addr) : Memory :=
  if prev m entry ≠ 0 ∧ !used m (prev m entry) then
    let m := setLength m (prev m entry)
      (length m (prev m entry) + (headerLen + length m entry))
    let m := setNext m (prev m entry) (next m entry)
    if next m entry ≠ 0 then setPrev m (next m entry) (prev m entry) else m
  else m

def free (ptr : Addr) (k : KernelHeap) : KernelHeap :=
  if ptr = 0 then k
  else
    let entry := ptr - headerLen
    let m := setUsed k.mem entry false
    { k with mem := mergePrev (mergeNext m entry) entry }

/-- The loop of `memset` from index `i` on, with `n` bytes to go. -/
def memsetFrom (ptr : Addr) (value : BitVec 8) : ℕ → ℕ → Memory → Memory
  | 0, _, m => m
  | n + 1, i, m =>
      memsetFrom ptr value n (i + 1) (store8 m (ptr + BitVec.ofNat 32 i) value)

def memset (m : Memory) (ptr : Addr) (value : BitVec 8) (size : BitVec 32) : Memory :=
  memsetFrom ptr value size.toNat 0 m

/-- The loop of `memcpy` from index `i` on, with `n` bytes to go. -/
def memcpyFrom (dst src : Addr) : ℕ → ℕ → Memory → Memory
  | 0, _, m => m
  | n + 1, i, m =>
      memcpyFrom dst src n (i + 1)
        (store8 m (dst + BitVec.ofNat 32 i) (m (src + BitVec.ofNat 32 i)))

def memcpy (m : Memory) (dst src : Addr) (size : BitVec 32) : Memory :=
  memcpyFrom dst src size.toNat 0 m

def calloc (fuel : ℕ) (num size : BitVec 32) (k : KernelHeap) :
    Option (Addr × KernelHeap) :=
  (malloc fuel (num * size) k).map fun (buf, k) =>
    if buf ≠ 0 then (buf, { k with mem := memset k.mem buf 0 (num * size) }) else (buf, k)

def realloc (fuel : ℕ) (ptr : Addr) (size : BitVec 32) (k : KernelHeap) :
    Option (Addr × KernelHeap) :=
  if ptr = 0 then malloc fuel size k
  else
    (malloc fuel size k).map fun (buf, k) =>
      if buf = 0 then (0, k)
      else
        let entry := ptr - headerLen
        let origSize := length k.mem entry
        let minSize := if size > origSize then origSize else size
        (buf, free ptr { k with mem := memcpy k.mem buf ptr minSize })

end B2OS.Kernel
