/-
# HeavenFox.Common.MemSimple -- the simple memory pool of `mem_simple.c`

A pool is a range of memory that is handed out in blocks.  Every block starts
with a `struct mem_block` inside the pool itself: six words in front of the bytes
that are given away.  The blocks are linked through `sprt_next` and, backwards,
through `sprt_prev`; a block that has been given away keeps the rest of its
bytes as `remain`, and only the next request that falls on it splits them off.

The functions work on a byte memory, so a header is nothing but the bytes at its
address: where two headers overlap, or a caller writes over one, the model sees
it as the machine would.
-/
import HeavenFox.Common.ErrorTypes

namespace HeavenFox.Common

open HeavenFox.Logic

/-! ## Alignment -/

/-- `mrt_align` on 32-bit numbers. -/
def mrtAlign (x mask : Nat) : Nat := add32 x (mask - 1) &&& not32 (mask - 1)

/-- `mrt_num_align4`. -/
def mrtNumAlign4 (x : Nat) : Nat := mrtAlign x 4

theorem mrtNumAlign4_eq (x : Nat) : mrtNumAlign4 x = add32 x 3 / 4 * 4 :=
  and_not32_three (add32_lt x 3)

/-- Away from the top of the number range, aligning rounds up by less than four. -/
theorem mrtNumAlign4_bounds {x : Nat} (h : x + 3 < 2 ^ 32) :
    x ≤ mrtNumAlign4 x ∧ mrtNumAlign4 x ≤ x + 3 := by
  rw [mrtNumAlign4_eq, add32_of_lt h]
  omega

/-! ## `struct mem_block` -/

/-- `MEMORY_POOL_MAGIC`. -/
def memoryPoolMagic : Nat := 0xdfa69fe3

/-- The fields of `struct mem_block`, in the order of their declaration. -/
inductive Field where
  | magic
  | base
  | lenth
  | remain
  | sprtPrev
  | sprtNext
  deriving DecidableEq, Repr

/-- Each field is one word. -/
def Field.offset : Field → Nat
  | .magic => 0
  | .base => 4
  | .lenth => 8
  | .remain => 12
  | .sprtPrev => 16
  | .sprtNext => 20

/-- `MEM_BLOCK_HEADER_SIZE`: the six words of `struct mem_block`, aligned. -/
def memBlockHeaderSize : Nat := mrtNumAlign4 24

theorem memBlockHeaderSize_eq : memBlockHeaderSize = 24 := by decide

/-- Read a field of the header at `block`. -/
def get (m : Mem) (block : Nat) (f : Field) : Nat := load32 m (block + f.offset)

/-- Write a field of the header at `block`. -/
def set (m : Mem) (block : Nat) (f : Field) (v : Nat) : Mem := store32 m (block + f.offset) v

theorem get_lt (m : Mem) (block : Nat) (f : Field) : get m block f < 2 ^ 32 := load32_lt _ _

theorem get_set_same {m : Mem} {block v : Nat} {f : Field} (hv : v < 2 ^ 32) :
    get (set m block f v) block f = v := by
  unfold get set
  rw [load32_store32_same, Nat.mod_eq_of_lt hv]

/-- Writing one field of a header leaves its other fields alone. -/
theorem get_set_field {m : Mem} {block v : Nat} {f g : Field} (h : f ≠ g) :
    get (set m block f v) block g = get m block g := by
  refine load32_store32_of_disjoint ?_
  cases f <;> cases g <;> first | exact absurd rfl h | (simp only [Field.offset]; omega)

/-- Writing one header leaves a header that shares no byte with it alone. -/
theorem get_set_apart {m : Mem} {a b v : Nat} {f g : Field} (h : a + 24 ≤ b ∨ b + 24 ≤ a) :
    get (set m a f v) b g = get m b g := by
  refine load32_store32_of_disjoint ?_
  have hf : f.offset + 4 ≤ 24 := by cases f <;> decide
  have hg : g.offset + 4 ≤ 24 := by cases g <;> decide
  omega

/-- A byte outside a header is not part of any of its fields. -/
theorem get_store8_of_outside {m : Mem} {x b : Nat} {v : UInt8} {g : Field}
    (h : x < b ∨ b + 24 ≤ x) : get (store8 m x v) b g = get m b g := by
  refine load32_store8_of_outside ?_
  have hg : g.offset + 4 ≤ 24 := by cases g <;> decide
  omega

/-- Writing back what a field holds changes nothing. -/
theorem set_get_self (m : Mem) (block : Nat) (f : Field) : set m block f (get m block f) = m :=
  store32_load32_self m _

/-- `struct mem_info`: where the pool lies, and its first block. -/
structure MemInfo where
  base : Nat
  lenth : Nat
  sprtMem : Nat
  deriving DecidableEq, Repr

/-! ## Building a pool -/

/-- `memory_simple_block_create`; `none` is a pointer that is not valid. -/
def memorySimpleBlockCreate (m : Mem) (sprtInfo : Option MemInfo) (memAddr size : Nat) :
    Int × Mem × Option MemInfo :=
  match sprtInfo with
  | none => (-erUnvalid, m, none)
  | some info =>
    if size ≤ memBlockHeaderSize then (-erUnvalid, m, some info)
    else if isValid info.sprtMem then (-erUnvalid, m, some info)
    else
      let base := mrtNumAlign4 memAddr
      let lenth := sub32 size (sub32 base memAddr)
      let m := set m base .base (add32 base memBlockHeaderSize)
      let m := set m base .lenth lenth
      let m := set m base .remain lenth
      let m := set m base .sprtPrev 0
      let m := set m base .sprtNext 0
      let m := set m base .magic memoryPoolMagic
      (erNormal, m, some ⟨base, lenth, base⟩)

/-! ## Allocation -/

/-- The body of the allocation loop on the block that is taken: `lenth` bytes of what remains in
`sprtBlock` are given away, behind a header of their own unless the block was whole. -/
def takeFrom (m : Mem) (sprtBlock lenth : Nat) : Nat × Mem :=
  let offset := sub32 (get m sprtBlock .lenth) (get m sprtBlock .remain)
  let ptrMem := add32 (get m sprtBlock .base) offset
  if get m sprtBlock .lenth ≠ get m sprtBlock .remain then
    let sprtNew := sub32 ptrMem memBlockHeaderSize
    let m := set m sprtNew .base ptrMem
    let m := set m sprtNew .lenth (get m sprtBlock .remain)
    let m := set m sprtNew .remain (sub32 (get m sprtBlock .remain) lenth)
    let m := set m sprtNew .sprtPrev sprtBlock
    let m := set m sprtNew .sprtNext (get m sprtBlock .sprtNext)
    let m := set m sprtNew .magic memoryPoolMagic
    let m := set m sprtBlock .lenth offset
    let m := set m sprtBlock .remain (sub32 (get m sprtBlock .remain) (get m sprtNew .lenth))
    let m := set m sprtBlock .sprtNext sprtNew
    (ptrMem, m)
  else
    (ptrMem, set m sprtBlock .remain (sub32 (get m sprtBlock .remain) lenth))

/-- The search for the first block with `lenth` bytes left. -/
def allocLoop (m : Mem) (lenth : Nat) : Nat → Nat → Except Stop (Nat × Mem)
  | 0, _ => .error .spins
  | n + 1, sprtBlock =>
    if isValid sprtBlock then
      if lenth ≤ get m sprtBlock .remain then .ok (takeFrom m sprtBlock lenth)
      else allocLoop m lenth n (get m sprtBlock .sprtNext)
    else .ok (0, m)

/-- `alloc_spare_simple_memory`. -/
def allocSpareSimpleMemory (m : Mem) (ptrHead size : Nat) : Except Stop (Nat × Mem) :=
  if isValid ptrHead then
    allocLoop m (add32 (mrtNumAlign4 size) memBlockHeaderSize) walkRounds ptrHead
  else .ok (0, m)

/-! ## Release -/

/-- The search of `check_employ_simple_memory`: the first block whose `base` is the pointer, or the
pointer that ended the list. -/
def findBase (m : Mem) (ptrMem : Nat) : Nat → Nat → Except Stop Nat
  | 0, _ => .error .spins
  | n + 1, sprtStart =>
    if isValid sprtStart then
      if get m sprtStart .base = ptrMem then .ok sprtStart
      else findBase m ptrMem n (get m sprtStart .sprtNext)
    else .ok sprtStart

/-- `check_employ_simple_memory`: the header of a pointer that was allocated from the pool. -/
def checkEmploySimpleMemory (m : Mem) (ptrHead ptrMem : Nat) : Except Stop Nat :=
  let sprtBlock := sub32 ptrMem memBlockHeaderSize
  if isValid sprtBlock = false ∨ get m sprtBlock .magic ≠ memoryPoolMagic then .ok 0
  else
    match findBase m ptrMem walkRounds ptrHead with
    | .error e => .error e
    | .ok sprtStart => if isValid sprtStart then .ok sprtBlock else .ok 0

/-- The block the second half of the release works on: the one `sprt_prev` names, if there is one. -/
def mergedBlock (m : Mem) (sprtBlock : Nat) : Nat :=
  if isValid (get m sprtBlock .sprtPrev) then get m sprtBlock .sprtPrev else sprtBlock

/-- The first half of the release: the block becomes whole and is joined to the block `sprt_prev`
names. -/
def mergePrev (m : Mem) (sprtBlock : Nat) : Mem :=
  let sprtPrev := get m sprtBlock .sprtPrev
  let m := set m sprtBlock .remain (get m sprtBlock .lenth)
  if isValid sprtPrev then
    let m := set m sprtPrev .lenth (add32 (get m sprtPrev .lenth) (get m sprtBlock .lenth))
    let m := set m sprtPrev .remain (add32 (get m sprtPrev .remain) (get m sprtBlock .remain))
    set m sprtPrev .sprtNext (get m sprtBlock .sprtNext)
  else m

/-- The second half of the release: a following block that is whole is joined as well. -/
def mergeNext (m : Mem) (sprtBlock sprtNext : Nat) : Mem :=
  if isValid sprtNext then
    if get m sprtNext .lenth = get m sprtNext .remain then
      let m := set m sprtBlock .sprtNext (get m sprtNext .sprtNext)
      let m := set m sprtBlock .lenth (add32 (get m sprtBlock .lenth) (get m sprtNext .lenth))
      set m sprtBlock .remain (get m sprtNext .remain)
    else m
  else m

/-- What a release does to a block that passed the checks. -/
def releaseBlock (m : Mem) (sprtBlock : Nat) : Mem :=
  mergeNext (mergePrev m sprtBlock) (mergedBlock m sprtBlock) (get m sprtBlock .sprtNext)

/-- `free_employ_simple_memory`. -/
def freeEmploySimpleMemory (m : Mem) (ptrHead ptrMem : Nat) : Except Stop Mem :=
  if isValid ptrMem then
    match checkEmploySimpleMemory m ptrHead ptrMem with
    | .error e => .error e
    | .ok sprtBlock => if isValid sprtBlock then .ok (releaseBlock m sprtBlock) else .ok m
  else .ok m

/-- A pointer whose header is not at a valid address fails the check. -/
theorem checkEmploy_invalid {m : Mem} {ptrHead ptrMem : Nat}
    (h : isValid (sub32 ptrMem memBlockHeaderSize) = false) :
    checkEmploySimpleMemory m ptrHead ptrMem = .ok 0 := by
  rw [checkEmploySimpleMemory]
  exact if_pos (Or.inl h)

theorem freeEmploy_of_check {m : Mem} {ptrHead ptrMem block : Nat} (hptr : isValid ptrMem = true)
    (hcheck : checkEmploySimpleMemory m ptrHead ptrMem = .ok block)
    (hblock : isValid block = true) :
    freeEmploySimpleMemory m ptrHead ptrMem = .ok (releaseBlock m block) := by
  rw [freeEmploySimpleMemory, hcheck, if_pos hptr]
  exact if_pos hblock

/-- A pointer that does not pass the checks changes nothing. -/
theorem freeEmploy_of_refused {m : Mem} {ptrHead ptrMem : Nat}
    (hcheck : isValid ptrMem = true → checkEmploySimpleMemory m ptrHead ptrMem = .ok 0) :
    freeEmploySimpleMemory m ptrHead ptrMem = .ok m := by
  by_cases hptr : isValid ptrMem = true
  · rw [freeEmploySimpleMemory, hcheck hptr, if_pos hptr]
    exact if_neg (by decide)
  · rw [freeEmploySimpleMemory, if_neg hptr]

/-- `kfree`: only addresses inside the pool are handed on. -/
def kfree (m : Mem) (sprtInfo : MemInfo) (ptr : Nat) : Except Stop Mem :=
  if ptr < sprtInfo.base then .ok m
  else if add32 sprtInfo.base sprtInfo.lenth ≤ ptr then .ok m
  else freeEmploySimpleMemory m sprtInfo.sprtMem ptr

end HeavenFox.Common
