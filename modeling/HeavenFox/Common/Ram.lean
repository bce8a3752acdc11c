/-
# HeavenFox.Common.Ram -- memory as a program may use it

The bytes of the address space together with the blocks a program may touch: the
ones it was loaded with and the ones it has allocated.  An access that is not
inside one block stops the program, so a run that returns is a run without a
stray access.  On top of it stand `kzalloc`, `kfree` and the string functions of
the C library, each with the one lemma its callers use.
-/
import HeavenFox.Logic.Bytes
import HeavenFox.Common.ErrorTypes

namespace HeavenFox.Common

open HeavenFox.Logic

/-! ## Blocks -/

/-- `len` bytes from `base` on. -/
structure Block where
  base : Nat
  len : Nat
  deriving DecidableEq, Repr

/-- The `n` bytes at `a` are bytes of the block. -/
def Block.Covers (b : Block) (a n : Nat) : Prop := b.base ≤ a ∧ a + n ≤ b.base + b.len

/-- No byte belongs to both blocks. -/
def Block.Apart (b c : Block) : Prop := b.base + b.len ≤ c.base ∨ c.base + c.len ≤ b.base

instance (b : Block) (a n : Nat) : Decidable (b.Covers a n) := inferInstanceAs (Decidable (_ ∧ _))

instance (b c : Block) : Decidable (b.Apart c) := inferInstanceAs (Decidable (_ ∨ _))

/-- The bytes of the address space, the blocks the program was loaded with, the blocks it has
allocated and not yet freed, and how many allocations have failed. -/
structure Ram where
  bytes : Mem
  fixed : List Block
  heap : List Block
  refused : Nat

/-- The `n` bytes at `a` may be accessed. -/
def Ram.Live (s : Ram) (a n : Nat) : Prop := ∃ b ∈ s.fixed ++ s.heap, b.Covers a n

instance (s : Ram) (a n : Nat) : Decidable (s.Live a n) := inferInstanceAs (Decidable (∃ _ ∈ _, _))

theorem Ram.Live.mono {s : Ram} {a n a' n' : Nat} (h : s.Live a n) (hlo : a ≤ a')
    (hhi : a' + n' ≤ a + n) : s.Live a' n' := by
  obtain ⟨b, hb, hcov⟩ := h
  exact ⟨b, hb, by have := hcov.1; omega, by have := hcov.2; omega⟩

theorem Ram.Live.of_fixed {s : Ram} {b : Block} (h : b ∈ s.fixed) : s.Live b.base b.len :=
  ⟨b, List.mem_append_left _ h, Nat.le_refl _, Nat.le_refl _⟩

theorem Ram.Live.of_heap {s : Ram} {b : Block} (h : b ∈ s.heap) : s.Live b.base b.len :=
  ⟨b, List.mem_append_right _ h, Nat.le_refl _, Nat.le_refl _⟩

/-- One more block. -/
theorem Ram.Live.cons {s t : Ram} {b : Block} {a n : Nat} (h : s.Live a n)
    (hfixed : t.fixed = s.fixed) (hheap : t.heap = b :: s.heap) : t.Live a n := by
  obtain ⟨c, hc, hcov⟩ := h
  refine ⟨c, ?_, hcov⟩
  rw [hfixed, hheap]
  rcases List.mem_append.mp hc with hc | hc
  · exact List.mem_append_left _ hc
  · exact List.mem_append_right _ (List.mem_cons_of_mem _ hc)

/-- Which bytes may be accessed is up to the blocks. -/
theorem Ram.live_congr {s t : Ram} (hfixed : t.fixed = s.fixed) (hheap : t.heap = s.heap)
    {a n : Nat} : t.Live a n ↔ s.Live a n := by
  rw [Ram.Live, Ram.Live, hfixed, hheap]

/-- Other bytes in the same blocks. -/
def Ram.put (s : Ram) (m : Mem) : Ram := { s with bytes := m }

@[simp] theorem Ram.put_bytes (s : Ram) (m : Mem) : (s.put m).bytes = m := rfl

@[simp] theorem Ram.put_fixed (s : Ram) (m : Mem) : (s.put m).fixed = s.fixed := rfl

@[simp] theorem Ram.put_heap (s : Ram) (m : Mem) : (s.put m).heap = s.heap := rfl

@[simp] theorem Ram.put_refused (s : Ram) (m : Mem) : (s.put m).refused = s.refused := rfl

@[simp] theorem Ram.put_put (s : Ram) (m m' : Mem) : (s.put m).put m' = s.put m' := rfl

@[simp] theorem Ram.put_self (s : Ram) : s.put s.bytes = s := rfl

@[simp] theorem Ram.live_put (s : Ram) (m : Mem) (a n : Nat) : (s.put m).Live a n ↔ s.Live a n :=
  Ram.live_congr rfl rfl

/-! ## Programs over a memory -/

/-- A program that works on the memory, and stops when it goes astray. -/
abbrev RamM := StateT Ram (Except Stop)

namespace RamM

variable {α β : Type}

theorem bind_ok {x : RamM α} {f : α → RamM β} {s t : Ram} {a : α} (h : x s = .ok (a, t)) :
    (x >>= f) s = f a t := by
  change (x s >>= fun p => f p.1 p.2) = f a t
  rw [h]
  rfl

theorem bind_error {x : RamM α} {f : α → RamM β} {s : Ram} {e : Stop} (h : x s = .error e) :
    (x >>= f) s = .error e := by
  change (x s >>= fun p => f p.1 p.2) = .error e
  rw [h]
  rfl

theorem pure_run (a : α) (s : Ram) : (pure a : RamM α) s = .ok (a, s) := rfl

end RamM

/-- Go astray. -/
def halt {α : Type} (e : Stop) : RamM α := fun _ => .error e

/-! ## Accesses -/

/-- A byte. -/
def load8 (a : Nat) : RamM UInt8 := fun s =>
  if s.Live a 1 then .ok (s.bytes a, s) else .error .fault

/-- A word, in the byte order of the machine. -/
def loadWord (a : Nat) : RamM Nat := fun s =>
  if s.Live a 4 then .ok (load32 s.bytes a, s) else .error .fault

def putByte (a : Nat) (v : UInt8) : RamM Unit := fun s =>
  if s.Live a 1 then .ok ((), s.put (store8 s.bytes a v)) else .error .fault

def putWord (a v : Nat) : RamM Unit := fun s =>
  if s.Live a 4 then .ok ((), s.put (store32 s.bytes a v)) else .error .fault

variable {s : Ram} {a : Nat}

theorem load8_run (h : s.Live a 1) : load8 a s = .ok (s.bytes a, s) := if_pos h

theorem loadWord_run (h : s.Live a 4) : loadWord a s = .ok (load32 s.bytes a, s) := if_pos h

theorem putByte_run {v : UInt8} (h : s.Live a 1) :
    putByte a v s = .ok ((), s.put (store8 s.bytes a v)) := if_pos h

theorem putWord_run {v : Nat} (h : s.Live a 4) :
    putWord a v s = .ok ((), s.put (store32 s.bytes a v)) := if_pos h

/-- `api_reverse_byte32`, which is what `be32_to_cpu` does on a little-endian machine. -/
def apiReverseByte32 (v : Nat) : Nat :=
  v % 2 ^ 8 * 2 ^ 24 + v / 2 ^ 8 % 2 ^ 8 * 2 ^ 16 + v / 2 ^ 16 % 2 ^ 8 * 2 ^ 8 + v / 2 ^ 24 % 2 ^ 8

theorem apiReverseByte32_load32 (m : Mem) (a : Nat) :
    apiReverseByte32 (load32 m a) = loadBe32 m a := by
  have h0 := (m a).toNat_lt
  have h1 := (m (a + 1)).toNat_lt
  have h2 := (m (a + 2)).toNat_lt
  have h3 := (m (a + 3)).toNat_lt
  simp only [apiReverseByte32, load32, loadBe32]
  omega

/-- `be32_to_cpup`. -/
def be32ToCpup (a : Nat) : RamM Nat := do
  let v ← loadWord a
  pure (apiReverseByte32 v)

theorem be32ToCpup_run (h : s.Live a 4) : be32ToCpup a s = .ok (loadBe32 s.bytes a, s) := by
  rw [be32ToCpup, RamM.bind_ok (loadWord_run h), apiReverseByte32_load32]
  rfl

/-! ## Allocation -/

/-- What an allocator answers to a request: an address, or 0.  A block it gives is new: it is
aligned, inside the address space, and apart from every block in use. -/
structure Kzalloc where
  give : Ram → Nat → Nat
  fresh : ∀ s n, give s n ≠ 0 → give s n % 4 = 0 ∧ give s n + n ≤ 0xfffff000 ∧
    ∀ b ∈ s.fixed ++ s.heap, b.Apart ⟨give s n, n⟩

/-- Zero the `n` bytes at `a`. -/
def zeroed (m : Mem) (a n : Nat) : Mem := fun x => if a ≤ x ∧ x < a + n then 0 else m x

theorem zeroed_inside {m : Mem} {a n x : Nat} (hlo : a ≤ x) (hhi : x < a + n) :
    zeroed m a n x = 0 := if_pos ⟨hlo, hhi⟩

theorem zeroed_outside {m : Mem} {a n x : Nat} (h : x < a ∨ a + n ≤ x) : zeroed m a n x = m x :=
  if_neg (by omega)

/-- A request is refused. -/
def Ram.refuse (s : Ram) : Ram := { s with refused := s.refused + 1 }

/-- A zeroed block is given. -/
def Ram.grow (s : Ram) (ptr n : Nat) : Ram :=
  { s with bytes := zeroed s.bytes ptr n, heap := ⟨ptr, n⟩ :: s.heap }

/-- `kzalloc`. -/
def RamM.kzalloc (alloc : Kzalloc) (n : Nat) : RamM Nat := fun s =>
  let ptr := alloc.give s n
  if ptr = 0 then .ok (0, s.refuse) else .ok (ptr, s.grow ptr n)

/-- `kfree`. -/
def RamM.kfree (ptr : Nat) : RamM Unit := fun s =>
  .ok ((), { s with heap := s.heap.eraseP fun b => b.base = ptr })

/-- The block that was given last is freed. -/
def Ram.drop (s : Ram) : Ram := { s with heap := s.heap.tail }

theorem kfree_first {s : Ram} {b : Block} {heap : List Block} (hheap : s.heap = b :: heap) :
    RamM.kfree b.base s = .ok ((), s.drop) := by
  have herase : s.heap.eraseP (fun c => c.base = b.base) = s.heap.tail := by
    rw [hheap, List.eraseP_cons_of_pos (by simp), List.tail_cons]
  rw [RamM.kfree, herase]
  rfl

/-- What may be accessed in `s` has the same bytes in `t`. -/
structure Ram.Keeps (s t : Ram) : Prop where
  fixed : t.fixed = s.fixed
  bytes : ∀ x, s.Live x 1 → t.bytes x = s.bytes x

theorem Ram.Keeps.refl (s : Ram) : s.Keeps s := ⟨rfl, fun _ _ => rfl⟩

theorem Ram.Keeps.agreeOn {s t : Ram} (h : s.Keeps t) {a n : Nat} (hlive : s.Live a n) :
    AgreeOn s.bytes t.bytes a (a + n) :=
  fun x hlo hhi => h.bytes x (hlive.mono hlo (by omega))

/-- What may be accessed is no part of a block that is given. -/
theorem Kzalloc.apart (alloc : Kzalloc) {s : Ram} {n : Nat} (h : alloc.give s n ≠ 0) {a k : Nat}
    (hlive : s.Live a k) : a + k ≤ alloc.give s n ∨ alloc.give s n + n ≤ a := by
  obtain ⟨b, hb, hcov⟩ := hlive
  have hlo := hcov.1
  have hhi := hcov.2
  have hapart : b.base + b.len ≤ alloc.give s n ∨ alloc.give s n + n ≤ b.base :=
    (alloc.fresh s n h).2.2 b hb
  omega

theorem Ram.live_grow_new (s : Ram) (ptr n : Nat) : (s.grow ptr n).Live ptr n :=
  Ram.Live.of_heap (b := ⟨ptr, n⟩) List.mem_cons_self

theorem Ram.Live.grow {s : Ram} {a k : Nat} (h : s.Live a k) (ptr n : Nat) :
    (s.grow ptr n).Live a k := h.cons rfl rfl

theorem Kzalloc.keeps (alloc : Kzalloc) {s : Ram} {n : Nat} (h : alloc.give s n ≠ 0) :
    s.Keeps (s.grow (alloc.give s n) n) := by
  refine ⟨rfl, fun x hlive => zeroed_outside ?_⟩
  have hapart := alloc.apart h hlive
  omega

/-! ## The string functions of the C library -/

/-- The loop of `strlen`, `n` characters in. -/
def strlenLoop : Nat → Nat → Nat → RamM Nat
  | 0, _, _ => halt .spins
  | rounds + 1, ptr, n => do
    let c ← load8 ptr
    if c = 0 then pure n else strlenLoop rounds (ptr + 1) (n + 1)

/-- `strlen`. -/
def strlen (ptr : Nat) : RamM Nat := strlenLoop walkRounds ptr 0

/-- `strcmp` with a string that is known, and whether it returns 0. -/
def strcmp : List UInt8 → Nat → RamM Bool
  | [], ptr => do
    let c ← load8 ptr
    pure (decide (c = 0))
  | b :: l, ptr => do
    let c ← load8 ptr
    if c = b then strcmp l (ptr + 1) else pure false

/-- `memcpy`. -/
def memcpy (dst src : Nat) : Nat → RamM Unit
  | 0 => pure ()
  | n + 1 => do
    let c ← load8 src
    let _ ← putByte dst c
    memcpy (dst + 1) (src + 1) n

/-- The loop of `strcpy`. -/
def strcpyLoop : Nat → Nat → Nat → RamM Unit
  | 0, _, _ => halt .spins
  | rounds + 1, dst, src => do
    let c ← load8 src
    let _ ← putByte dst c
    if c = 0 then pure () else strcpyLoop rounds (dst + 1) (src + 1)

/-- `strcpy`. -/
def strcpy (dst src : Nat) : RamM Unit := strcpyLoop walkRounds dst src

theorem strlenLoop_run {rounds ptr n : Nat} {l : List UInt8} (h : CStrAt s.bytes ptr l)
    (hlive : s.Live ptr (l.length + 1)) (hrounds : l.length < rounds) :
    strlenLoop rounds ptr n s = .ok (n + l.length, s) := by
  induction l generalizing rounds ptr n with
  | nil =>
    obtain ⟨rounds, rfl⟩ : ∃ r, rounds = r + 1 := ⟨rounds - 1, by simp at hrounds; omega⟩
    rw [strlenLoop, RamM.bind_ok (load8_run (hlive.mono (Nat.le_refl _) (by simp))), if_pos h.nil]
    rfl
  | cons b l ih =>
    obtain ⟨rounds, rfl⟩ : ∃ r, rounds = r + 1 := ⟨rounds - 1, by simp at hrounds; omega⟩
    rw [List.length_cons] at hlive hrounds
    obtain ⟨hb, hne, hl⟩ := h.cons
    rw [strlenLoop, RamM.bind_ok (load8_run (hlive.mono (Nat.le_refl _) (by omega))), hb,
      if_neg hne, ih hl (hlive.mono (by omega) (by omega)) (by omega), List.length_cons,
      Nat.add_right_comm, Nat.add_assoc]

/-- **`strlen`** counts the characters of the string. -/
theorem strlen_run {ptr : Nat} {l : List UInt8} (h : CStrAt s.bytes ptr l)
    (hlive : s.Live ptr (l.length + 1)) (hlen : l.length < 2 ^ 32) :
    strlen ptr s = .ok (l.length, s) := by
  have hrounds : l.length < walkRounds := hlen
  rw [strlen, strlenLoop_run h hlive hrounds, Nat.zero_add]

/-- **`strcmp`** tells whether the strings are equal, and reads no byte behind the end of the
second. -/
theorem strcmp_run {ptr : Nat} {l l' : List UInt8} (h : CStrAt s.bytes ptr l')
    (hlive : s.Live ptr (l'.length + 1)) (hl : 0 ∉ l) :
    strcmp l ptr s = .ok (decide (l = l'), s) := by
  induction l generalizing ptr l' with
  | nil =>
    rw [strcmp, RamM.bind_ok (load8_run (hlive.mono (Nat.le_refl _) (by omega)))]
    cases l' with
    | nil => simp [h.nil, RamM.pure_run]
    | cons b' l' =>
      obtain ⟨hb, hne, -⟩ := h.cons
      simp [hb, hne, RamM.pure_run]
  | cons b l ih =>
    rw [List.mem_cons, not_or] at hl
    rw [strcmp, RamM.bind_ok (load8_run (hlive.mono (Nat.le_refl _) (by omega)))]
    cases l' with
    | nil => simp [h.nil, hl.1, RamM.pure_run]
    | cons b' l' =>
      obtain ⟨hb, -, hl'⟩ := h.cons
      rw [List.length_cons] at hlive
      by_cases hbb : b' = b
      · rw [hb, if_pos hbb, ih hl' (hlive.mono (by omega) (by omega)) hl.2]
        simp [hbb]
      · rw [hb, if_neg hbb, RamM.pure_run]
        simp [Ne.symm hbb]

/-- **`memcpy`** between places that are apart. -/
theorem memcpy_run {dst src : Nat} {l : List UInt8} (h : BytesAt s.bytes src l)
    (hsrc : s.Live src l.length) (hdst : s.Live dst l.length)
    (hapart : src + l.length ≤ dst ∨ dst + l.length ≤ src) :
    memcpy dst src l.length s = .ok ((), s.put (storeBytes s.bytes dst l)) := by
  induction l generalizing s dst src with
  | nil => rfl
  | cons b l ih =>
    rw [List.length_cons] at hsrc hdst hapart
    have hcopied : BytesAt (store8 s.bytes dst b) (src + 1) l := by
      refine BytesAt.congr h.2 fun x hlo hhi => store8_of_ne ?_
      omega
    rw [List.length_cons, memcpy, RamM.bind_ok (load8_run (hsrc.mono (Nat.le_refl _) (by omega))),
      h.1, RamM.bind_ok (putByte_run (hdst.mono (Nat.le_refl _) (by omega)))]
    rw [ih hcopied (by simpa using hsrc.mono (by omega) (by omega))
      (by simpa using hdst.mono (by omega) (by omega)) (by omega)]
    rfl

theorem strcpyLoop_run {rounds dst src : Nat} {l : List UInt8} (h : CStrAt s.bytes src l)
    (hsrc : s.Live src (l.length + 1)) (hdst : s.Live dst (l.length + 1))
    (hapart : src + l.length < dst ∨ dst + l.length < src) (hrounds : l.length < rounds) :
    strcpyLoop rounds dst src s = .ok ((), s.put (storeBytes s.bytes dst (l ++ [0]))) := by
  induction l generalizing s rounds dst src with
  | nil =>
    obtain ⟨rounds, rfl⟩ : ∃ r, rounds = r + 1 := ⟨rounds - 1, by simp at hrounds; omega⟩
    rw [strcpyLoop, RamM.bind_ok (load8_run (hsrc.mono (Nat.le_refl _) (by simp))), h.nil,
      RamM.bind_ok (putByte_run (hdst.mono (Nat.le_refl _) (by simp))), if_pos rfl]
    rfl
  | cons b l ih =>
    obtain ⟨rounds, rfl⟩ : ∃ r, rounds = r + 1 := ⟨rounds - 1, by simp at hrounds; omega⟩
    rw [List.length_cons] at hsrc hdst hapart hrounds
    obtain ⟨hb, hne, hl⟩ := h.cons
    have hcopied : CStrAt (store8 s.bytes dst b) (src + 1) l := by
      refine hl.congr fun x hlo hhi => store8_of_ne ?_
      omega
    rw [strcpyLoop, RamM.bind_ok (load8_run (hsrc.mono (Nat.le_refl _) (by omega))), hb,
      RamM.bind_ok (putByte_run (hdst.mono (Nat.le_refl _) (by omega))), if_neg hne,
      ih hcopied (by simpa using hsrc.mono (by omega) (by omega))
        (by simpa using hdst.mono (by omega) (by omega)) (by omega) (by omega)]
    rfl

/-- **`strcpy`** between places that are apart. -/
theorem strcpy_run {dst src : Nat} {l : List UInt8} (h : CStrAt s.bytes src l)
    (hsrc : s.Live src (l.length + 1)) (hdst : s.Live dst (l.length + 1))
    (hapart : src + l.length < dst ∨ dst + l.length < src) (hlen : l.length < 2 ^ 32) :
    strcpy dst src s = .ok ((), s.put (storeBytes s.bytes dst (l ++ [0]))) :=
  strcpyLoop_run h hsrc hdst hapart hlen

end HeavenFox.Common
