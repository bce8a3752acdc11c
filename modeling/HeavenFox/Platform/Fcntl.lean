/-
# HeavenFox.Platform.Fcntl -- the table of file descriptors

`fwk_fcntl.c` keeps the open files in an array of 32 slots and, when that is full, in an
extension of 128 more.  An open first chooses a descriptor, then opens the device and then
fills the slot; a close clears it.  `max_fdset` is a high-water mark that the choice
starts from, and `ref_fdarr` counts the descriptors given out of the array.

`Sound` is what ties these together, for any number of descriptors that are chosen and not
filled yet; every function below has one lemma about it.
-/
import HeavenFox.Common.ErrorTypes
import HeavenFox.Logic.Slots
import HeavenFox.Platform.Basic

namespace HeavenFox.Platform

open HeavenFox.Common HeavenFox.Logic

/-! ## The table -/

/-- `FILE_DESC_NUM_MAX`. -/
abbrev fileDescNumMax : Nat := 32

/-- `FILE_DESC_EXP_NUM`. -/
abbrev fileDescExpNum : Nat := 128

/-- A `struct fwk_file_table`, its mutex apart.  Files are addresses. -/
structure FwkFileTable where
  maxFdarr : Int
  maxFds : Int
  maxFdset : Int
  refFdarr : Int
  fds : Option (Nat → Nat)
  fdArray : Nat → Nat

/-- `sgrt_fwk_file_table`. -/
def sgrtFwkFileTable : FwkFileTable where
  maxFdarr := 0
  maxFds := fileDescNumMax
  maxFdset := -1
  refFdarr := 0
  fds := none
  fdArray := fun _ => 0

/-- `FILE_DESC_OVER_BASE`. -/
def fileDescOverBase (fd : Int) : Bool := decide (fd < deviceMajorBase)

/-- An element of an array. -/
def readSlot (a : Nat → Nat) (size : Nat) (index : Int) : Except Stop Nat :=
  if 0 ≤ index ∧ index < size then .ok (a index.toNat) else .error .fault

def writeSlot (a : Nat → Nat) (size : Nat) (index : Int) (file : Nat) : Except Stop (Nat → Nat) :=
  if 0 ≤ index ∧ index < size then .ok (Function.update a index.toNat file) else .error .fault

/-- The first of the next `k` slots from `index` on that is empty. -/
def scanSlots (a : Nat → Nat) (size : Nat) : Nat → Nat → Except Stop (Option Nat)
  | 0, _ => .ok none
  | k + 1, index => do
    let file ← readSlot a size index
    if file = 0 then .ok (some index) else scanSlots a size k (index + 1)

/-- `fwk_file_system_init`; `stdio` are the addresses of the elements of `sgrt_fwk_file_stdio`. -/
def fwkFileSystemInit (stdio : Fin deviceMajorBase → ObjPtr) (t : FwkFileTable) :
    Int × FwkFileTable :=
  let t := { t with maxFds := if t.maxFds = 0 then fileDescNumMax else t.maxFds }
  let t := { t with maxFdarr := min t.maxFds fileDescNumMax }
  if t.maxFdarr < (deviceMajorBase : Int) then (-erMore, t)
  else
    (erNormal,
      { t with
        fdArray := fun i => if h : i < deviceMajorBase then (stdio ⟨i, h⟩).1 else t.fdArray i
        maxFds := t.maxFdarr
        refFdarr := deviceMajorBase
        maxFdset := deviceMajorBase - 1 })

/-! ## Choosing a descriptor -/

/-- `fwk_get_fd_available`. -/
def fwkGetFdAvailable (t : FwkFileTable) : Int := if t.refFdarr < t.maxFdarr then t.refFdarr else -1

/-- `fwk_fdtable_get`. -/
def fwkFdtableGet (t : FwkFileTable) : FwkFileTable :=
  { t with refFdarr := if t.refFdarr < t.maxFdarr then t.refFdarr + 1 else t.maxFdarr }

/-- `fwk_fdtable_put`. -/
def fwkFdtablePut (t : FwkFileTable) : FwkFileTable :=
  { t with
    refFdarr := if t.refFdarr > deviceMajorBase then t.refFdarr - 1 else deviceMajorBase }

/-- `fwk_get_expand_fdtable`; `kcalloc` is what the allocator returns: nothing, or an array with what
happens to be in that memory, which it does not clear. -/
def fwkGetExpandFdtable (kcalloc : Option (Nat → Nat)) (t : FwkFileTable) :
    Except Stop (Int × FwkFileTable) :=
  let t := { t with fds := t.fds <|> kcalloc }
  match t.fds with
  | none => .ok (-erError, t)
  | some fds => do
    match ← scanSlots fds fileDescExpNum fileDescExpNum 0 with
    | none => .ok (-erError, t)
    | some i =>
      let index := i + t.maxFdarr
      .ok (index,
        { t with maxFdset := max t.maxFdset index, maxFds := t.maxFdarr + fileDescExpNum })

/-- `fwk_get_unused_fd_flags`: the slot behind the high-water mark, else the first empty one below it,
else one of the extension. -/
def fwkGetUnusedFdFlags (kcalloc : Option (Nat → Nat)) (t : FwkFileTable) :
    Except Stop (Int × FwkFileTable) :=
  if fwkGetFdAvailable t < 0 then fwkGetExpandFdtable kcalloc t
  else
    let index := if t.maxFdset + 1 < t.maxFdarr then t.maxFdset + 1 else -1
    if 0 ≤ index then .ok (index, fwkFdtableGet { t with maxFdset := t.maxFdset + 1 })
    else do
      match ← scanSlots t.fdArray fileDescNumMax t.maxFdset.toNat 0 with
      | some index => .ok (index, fwkFdtableGet t)
      | none => .ok (-erMore, t)

/-! ## Giving a descriptor back -/

/-- `fwk_put_expand_fdtable`: the extension goes with its first slot. -/
def fwkPutExpandFdtable (t : FwkFileTable) (fd : Int) : Except Stop FwkFileTable :=
  match t.fds with
  | none => .ok t
  | some fds =>
    if fd < t.maxFdarr then .ok t
    else do
      let index := fd - t.maxFdarr
      let fds ← writeSlot fds fileDescExpNum index 0
      let maxFdset := if t.maxFdset > fd then t.maxFdset else fd - 1
      if index = 0 then
        .ok { t with fds := none, maxFds := t.maxFdarr, maxFdset := maxFdset }
      else .ok { t with fds := some fds, maxFdset := maxFdset }

/-- `fwk_put_used_fd_flags`. -/
def fwkPutUsedFdFlags (t : FwkFileTable) (fd : Int) : Except Stop FwkFileTable :=
  if fileDescOverBase fd then .ok t
  else if t.maxFdarr ≤ fd then fwkPutExpandFdtable t fd
  else do
    let fdArray ← writeSlot t.fdArray fileDescNumMax fd 0
    .ok (fwkFdtablePut
      { t with
        fdArray := fdArray
        maxFdset := if t.maxFdset > fd then t.maxFdset else fd - 1 })

/-! ## Files -/

/-- `sprt_fdt[index]`: the slot of a descriptor. -/
def readFdt (t : FwkFileTable) (fd : Int) : Except Stop Nat :=
  if t.maxFdarr ≤ fd then
    match t.fds with
    | none => .error .fault
    | some fds => readSlot fds fileDescExpNum (fd - t.maxFdarr)
  else readSlot t.fdArray fileDescNumMax fd

def writeFdt (t : FwkFileTable) (fd : Int) (file : Nat) : Except Stop FwkFileTable :=
  if t.maxFdarr ≤ fd then
    match t.fds with
    | none => .error .fault
    | some fds => do
      let fds ← writeSlot fds fileDescExpNum (fd - t.maxFdarr) file
      .ok { t with fds := some fds }
  else do
    let fdArray ← writeSlot t.fdArray fileDescNumMax fd file
    .ok { t with fdArray := fdArray }

/-- `fwk_fd_install`. -/
def fwkFdInstall (t : FwkFileTable) (fd : Int) (file : Nat) : Except Stop (Int × FwkFileTable) :=
  if fileDescOverBase fd || !isValid file then .ok (-erUnvalid, t)
  else do
    let old ← readFdt t fd
    if old ≠ 0 then .ok (-erUnvalid, t)
    else do
      let t ← writeFdt t fd file
      .ok (erNormal, t)

/-- `fwk_fd_to_file`. -/
def fwkFdToFile (t : FwkFileTable) (fd : Int) : Except Stop Nat :=
  if fileDescOverBase fd then .ok 0 else readFdt t fd

/-- `fwk_do_open`; `file` is what `fwk_do_filp_open` returns. -/
def fwkDoOpen (kcalloc : Option (Nat → Nat)) (file : Nat) (t : FwkFileTable) :
    Except Stop (Int × FwkFileTable) := do
  let (fd, t) ← fwkGetUnusedFdFlags kcalloc t
  if fd < 0 then .ok (-erFault, t)
  else if !isValid file then do
    let t ← fwkPutUsedFdFlags t fd
    .ok (-erFault, t)
  else do
    let (retval, t) ← fwkFdInstall t fd file
    if retval ≠ 0 then do
      let t ← fwkPutUsedFdFlags t fd
      .ok (-erFault, t)
    else .ok (fd, t)

/-- `fwk_do_close`. -/
def fwkDoClose (t : FwkFileTable) (fd : Int) : Except Stop FwkFileTable := do
  let file ← fwkFdToFile t fd
  if !isValid file then .ok t else fwkPutUsedFdFlags t fd

/-- `virt_open`. -/
def virtOpen (kcalloc : Option (Nat → Nat)) (file : Nat) (t : FwkFileTable) :
    Except Stop (Int × FwkFileTable) := fwkDoOpen kcalloc file t

/-- `virt_close`. -/
def virtClose (t : FwkFileTable) (fd : Int) : Except Stop FwkFileTable := fwkDoClose t fd

/-! ## Slots -/

theorem readSlot_nat {a : Nat → Nat} {size i : Nat} (hi : i < size) :
    readSlot a size (i : Int) = .ok (a i) := by
  rw [readSlot, if_pos (by omega), Int.toNat_natCast]

theorem writeSlot_nat {a : Nat → Nat} {size i file : Nat} (hi : i < size) :
    writeSlot a size (i : Int) file = .ok (Function.update a i file) := by
  rw [writeSlot, if_pos (by omega), Int.toNat_natCast]

/-- The scan stays in the array as long as it is short enough or meets an empty slot, and what it
finds is the first empty slot. -/
theorem scanSlots_returns (a : Nat → Nat) (size k index : Nat)
    (h : index + k ≤ size ∨ ∃ j < size, index ≤ j ∧ a j = 0) :
    ∃ r, scanSlots a size k index = .ok r ∧ ∀ i, r = some i →
      i < size ∧ i < index + k ∧ a i = 0 ∧ ∀ j, index ≤ j → j < i → a j ≠ 0 := by
  induction k generalizing index with
  | zero => exact ⟨none, rfl, fun i hi => by cases hi⟩
  | succ k ih =>
    have hindex : index < size := by
      rcases h with h | ⟨j, hj, hle, -⟩ <;> omega
    rw [scanSlots, readSlot_nat hindex]
    simp only [bind, Except.bind]
    by_cases hempty : a index = 0
    · refine ⟨some index, if_pos hempty, fun i hi => ?_⟩
      cases hi
      exact ⟨hindex, by omega, hempty, fun j _ _ => by omega⟩
    · rw [if_neg hempty]
      have hnext : index + 1 + k ≤ size ∨ ∃ j < size, index + 1 ≤ j ∧ a j = 0 := by
        rcases h with h | ⟨j, hj, hle, hjempty⟩
        · exact .inl (by omega)
        · have hne : j ≠ index := fun heq => hempty (heq ▸ hjempty)
          exact .inr ⟨j, hj, by omega, hjempty⟩
      obtain ⟨r, hr, hfirst⟩ := ih _ hnext
      refine ⟨r, hr, fun i hi => ?_⟩
      obtain ⟨hisize, hik, hiempty, hbelow⟩ := hfirst i hi
      refine ⟨hisize, by omega, hiempty, fun j hj hji => ?_⟩
      by_cases heq : j = index
      · exact heq ▸ hempty
      · exact hbelow j (by omega) hji

/-! ## What ties the table together -/

/-- The table, with descriptors of the array that are chosen and not filled yet. -/
structure FwkFileTable.Sound (t : FwkFileTable) (reserved : List Nat) : Prop where
  size : t.maxFdarr = fileDescNumMax
  stdio : ∀ i < deviceMajorBase, t.fdArray i ≠ 0
  nodup : reserved.Nodup
  empty : ∀ i ∈ reserved, i < fileDescNumMax ∧ t.fdArray i = 0 ∧ (i : Int) ≤ t.maxFdset
  top : ∀ i < fileDescNumMax, t.fdArray i ≠ 0 → (i : Int) ≤ t.maxFdset
  count : t.refFdarr = taken t.fdArray fileDescNumMax + reserved.length

namespace FwkFileTable

variable {t : FwkFileTable} {reserved : List Nat}

/-- The table after `fwk_file_system_init`. -/
theorem sound_init (stdio : Fin deviceMajorBase → ObjPtr) :
    (fwkFileSystemInit stdio sgrtFwkFileTable).2.Sound [] := by
  have htaken : ∀ i, (fwkFileSystemInit stdio sgrtFwkFileTable).2.fdArray i ≠ 0 ↔
      i < deviceMajorBase := by
    intro i
    show (if h : i < deviceMajorBase then (stdio ⟨i, h⟩).1 else 0) ≠ 0 ↔ _
    by_cases hi : i < deviceMajorBase
    · rw [dif_pos hi]
      exact ⟨fun _ => hi, fun _ => (isValid_iff.mp (stdio ⟨i, hi⟩).2).1.ne'⟩
    · rw [dif_neg hi]
      exact ⟨fun h => absurd rfl h, fun h => absurd h hi⟩
  refine ⟨rfl, fun i hi => (htaken i).mpr hi, List.nodup_nil, fun i hi => absurd hi List.not_mem_nil,
    fun i _ hi => ?_, ?_⟩
  · have hlt : i < 3 := (htaken i).mp hi
    show (i : Int) ≤ 2
    omega
  · have hset : (Finset.range fileDescNumMax).filter
        (fun i => (fwkFileSystemInit stdio sgrtFwkFileTable).2.fdArray i ≠ 0) =
        Finset.range deviceMajorBase := by
      ext i
      rw [Finset.mem_filter, htaken, Finset.mem_range, Finset.mem_range]
      exact ⟨fun h => h.2, fun h => ⟨Nat.lt_trans h (by decide), h⟩⟩
    rw [taken, hset, Finset.card_range]
    rfl

theorem Sound.two_le (h : t.Sound reserved) : 2 ≤ t.maxFdset :=
  h.top 2 (by decide) (h.stdio 2 (by decide))

/-- Descriptors that are chosen are not those of the standard streams. -/
theorem Sound.reserved_ge (h : t.Sound reserved) {i : Nat} (hi : i ∈ reserved) :
    deviceMajorBase ≤ i := by
  by_contra hlt
  exact h.stdio i (Nat.lt_of_not_le hlt) (h.empty i hi).2.1

/-- While descriptors of the array are left, the counter says so. -/
theorem Sound.available (h : t.Sound reserved)
    (hfree : taken t.fdArray fileDescNumMax + reserved.length < fileDescNumMax) :
    fwkGetFdAvailable t = t.refFdarr ∧ 0 ≤ t.refFdarr := by
  have hcount := h.count
  have hsize := h.size
  rw [fwkGetFdAvailable, if_pos (by omega)]
  omega

/-- One more is chosen. -/
theorem Sound.get (h : t.Sound reserved) {i : Nat} {maxFdset : Int} (hi : i < fileDescNumMax)
    (hempty : t.fdArray i = 0) (hnew : i ∉ reserved) (htop : (i : Int) ≤ maxFdset)
    (hle : t.maxFdset ≤ maxFdset)
    (hfree : taken t.fdArray fileDescNumMax + reserved.length < fileDescNumMax) :
    (fwkFdtableGet { t with maxFdset := maxFdset }).Sound (i :: reserved) where
  size := h.size
  stdio := h.stdio
  nodup := List.nodup_cons.mpr ⟨hnew, h.nodup⟩
  empty := by
    refine List.forall_mem_cons.mpr ⟨⟨hi, hempty, htop⟩, fun j hj => ?_⟩
    obtain ⟨hlt, hj0, hjtop⟩ := h.empty j hj
    exact ⟨hlt, hj0, hjtop.trans hle⟩
  top := fun j hj htaken => (h.top j hj htaken).trans hle
  count := by
    have hcount := h.count
    have hsize := h.size
    show (if t.refFdarr < t.maxFdarr then t.refFdarr + 1 else t.maxFdarr) = _
    rw [if_pos (by omega), hcount, List.length_cons]
    push_cast
    exact Int.add_assoc _ _ _

/-- **Choosing a descriptor of the array.**  The one behind the high-water mark is free; the first
empty slot below it may be one that is chosen already, unless an empty slot comes before all those. -/
theorem Sound.getUnused (h : t.Sound reserved) (kcalloc : Option (Nat → Nat))
    (hfree : taken t.fdArray fileDescNumMax + reserved.length < fileDescNumMax)
    (hscan : t.maxFdset + 1 < fileDescNumMax ∨
      ∀ i ∈ reserved, (i : Int) < t.maxFdset → ∃ j < i, t.fdArray j = 0) :
    ∃ fd t', fwkGetUnusedFdFlags kcalloc t = .ok (fd, t') ∧ t'.fdArray = t.fdArray ∧
      t'.fds = t.fds ∧ (fd = -erMore ∧ t' = t ∨
        ∃ i : Nat, fd = i ∧ i < fileDescNumMax ∧ i ∉ reserved ∧ t'.Sound (i :: reserved)) := by
  obtain ⟨havail, hnonneg⟩ := h.available hfree
  have hsize := h.size
  have htwo := h.two_le
  rw [fwkGetUnusedFdFlags, if_neg (by omega)]
  dsimp only
  by_cases hnext : t.maxFdset + 1 < fileDescNumMax
  · obtain ⟨i, hi⟩ : ∃ i : Nat, t.maxFdset + 1 = i := ⟨(t.maxFdset + 1).toNat, by omega⟩
    have hempty : t.fdArray i = 0 := by
      by_contra htaken
      have htop := h.top i (by omega) htaken
      omega
    have hnew : i ∉ reserved := fun hmem => by
      have htop := (h.empty i hmem).2.2
      omega
    rw [if_pos (show t.maxFdset + 1 < t.maxFdarr by omega), if_pos (by omega)]
    exact ⟨_, _, rfl, rfl, rfl, .inr ⟨i, hi, by omega, hnew,
      h.get (by omega) hempty hnew hi.ge (by omega) hfree⟩⟩
  · obtain ⟨j, hj, hjempty, -⟩ := exists_free hfree
    obtain ⟨r, hr, hfirst⟩ := scanSlots_returns t.fdArray _ t.maxFdset.toNat 0
      (.inr ⟨j, hj, Nat.zero_le j, hjempty⟩)
    rw [if_neg (show ¬ t.maxFdset + 1 < t.maxFdarr by omega), if_neg (by decide), hr]
    cases r with
    | none => exact ⟨_, _, rfl, rfl, rfl, .inl ⟨rfl, rfl⟩⟩
    | some i =>
      obtain ⟨hlt, hbound, hempty, hbelow⟩ := hfirst i rfl
      have hnew : i ∉ reserved := fun hmem => by
        obtain ⟨j, hj, hjempty⟩ := hscan.resolve_left hnext i hmem (by omega)
        exact hbelow j (Nat.zero_le j) hj hjempty
      exact ⟨_, _, rfl, rfl, rfl, .inr ⟨i, rfl, hlt, hnew,
        h.get hlt hempty hnew (by omega) (Int.le_refl _) hfree⟩⟩

/-- **Choosing a descriptor of the extension.** -/
theorem Sound.getExpand (h : t.Sound reserved) (kcalloc : Option (Nat → Nat)) :
    ∃ fd t', fwkGetExpandFdtable kcalloc t = .ok (fd, t') ∧ t'.Sound reserved ∧
      t'.fdArray = t.fdArray ∧ t'.fds = (t.fds <|> kcalloc) ∧ (fd < 0 ∨
        ∃ (i : Nat) (fds : Nat → Nat), fd = fileDescNumMax + i ∧ i < fileDescExpNum ∧
          t'.fds = some fds ∧ fds i = 0 ∧ ∀ j < i, fds j ≠ 0) := by
  rw [fwkGetExpandFdtable]
  dsimp only
  cases hfds : (t.fds <|> kcalloc) with
  | none => exact ⟨_, _, rfl, ⟨h.1, h.2, h.3, h.4, h.5, h.6⟩, rfl, rfl, .inl (by decide)⟩
  | some fds =>
    obtain ⟨r, hr, hfirst⟩ := scanSlots_returns fds fileDescExpNum fileDescExpNum 0
      (.inl (Nat.le_refl _))
    dsimp only
    rw [hr]
    cases r with
    | none => exact ⟨_, _, rfl, ⟨h.1, h.2, h.3, h.4, h.5, h.6⟩, rfl, rfl, .inl (by decide)⟩
    | some i =>
      obtain ⟨hlt, -, hempty, hbelow⟩ := hfirst i rfl
      have hmax : t.maxFdset ≤ max t.maxFdset (i + t.maxFdarr) := Int.le_max_left _ _
      refine ⟨_, _, rfl, ⟨h.size, h.stdio, h.nodup, fun j hj => ?_, fun j hj htaken => ?_, h.count⟩,
        rfl, rfl, .inr ⟨i, fds, ?_, hlt, rfl, hempty, fun j => hbelow j (Nat.zero_le j)⟩⟩
      · obtain ⟨hj32, hj0, hjtop⟩ := h.empty j hj
        exact ⟨hj32, hj0, hjtop.trans hmax⟩
      · exact (h.top j hj htaken).trans hmax
      · rw [h.size, Int.add_comm]

/-! ## Filling and clearing slots of the array -/

/-- The standard streams take their slots. -/
theorem base_le_taken {a : Nat → Nat} (h : ∀ i < deviceMajorBase, a i ≠ 0) :
    deviceMajorBase ≤ taken a fileDescNumMax := by
  have hsub : Finset.range deviceMajorBase ⊆
      (Finset.range fileDescNumMax).filter fun i => a i ≠ 0 := by
    intro i hi
    have hlt := Finset.mem_range.mp hi
    exact Finset.mem_filter.mpr ⟨Finset.mem_range.mpr (Nat.lt_trans hlt (by decide)), h i hlt⟩
  have hcard := Finset.card_le_card hsub
  rwa [Finset.card_range] at hcard

/-- The order in which descriptors were chosen does not matter. -/
theorem Sound.perm {reserved' : List Nat} (h : t.Sound reserved) (hperm : reserved.Perm reserved') :
    t.Sound reserved' where
  size := h.size
  stdio := h.stdio
  nodup := hperm.nodup_iff.mp h.nodup
  empty := fun i hi => h.empty i (hperm.mem_iff.mpr hi)
  top := h.top
  count := by rw [h.count, hperm.length_eq]

/-- The table with the slot filled. -/
def fill (t : FwkFileTable) (i file : Nat) : FwkFileTable :=
  { t with fdArray := Function.update t.fdArray i file }

/-- A descriptor that was chosen is filled. -/
theorem Sound.fill {i file : Nat} (h : t.Sound (i :: reserved)) (hfile : file ≠ 0) :
    (t.fill i file).Sound reserved := by
  obtain ⟨hlt, hempty, htop⟩ := h.empty i List.mem_cons_self
  have hnew := (List.nodup_cons.mp h.nodup).1
  refine ⟨h.size, fun j hj => ?_, (List.nodup_cons.mp h.nodup).2, fun j hj => ?_,
    fun j hj htaken => ?_, ?_⟩
  · have hne : j ≠ i := fun heq => h.stdio j hj (heq ▸ hempty)
    show Function.update t.fdArray i file j ≠ 0
    rw [Function.update_of_ne hne]
    exact h.stdio j hj
  · have hne : j ≠ i := fun heq => hnew (heq ▸ hj)
    show _ ∧ Function.update t.fdArray i file j = 0 ∧ _
    rw [Function.update_of_ne hne]
    exact h.empty j (List.mem_cons_of_mem i hj)
  · by_cases hne : j = i
    · exact hne ▸ htop
    · refine h.top j hj ?_
      have hsame : Function.update t.fdArray i file j = t.fdArray j := Function.update_of_ne hne _ _
      exact hsame ▸ htaken
  · have hcount := h.count
    show t.refFdarr = taken (Function.update t.fdArray i file) fileDescNumMax + reserved.length
    rw [taken_fill hlt hempty hfile, hcount, List.length_cons]
    push_cast
    omega

/-- `fwk_fd_install` on an empty slot of the array. -/
theorem install_array {i file : Nat} (hsize : t.maxFdarr = fileDescNumMax)
    (hbase : deviceMajorBase ≤ i) (hlt : i < fileDescNumMax) (hempty : t.fdArray i = 0)
    (hfile : isValid file = true) : fwkFdInstall t i file = .ok (erNormal, t.fill i file) := by
  have hover : fileDescOverBase i = false := by
    simpa [fileDescOverBase] using hbase
  have harray : ¬ t.maxFdarr ≤ i := by omega
  simp only [fwkFdInstall, readFdt, writeFdt, hover, hfile, if_neg harray, readSlot_nat hlt,
    writeSlot_nat hlt, hempty, bind, Except.bind, FwkFileTable.fill]
  rfl

/-- The table with the slot cleared and the descriptor given back. -/
def cleared (t : FwkFileTable) (i : Nat) : FwkFileTable :=
  fwkFdtablePut
    { t with
      fdArray := Function.update t.fdArray i 0
      maxFdset := if t.maxFdset > i then t.maxFdset else (i : Int) - 1 }

/-- `fwk_put_used_fd_flags` on a slot of the array. -/
theorem put_array {i : Nat} (hsize : t.maxFdarr = fileDescNumMax) (hbase : deviceMajorBase ≤ i)
    (hlt : i < fileDescNumMax) : fwkPutUsedFdFlags t i = .ok (t.cleared i) := by
  have hover : fileDescOverBase i = false := by
    simpa [fileDescOverBase] using hbase
  have harray : ¬ t.maxFdarr ≤ i := by omega
  simp only [fwkPutUsedFdFlags, hover, if_neg harray, writeSlot_nat hlt, bind, Except.bind]
  rfl

/-- Lowering the high-water mark for one descriptor leaves it above the others. -/
theorem le_lowered {j top fd : Int} (hj : j ≤ top) (hne : j ≠ fd) :
    j ≤ if top > fd then top else fd - 1 := by
  split <;> omega

theorem le_maxFdset_cleared {i j : Nat} (hj : (j : Int) ≤ t.maxFdset) (hne : j ≠ i) :
    (j : Int) ≤ (t.cleared i).maxFdset := le_lowered hj (by omega)

/-- A descriptor that was chosen is given back without having been filled. -/
theorem Sound.cancel {i : Nat} (h : t.Sound (i :: reserved)) : (t.cleared i).Sound reserved := by
  obtain ⟨hlt, hempty, htop⟩ := h.empty i List.mem_cons_self
  have hnew := (List.nodup_cons.mp h.nodup).1
  have hsame : Function.update t.fdArray i 0 = t.fdArray := by
    rw [← hempty, Function.update_eq_self]
  have harray : (t.cleared i).fdArray = t.fdArray := hsame
  refine ⟨h.size, fun j hj => ?_, (List.nodup_cons.mp h.nodup).2, fun j hj => ?_,
    fun j hj htaken => ?_, ?_⟩
  · rw [harray]
    exact h.stdio j hj
  · rw [harray]
    obtain ⟨hj32, hj0, hjtop⟩ := h.empty j (List.mem_cons_of_mem i hj)
    exact ⟨hj32, hj0, le_maxFdset_cleared hjtop fun heq => hnew (heq ▸ hj)⟩
  · rw [harray] at htaken
    exact le_maxFdset_cleared (h.top j hj htaken) fun heq => htaken (heq ▸ hempty)
  · have hcount := h.count
    have hbase := base_le_taken h.stdio
    rw [harray]
    show (if t.refFdarr > deviceMajorBase then t.refFdarr - 1 else (deviceMajorBase : Int)) = _
    rw [List.length_cons] at hcount
    rw [if_pos (by omega)]
    omega

/-- A descriptor that is open is given back. -/
theorem Sound.clear {i : Nat} (h : t.Sound reserved) (hbase : deviceMajorBase ≤ i)
    (hlt : i < fileDescNumMax) (htaken : t.fdArray i ≠ 0) : (t.cleared i).Sound reserved := by
  have hother : ∀ j, j ≠ i → (t.cleared i).fdArray j = t.fdArray j := fun j hj =>
    Function.update_of_ne hj _ _
  have hstdio : ∀ j < deviceMajorBase, (t.cleared i).fdArray j ≠ 0 := by
    intro j hj
    rw [hother j (by omega)]
    exact h.stdio j hj
  refine ⟨h.size, hstdio, h.nodup, fun j hj => ?_, fun j hj hjtaken => ?_, ?_⟩
  · obtain ⟨hj32, hj0, hjtop⟩ := h.empty j hj
    have hne : j ≠ i := fun heq => htaken (heq ▸ hj0)
    rw [hother j hne]
    exact ⟨hj32, hj0, le_maxFdset_cleared hjtop hne⟩
  · have hne : j ≠ i := by
      rintro rfl
      exact hjtaken (Function.update_self j 0 t.fdArray)
    rw [hother j hne] at hjtaken
    exact le_maxFdset_cleared (h.top j hj hjtaken) hne
  · have hcount := h.count
    have hclear := taken_clear hlt htaken
    have hleft : deviceMajorBase ≤ taken (Function.update t.fdArray i 0) fileDescNumMax :=
      base_le_taken hstdio
    show (if t.refFdarr > deviceMajorBase then t.refFdarr - 1 else (deviceMajorBase : Int)) =
      taken (Function.update t.fdArray i 0) fileDescNumMax + reserved.length
    rw [if_pos (by omega)]
    omega

/-! ## Slots of the extension -/

/-- The extension has no part in it. -/
theorem Sound.setFds (h : t.Sound reserved) (fds : Option (Nat → Nat)) :
    FwkFileTable.Sound { t with fds := fds } reserved :=
  ⟨h.size, h.stdio, h.nodup, h.empty, h.top, h.count⟩

theorem fileDescOverBase_expand (i : Nat) : fileDescOverBase (fileDescNumMax + i : Int) = false := by
  unfold fileDescOverBase fileDescNumMax deviceMajorBase
  rw [decide_eq_false_iff_not]
  omega

/-- `sprt_fdt[index]` in the extension. -/
theorem readFdt_expand {fds : Nat → Nat} {i : Nat} (hsize : t.maxFdarr = fileDescNumMax)
    (hfds : t.fds = some fds) (hlt : i < fileDescExpNum) :
    readFdt t (fileDescNumMax + i) = .ok (fds i) := by
  have hsub : (fileDescNumMax : Int) + i - t.maxFdarr = i := by omega
  rw [readFdt, if_pos (by omega), hfds]
  dsimp only
  rw [hsub, readSlot_nat hlt]

/-- `fwk_fd_install` on an empty slot of the extension. -/
theorem install_expand {fds : Nat → Nat} {i file : Nat} (hsize : t.maxFdarr = fileDescNumMax)
    (hfds : t.fds = some fds) (hlt : i < fileDescExpNum) (hempty : fds i = 0)
    (hfile : isValid file = true) : fwkFdInstall t (fileDescNumMax + i) file =
      .ok (erNormal, { t with fds := some (Function.update fds i file) }) := by
  have hsub : (fileDescNumMax : Int) + i - t.maxFdarr = i := by omega
  rw [fwkFdInstall, fileDescOverBase_expand, hfile, readFdt_expand hsize hfds hlt, hempty, writeFdt,
    if_pos (show t.maxFdarr ≤ (fileDescNumMax : Int) + i by omega), hfds]
  dsimp only
  rw [hsub, writeSlot_nat hlt]
  rfl

/-- **`fwk_put_used_fd_flags` in the extension.**  With its first slot the extension is gone. -/
theorem Sound.put_expand {fds : Nat → Nat} {i : Nat} (h : t.Sound reserved)
    (hfds : t.fds = some fds) (hlt : i < fileDescExpNum) :
    ∃ t', fwkPutUsedFdFlags t (fileDescNumMax + i) = .ok t' ∧ t'.Sound reserved ∧
      t'.fdArray = t.fdArray ∧
      t'.fds = if i = 0 then none else some (Function.update fds i 0) := by
  have hsize := h.size
  have hsub : (fileDescNumMax : Int) + i - t.maxFdarr = i := by omega
  have hkept : ∀ (fds : Option (Nat → Nat)) (maxFds : Int), FwkFileTable.Sound
      { t with
        fds := fds
        maxFds := maxFds
        maxFdset :=
          if t.maxFdset > fileDescNumMax + i then t.maxFdset else (fileDescNumMax + i : Int) - 1 }
      reserved := by
    refine fun fds maxFds => ⟨h.size, h.stdio, h.nodup, fun j hj => ?_, fun j hj htaken => ?_, h.count⟩
    · obtain ⟨hj32, hj0, hjtop⟩ := h.empty j hj
      exact ⟨hj32, hj0, le_lowered hjtop (by omega)⟩
    · exact le_lowered (h.top j hj htaken) (by omega)
  rw [fwkPutUsedFdFlags, fileDescOverBase_expand, if_neg Bool.false_ne_true, if_pos (by omega),
    fwkPutExpandFdtable, hfds]
  dsimp only
  rw [if_neg (by omega), hsub, writeSlot_nat hlt]
  by_cases hi : i = 0
  · rw [if_pos hi]
    simp only [bind, Except.bind, if_pos (show (i : Int) = 0 by omega)]
    exact ⟨_, rfl, hkept _ _, rfl, rfl⟩
  · rw [if_neg hi]
    simp only [bind, Except.bind, if_neg (show ¬ (i : Int) = 0 by omega)]
    exact ⟨_, rfl, hkept _ _, rfl, rfl⟩

/-- Reading a slot of the extension says that there is one. -/
theorem readFdt_expand_ok {fd file : Nat} (hsize : t.maxFdarr = fileDescNumMax)
    (hge : fileDescNumMax ≤ fd) (h : readFdt t fd = .ok file) :
    ∃ i fds, fd = fileDescNumMax + i ∧ i < fileDescExpNum ∧ t.fds = some fds ∧ fds i = file := by
  obtain ⟨i, rfl⟩ : ∃ i, fd = fileDescNumMax + i := ⟨fd - fileDescNumMax, by omega⟩
  have hsub : ((fileDescNumMax + i : Nat) : Int) - t.maxFdarr = i := by omega
  rw [readFdt, if_pos (by omega), hsub] at h
  cases hfds : t.fds with
  | none => simp [hfds] at h
  | some fds =>
    rw [hfds] at h
    by_cases hlt : i < fileDescExpNum
    · have hread := (readSlot_nat (a := fds) hlt).symm.trans h
      exact ⟨i, fds, rfl, hlt, rfl, Except.ok.inj hread⟩
    · dsimp only at h
      rw [readSlot, if_neg (by omega)] at h
      cases h

/-! ## What an open and a close do -/

/-- What an open does to the slots: nothing, or a slot of the array is filled; or the extension is
there and nothing else, or the slot that was chosen in it is given back, or filled. -/
inductive OpenEffect (t : FwkFileTable) (kcalloc : Option (Nat → Nat)) (file : Nat) :
    Int → FwkFileTable → Prop where
  | refused {r : Int} {t' : FwkFileTable} (hr : r < 0) (harray : t'.fdArray = t.fdArray)
      (hfds : t'.fds = t.fds) : OpenEffect t kcalloc file r t'
  | array {i : Nat} {t' : FwkFileTable} (hbase : deviceMajorBase ≤ i) (hlt : i < fileDescNumMax)
      (hempty : t.fdArray i = 0) (hfile : isValid file = true)
      (harray : t'.fdArray = Function.update t.fdArray i file) (hfds : t'.fds = t.fds) :
      OpenEffect t kcalloc file i t'
  | expanded {r : Int} {t' : FwkFileTable} (hr : r < 0) (harray : t'.fdArray = t.fdArray)
      (hfds : t'.fds = (t.fds <|> kcalloc)) : OpenEffect t kcalloc file r t'
  | givenBack {r : Int} {t' : FwkFileTable} {i : Nat} {fds : Nat → Nat} (hr : r < 0)
      (hlt : i < fileDescExpNum) (hold : (t.fds <|> kcalloc) = some fds) (hempty : fds i = 0)
      (hbelow : ∀ j < i, fds j ≠ 0) (harray : t'.fdArray = t.fdArray)
      (hfds : t'.fds = if i = 0 then none else some (Function.update fds i 0)) :
      OpenEffect t kcalloc file r t'
  | expand {t' : FwkFileTable} {i : Nat} {fds : Nat → Nat} (hlt : i < fileDescExpNum)
      (hold : (t.fds <|> kcalloc) = some fds) (hempty : fds i = 0) (hbelow : ∀ j < i, fds j ≠ 0)
      (hfile : isValid file = true) (harray : t'.fdArray = t.fdArray)
      (hfds : t'.fds = some (Function.update fds i file)) :
      OpenEffect t kcalloc file (fileDescNumMax + i : Nat) t'

/-- The descriptor is one of the array. -/
theorem Sound.open_array (h : t.Sound []) (kcalloc : Option (Nat → Nat)) (file : Nat)
    (hfree : taken t.fdArray fileDescNumMax < fileDescNumMax) :
    ∃ r t', virtOpen kcalloc file t = .ok (r, t') ∧ t'.Sound [] ∧
      OpenEffect t kcalloc file r t' := by
  obtain ⟨fd, t₁, hget, harray, hfds, hcase⟩ := h.getUnused kcalloc (by simpa using hfree)
    (.inr fun i hi => absurd hi List.not_mem_nil)
  simp only [virtOpen, fwkDoOpen, hget, bind, Except.bind]
  rcases hcase with ⟨rfl, rfl⟩ | ⟨i, rfl, hlt, -, ht⟩
  · exact ⟨_, _, rfl, h, .refused (by decide) rfl rfl⟩
  obtain ⟨-, hempty, -⟩ := ht.empty i List.mem_cons_self
  have hbase := ht.reserved_ge List.mem_cons_self
  rw [if_neg (by omega)]
  by_cases hfile : isValid file = true
  · simp only [hfile, install_array ht.size hbase hlt hempty hfile]
    refine ⟨_, _, rfl, ht.fill (isValid_iff.mp hfile).1.ne', ?_⟩
    exact .array hbase hlt (harray ▸ hempty) hfile (by rw [← harray]; rfl) hfds
  · simp only [hfile, put_array ht.size hbase hlt]
    refine ⟨_, _, rfl, ht.cancel, .refused (by decide) ?_ hfds⟩
    rw [← harray, ← Function.update_eq_self i t₁.fdArray, hempty]
    rfl

/-- The descriptor is one of the extension. -/
theorem Sound.open_expand (h : t.Sound []) (kcalloc : Option (Nat → Nat)) (file : Nat)
    (hfull : ¬ taken t.fdArray fileDescNumMax < fileDescNumMax) :
    ∃ r t', virtOpen kcalloc file t = .ok (r, t') ∧ t'.Sound [] ∧
      OpenEffect t kcalloc file r t' := by
  have havail : fwkGetFdAvailable t < 0 := by
    have hcount := h.count
    have hsize := h.size
    rw [List.length_nil] at hcount
    rw [fwkGetFdAvailable, if_neg (by omega)]
    decide
  obtain ⟨fd, t₁, hget, ht, harray, hfds, hcase⟩ := h.getExpand kcalloc
  simp only [virtOpen, fwkDoOpen, fwkGetUnusedFdFlags, if_pos havail, hget, bind, Except.bind]
  rcases hcase with hneg | ⟨i, fds, rfl, hlt, hsome, hempty, hbelow⟩
  · rw [if_pos hneg]
    exact ⟨_, _, rfl, ht, .expanded (by decide) harray hfds⟩
  rw [if_neg (by omega)]
  have hold := hfds.symm.trans hsome
  by_cases hfile : isValid file = true
  · simp only [hfile, install_expand ht.size hsome hlt hempty hfile]
    exact ⟨_, _, rfl, ht.setFds _, .expand hlt hold hempty hbelow hfile harray rfl⟩
  · obtain ⟨t', hput, ht', harray', hfds'⟩ := ht.put_expand hsome hlt
    simp only [hfile, hput]
    exact ⟨_, _, rfl, ht',
      .givenBack (by decide) hlt hold hempty hbelow (harray'.trans harray) hfds'⟩

/-- **An open.** -/
theorem Sound.virtOpen (h : t.Sound []) (kcalloc : Option (Nat → Nat)) (file : Nat) :
    ∃ r t', virtOpen kcalloc file t = .ok (r, t') ∧ t'.Sound [] ∧
      OpenEffect t kcalloc file r t' := by
  by_cases hfree : taken t.fdArray fileDescNumMax < fileDescNumMax
  · exact h.open_array kcalloc file hfree
  · exact h.open_expand kcalloc file hfree

/-- **A close** of a descriptor with a file: its slot is cleared, and with the first slot of the
extension the extension is gone. -/
theorem Sound.virtClose (h : t.Sound reserved) {fd file : Nat} (hbase : deviceMajorBase ≤ fd)
    (hfile : fwkFdToFile t fd = .ok file) (hvalid : isValid file = true) :
    ∃ t', virtClose t fd = .ok t' ∧ t'.Sound reserved ∧
      (fd < fileDescNumMax ∧ t'.fdArray = Function.update t.fdArray fd 0 ∧ t'.fds = t.fds ∨
        ∃ i fds, fd = fileDescNumMax + i ∧ i < fileDescExpNum ∧ t.fds = some fds ∧
          t'.fdArray = t.fdArray ∧
          t'.fds = if i = 0 then none else some (Function.update fds i 0)) := by
  have hover : fileDescOverBase fd = false := by
    simpa [fileDescOverBase] using hbase
  have hsize := h.size
  have hread : readFdt t fd = .ok file := by
    rwa [fwkFdToFile, hover, if_neg Bool.false_ne_true] at hfile
  simp only [HeavenFox.Platform.virtClose, fwkDoClose, hfile, hvalid, bind, Except.bind]
  by_cases hlt : fd < fileDescNumMax
  · have htaken : t.fdArray fd ≠ 0 := by
      rw [readFdt, if_neg (by omega), readSlot_nat hlt] at hread
      rw [Except.ok.inj hread]
      exact (isValid_iff.mp hvalid).1.ne'
    exact ⟨_, put_array hsize hbase hlt, h.clear hbase hlt htaken, .inl ⟨hlt, rfl, rfl⟩⟩
  · obtain ⟨i, fds, rfl, hi, hfds, -⟩ := readFdt_expand_ok hsize (Nat.le_of_not_lt hlt) hread
    obtain ⟨t', hput, ht', harray, hfds'⟩ := h.put_expand hfds hi
    exact ⟨t', hput, ht', .inr ⟨i, fds, rfl, hi, hfds, harray, hfds'⟩⟩

end FwkFileTable

end HeavenFox.Platform
