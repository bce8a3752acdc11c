/-
# HeavenFox.Platform.OfUnflatten -- the two passes together

`__fwk_unflatten_device_tree` makes the sizing pass, allocates what it returns
with a guard word behind, and makes the filling pass in that block.  Both passes
consume the same tokens and agree on the memory, so the guard word stays; and
`setup_machine_fdt`, which calls it, does not leave the blob, as long as the blob
is well formed.  The code has no check for a blob that is not.
-/
import HeavenFox.Platform.OfEncode
import HeavenFox.Platform.OfFilling

namespace HeavenFox.Platform

open HeavenFox.Logic HeavenFox.Common

variable {img : OfImage} {d : Fdt} {s t : Ram} {alloc : Kzalloc} {tree : OfTree}

/-! ## A blob -/

/-- A kernel whose variable and literals are here. -/
def exampleImage : OfImage := ⟨0x60000, 0x60010, 0x60018⟩

/-- The memory with that blob and a block of zeros. -/
def exampleRam (d : Fdt) : Ram where
  bytes := d.bytes
  fixed := [⟨d.base, d.len⟩, ⟨0x60010, 5⟩, ⟨0x60000, 4⟩, ⟨0x62000, 170⟩]
  heap := []
  refused := 0

/-- Memory is given behind everything that is in use. -/
def bumpMemory : Kzalloc where
  give s n :=
    let a := alignUp 4 ((s.fixed ++ s.heap).foldr (fun b top => max top (b.base + b.len)) 0)
    if a + n ≤ 0xfffff000 then a else 0
  fresh := fun s n hne => by
    dsimp only at hne ⊢
    split at hne
    · rename_i hroom
      rw [if_pos hroom]
      refine ⟨alignUp_mod _, hroom, fun b hb => .inl ?_⟩
      have htop : b.base + b.len ≤
          (s.fixed ++ s.heap).foldr (fun b top => max top (b.base + b.len)) 0 := by
        generalize s.fixed ++ s.heap = blocks at hb
        induction blocks with
        | nil => exact absurd hb List.not_mem_nil
        | cons c blocks ih =>
          rw [List.foldr_cons]
          rcases List.mem_cons.mp hb with rfl | hb
          · exact Nat.le_max_right _ _
          · exact Nat.le_trans (ih hb) (Nat.le_max_left _ _)
      exact Nat.le_trans htop (le_alignUp _)
    · exact absurd rfl hne

theorem loaded_exampleRam (off : Nat) (block strings : List UInt8)
    (hlen : block.length + strings.length ≤ 100) :
    Loaded exampleImage (exampleFdt off block strings)
      (exampleRam (exampleFdt off block strings)) where
  blob := List.mem_cons_self
  strName := List.mem_cons_of_mem _ List.mem_cons_self
  allNodes := List.mem_cons_of_mem _ (List.mem_cons_of_mem _ List.mem_cons_self)
  const := fun _ _ => rfl
  place := by
    dsimp only [exampleFdt]
    omega
  header := by
    dsimp only [exampleFdt]
    omega
  name := ⟨by decide, by decide, ⟨bytesAt_storeBytes _ _ _, by decide⟩⟩
  head := ⟨by decide, by decide, fun x hlo hhi hx => by
    dsimp only [exampleImage, OfImage.Const, exampleFdt] at *
    omega⟩

theorem exampleHolds : exampleBlob.Holds exampleTree := exampleEncodes.holds exampleNamed

/-- The memory behind the blob is zeroed. -/
theorem exampleBlob_zero {x : Nat} (hlo : 0x62000 ≤ x) : exampleBlob.bytes x = 0 := by
  have hlen : exampleBlob.len = 100 := by decide
  unfold exampleBlob exampleFdt at *
  dsimp only at hlen ⊢
  rw [storeBytes_of_outside, storeBytes_of_outside]
  · simp only [List.length_append, beBytes_length, List.length_replicate] at hlen ⊢
    omega
  · simp only [cstring, List.length_append, List.length_map]
    exact .inr (Nat.le_trans (by decide) hlo)

theorem exampleArena :
    Arena exampleImage exampleBlob (exampleRam exampleBlob) 0x62000 exampleTree.size where
  live := ⟨⟨0x62000, 170⟩, by decide, by decide⟩
  place := by decide
  aligned := by decide
  const := fun x hlo hhi hx => by
    have hlen : exampleBlob.len = 100 := by decide
    have hsize : exampleTree.size = 170 := by decide
    unfold OfImage.Const at hx
    rw [hlen] at hx
    dsimp only [exampleImage, exampleBlob, exampleFdt] at hx
    omega
  head := by decide

/-! ## The passes agree -/

/-- **The two passes agree**: the filling pass consumes the tokens the sizing pass has consumed, and
ends behind as many bytes as the sizing pass has counted.  It writes only these and the head of the
list, so a word behind them stays; and the sizing pass has freed the nodes it made. -/
theorem passes_agree {base : Nat} (h : d.Holds tree) (hs : Loaded img d s) (ht : Loaded img d t)
    (harena : Arena img d t base tree.size)
    (hzero : ∀ x, base ≤ x → x < base + tree.size → t.bytes x = 0)
    (hguard : img.allNodes + 4 ≤ base ∨ base + alignUp 4 tree.size + 4 ≤ img.allNodes) :
    ∃ size toks u, fwkUnflattenDtNodes img alloc d.base 0 (d.base + d.offDtStruct) 0 s =
        .ok ((size, toks), u) ∧ u.heap = s.heap ∧
      (u.refused = s.refused →
        ∃ m, fwkUnflattenDtNodes img alloc d.base base (d.base + d.offDtStruct) img.allNodes t =
            .ok ((base + size, toks), t.put m) ∧
          (∀ x, ¬ (base ≤ x ∧ x < base + size) → ¬ (img.allNodes ≤ x ∧ x < img.allNodes + 4) →
            m x = t.bytes x) ∧
          load32 m (base + mrtNumAlign4 size) = load32 t.bytes (base + mrtNumAlign4 size)) := by
  have hplace := harena.place
  rcases @size_tree img d s alloc tree h hs (by omega) with
    ⟨u, hrun, hk, hheap, hrefused⟩ | ⟨toks, u, hrun, hfixed, hheap, hrefused⟩
  · refine ⟨_, _, u, hrun, hheap, fun _ => ?_⟩
    obtain ⟨m, xs, hfill, hchanged, -⟩ := fill_tree alloc h ht harena hzero
    have halign : mrtNumAlign4 tree.size = alignUp 4 tree.size := by
      rw [mrtNumAlign4_eq, add32_of_lt (by omega), alignUp]
    have hle := le_alignUp tree.size
    refine ⟨m, hfill, fun x hin hhead => hchanged x (by omega), ?_⟩
    rw [halign]
    exact hchanged.load32 fun x _ _ => by omega
  · exact ⟨0, toks, u, hrun, hheap, fun hsame => absurd hsame (by omega)⟩

/-- The passes over the root and its child, in a block of as many bytes as they take. -/
theorem passes_agree_child :
    ∃ size toks u, fwkUnflattenDtNodes exampleImage bumpMemory exampleBlob.base 0
        (exampleBlob.base + exampleBlob.offDtStruct) 0 (exampleRam exampleBlob) =
        .ok ((size, toks), u) ∧ u.heap = (exampleRam exampleBlob).heap ∧
      (u.refused = (exampleRam exampleBlob).refused →
        ∃ m, fwkUnflattenDtNodes exampleImage bumpMemory exampleBlob.base 0x62000
            (exampleBlob.base + exampleBlob.offDtStruct) exampleImage.allNodes
            (exampleRam exampleBlob) =
            .ok ((0x62000 + size, toks), (exampleRam exampleBlob).put m) ∧
          (∀ x, ¬ (0x62000 ≤ x ∧ x < 0x62000 + size) →
            ¬ (exampleImage.allNodes ≤ x ∧ x < exampleImage.allNodes + 4) →
            m x = (exampleRam exampleBlob).bytes x) ∧
          load32 m (0x62000 + mrtNumAlign4 size) =
            load32 (exampleRam exampleBlob).bytes (0x62000 + mrtNumAlign4 size)) :=
  passes_agree exampleHolds (loaded_exampleRam _ _ _ (by decide)) (loaded_exampleRam _ _ _ (by decide))
    exampleArena (fun _ hlo _ => exampleBlob_zero hlo) (by decide)

/-! ## The block of the nodes -/

/-- A block that is given is an arena. -/
theorem arena_grow {base n : Nat} {m : Mem} (hs : Loaded img d s) (hgive : alloc.give s n = base)
    (hbase : base ≠ 0) : Arena img d ((s.grow base n).put m) base n := by
  rw [← hgive] at hbase
  obtain ⟨halign, hroom, -⟩ := alloc.fresh s n hbase
  have hblob := alloc.apart hbase (Ram.Live.of_fixed hs.blob)
  have hname := alloc.apart hbase (Ram.Live.of_fixed hs.strName)
  have hhead := alloc.apart hbase (Ram.Live.of_fixed hs.allNodes)
  dsimp only at hblob hname hhead
  rw [hgive] at *
  refine ⟨by simpa using Ram.live_grow_new s base n, ⟨by omega, hroom⟩, halign, ?_, by omega⟩
  rintro x hlo hhi (hx | hx)
  · omega
  · omega

theorem Arena.take {base len len' : Nat} (h : Arena img d s base len) (hle : len' ≤ len) :
    Arena img d s base len' where
  live := h.live.mono (Nat.le_refl base) (by omega)
  place := ⟨h.place.1, by have := h.place.2; omega⟩
  aligned := h.aligned
  const := fun x hlo hhi => h.const x hlo (by omega)
  head := by have := h.head; omega

variable (alloc) in
/-- The filling pass in the block that is given, with the guard word in place. -/
theorem fill_block {base : Nat} (h : d.Holds tree) (hs : Loaded img d s)
    (hgive : alloc.give s (alignUp 4 tree.size + 4) = base) (hbase : base ≠ 0) :
    ∃ m m' xs, m = store32 (s.grow base (alignUp 4 tree.size + 4)).bytes
          (base + alignUp 4 tree.size) (apiReverseByte32 fdtMagicVerify) ∧
      fwkUnflattenDtNodes img alloc d.base base (d.base + d.offDtStruct) img.allNodes
          ((s.grow base (alignUp 4 tree.size + 4)).put m) =
        .ok ((base + tree.size, treeTokens d tree),
          (s.grow base (alignUp 4 tree.size + 4)).put m') ∧
      Loaded img d ((s.grow base (alignUp 4 tree.size + 4)).put m) ∧
      Loaded img d ((s.grow base (alignUp 4 tree.size + 4)).put m') ∧
      base + (alignUp 4 tree.size + 4) ≤ 0xfffff000 ∧ TreeBuilt img d tree base xs m' ∧
      load32 m' (base + alignUp 4 tree.size) = apiReverseByte32 fdtMagicVerify := by
  have hle := le_alignUp tree.size
  set n := alignUp 4 tree.size + 4 with hn
  set m := store32 (s.grow base n).bytes (base + alignUp 4 tree.size)
    (apiReverseByte32 fdtMagicVerify) with hm
  have harena : Arena img d ((s.grow base n).put m) base n := arena_grow hs hgive hbase
  have hplace := harena.place
  have hs₀ : Loaded img d (s.grow base n) := by
    rw [← hgive]
    exact hs.keeps (alloc.keeps (hgive ▸ hbase))
  have hguard := changedIn_store32 (s.grow base n).bytes (base + alignUp 4 tree.size)
    (apiReverseByte32 fdtMagicVerify)
  have hs₁ : Loaded img d ((s.grow base n).put m) := hs₀.put hguard fun x hx hW => by
    have hout := harena.outside hx
    omega
  have hhead := harena.head
  obtain ⟨m', xs, hrun, hchanged, hbuilt⟩ := fill_tree alloc h hs₁ (harena.take (by omega))
    fun x hxlo hxhi => by
      exact (hguard x (by omega)).trans (zeroed_inside hxlo (by omega))
  refine ⟨m, m', xs, rfl, hrun, hs₁, ?_, hplace.2, hbuilt, ?_⟩
  · exact hs₁.put hchanged fun x hx hW => by
      have hout := harena.outside hx
      rcases hW with hW | hW
      · omega
      · exact hs.head.2.2 x hW.1 hW.2 hx
  · rw [hchanged.load32 fun x _ _ => by omega]
    exact (load32_store32_same _ _ _).trans (by decide)

/-- What `__fwk_unflatten_device_tree` leaves behind: the tree in one block with the guard word, or
nothing when an allocation was refused. -/
def Unflattened (img : OfImage) (d : Fdt) (tree : OfTree) (s u : Ram) : Prop :=
  (s.refused < u.refused ∧ u.heap = s.heap) ∨
    (u.refused = s.refused ∧ Loaded img d u ∧
      ∃ base xs, u.heap = ⟨base, alignUp 4 tree.size + 4⟩ :: s.heap ∧ 0 < base ∧
        base + tree.size ≤ 0xfffff000 ∧ TreeBuilt img d tree base xs u.bytes ∧
        load32 u.bytes (base + alignUp 4 tree.size) = apiReverseByte32 fdtMagicVerify)

variable (alloc) in
/-- **`__fwk_unflatten_device_tree`** goes through a blob that holds a tree. -/
theorem unflatten_run (h : d.Holds tree) (hs : Loaded img d s) (hsize : tree.size ≤ 0xfffff000) :
    ∃ u, __fwkUnflattenDeviceTree img alloc d.base img.allNodes s = .ok ((), u) ∧
      u.fixed = s.fixed ∧ Unflattened img d tree s u := by
  have hplace := hs.place
  have hheader := hs.header
  have hvalid : isValid d.base = true := isValid_iff.mpr ⟨hplace.1, by omega⟩
  have hstart := h.start
  have hmagic : ¬ loadBe32 d.bytes (d.base + fdtMagic) ≠ fdtMagicVerify := fun hne => hne h.magic
  have hoff : add32 d.base (loadBe32 d.bytes (d.base + fdtOffDtStruct)) =
      d.base + d.offDtStruct := by
    rw [add32_of_lt (by unfold Fdt.offDtStruct at hstart; omega)]
    rfl
  have hmagicRun : be32ToCpup (d.base + fdtMagic) s = _ :=
    hs.be32 (by omega) (by dsimp only [fdtMagic]; omega)
  have hoffRun : be32ToCpup (d.base + fdtOffDtStruct) s = _ :=
    hs.be32 (by omega) (by dsimp only [fdtOffDtStruct]; omega)
  unfold __fwkUnflattenDeviceTree
  rw [if_pos hvalid, RamM.bind_ok hmagicRun, if_neg hmagic, RamM.bind_ok hoffRun, hoff]
  rcases @size_tree img d s alloc tree h hs hsize with
    ⟨u, hrun, hk, hheap, hrefused⟩ | ⟨toks, u, hrun, hfixed, hheap, hrefused⟩
  · obtain ⟨-, hnode⟩ := nodeMem_room none 0 tree.name tree.items
    have hmem : nodeMem none 0 tree.name tree.items ≤ tree.size := le_forestMem tree.children _ _
    have hle := le_alignUp tree.size
    have hlt : alignUp 4 tree.size ≤ 0xfffff000 := by unfold alignUp; omega
    have halign : mrtNumAlign4 tree.size = alignUp 4 tree.size := by
      rw [mrtNumAlign4_eq, add32_of_lt (by omega), alignUp]
    have hneed : mrtAlign (add32 (alignUp 4 tree.size) 4) ofAlign = alignUp 4 tree.size + 4 := by
      have hmod := alignUp_mod tree.size
      rw [add32_of_lt (by omega), mrtAlign_four (by omega), alignUp_of_mod (by omega)]
    rw [RamM.bind_ok hrun]
    dsimp only
    rw [halign, if_neg (by omega), fwkFdtMemoryAlloc, hneed]
    by_cases hgive : alloc.give u (alignUp 4 tree.size + 4) = 0
    · -- the block could not be allocated
      have halloc : RamM.kzalloc alloc (alignUp 4 tree.size + 4) u = .ok (0, u.refuse) := by
        rw [RamM.kzalloc, hgive]
        rfl
      refine ⟨u.refuse, ?_, hk.fixed, .inl ⟨?_, hheap⟩⟩
      · rw [RamM.bind_ok halloc, if_neg (by decide)]
        rfl
      · rw [← hrefused]
        exact Nat.lt_succ_self _
    · -- the tree is built
      have halloc : RamM.kzalloc alloc (alignUp 4 tree.size + 4) u =
          .ok (alloc.give u (alignUp 4 tree.size + 4),
            u.grow (alloc.give u (alignUp 4 tree.size + 4)) (alignUp 4 tree.size + 4)) :=
        if_neg hgive
      obtain ⟨m, m', xs, hm, hfill, hs₁, hs₂, hroom, hbuilt, hguard⟩ :=
        fill_block alloc h (hs.keeps hk) rfl hgive
      set base := alloc.give u (alignUp 4 tree.size + 4) with hbase
      have hvalid' : isValid base = true := isValid_iff.mpr ⟨by omega, by omega⟩
      have hlive := Ram.live_grow_new u base (alignUp 4 tree.size + 4)
      have hput : putWord (base + alignUp 4 tree.size) (apiReverseByte32 fdtMagicVerify)
          (u.grow base (alignUp 4 tree.size + 4)) =
          .ok ((), (u.grow base (alignUp 4 tree.size + 4)).put m) := by
        rw [hm]
        exact putWord_run (hlive.mono (by omega) (by omega))
      have hend : add32 base (alignUp 4 tree.size) = base + alignUp 4 tree.size :=
        add32_of_lt (by omega)
      have hoffRun' : be32ToCpup (d.base + fdtOffDtStruct)
          ((u.grow base (alignUp 4 tree.size + 4)).put m) = _ :=
        hs₁.be32 (by omega) (by dsimp only [fdtOffDtStruct]; omega)
      refine ⟨(u.grow base (alignUp 4 tree.size + 4)).put m', ?_, hk.fixed,
        .inr ⟨hrefused, hs₂, base, xs, ?_, by omega, by omega, hbuilt, hguard⟩⟩
      · rw [RamM.bind_ok halloc, if_pos hvalid', hend, RamM.bind_ok hput, RamM.bind_ok hoffRun',
          hoff, RamM.bind_ok hfill, RamM.bind_ok (be32ToCpup_run
            (by simpa using hlive.mono (by omega) (by omega)))]
        rfl
      · rw [← hheap]
        rfl
  · -- a node could not be allocated
    have hnone : mrtNumAlign4 0 = 0 := by decide
    refine ⟨u, ?_, hfixed, .inl ⟨by omega, hheap⟩⟩
    rw [RamM.bind_ok hrun]
    dsimp only
    rw [hnone, if_pos rfl]
    rfl

/-! ## Setting up the machine -/

/-- **`setup_machine_fdt` keeps to a well-formed blob.** -/
theorem setup_run {buffer : Nat} (h : d.Holds tree) (hs : Loaded img d s)
    (hsize : tree.size ≤ 0xfffff000) (hbuffer : isValid buffer = true → buffer = d.base) :
    ∃ u, setupMachineFdt img alloc buffer d.base s = .ok (d.base, u) ∧ u.fixed = s.fixed ∧
      Unflattened img d tree s u := by
  have hplace := hs.place
  have hheader := hs.header
  have hvalid : isValid d.base = true := isValid_iff.mpr ⟨hplace.1, by omega⟩
  have hmagic : ¬ loadBe32 d.bytes (d.base + fdtMagic) ≠ fdtMagicVerify := fun hne => hne h.magic
  have hmagicRun : be32ToCpup (d.base + fdtMagic) s = _ :=
    hs.be32 (by omega) (by dsimp only [fdtMagic]; omega)
  have hs₀ : Loaded img d (s.put (store32 s.bytes img.allNodes 0)) :=
    hs.put (changedIn_store32 _ _ _) fun x hx hW => hs.head.2.2 x hW.1 hW.2 hx
  have hentry : fwkEarlyInitDtParams img buffer d.base s =
      .ok (d.base, s.put (store32 s.bytes img.allNodes 0)) := by
    rw [fwkEarlyInitDtParams, RamM.bind_ok (putWord_run (Ram.Live.of_fixed hs.allNodes)),
      RamM.pure_run]
    split
    · rw [hbuffer ‹_›]
    · rfl
  obtain ⟨u, hrun, hfixed, hu⟩ := unflatten_run alloc h hs₀ hsize
  refine ⟨u, ?_, hfixed, hu⟩
  unfold setupMachineFdt
  rw [if_pos hvalid, RamM.bind_ok hmagicRun, if_neg hmagic, RamM.bind_ok hentry, RamM.bind_ok hrun]
  rfl

/-- The place of the first tag is not checked. -/
theorem setup_fault (hs : Loaded img d s)
    (hmagic : loadBe32 d.bytes (d.base + fdtMagic) = fdtMagicVerify)
    (hout : ¬ s.Live (add32 d.base d.offDtStruct) 4) :
    setupMachineFdt img alloc 0 d.base s = .error .fault := by
  have hplace := hs.place
  have hheader := hs.header
  have hvalid : isValid d.base = true := isValid_iff.mpr ⟨hplace.1, by omega⟩
  have hne : ¬ loadBe32 d.bytes (d.base + fdtMagic) ≠ fdtMagicVerify := fun h => h hmagic
  have hs₀ : Loaded img d (s.put (store32 s.bytes img.allNodes 0)) :=
    hs.put (changedIn_store32 _ _ _) fun x hx hW => hs.head.2.2 x hW.1 hW.2 hx
  have hentry : fwkEarlyInitDtParams img 0 d.base s =
      .ok (d.base, s.put (store32 s.bytes img.allNodes 0)) := by
    rw [fwkEarlyInitDtParams, RamM.bind_ok (putWord_run (Ram.Live.of_fixed hs.allNodes))]
    rfl
  have hmagicRun : be32ToCpup (d.base + fdtMagic) s = _ :=
    hs.be32 (by omega) (by dsimp only [fdtMagic]; omega)
  have hmagicRun₀ : be32ToCpup (d.base + fdtMagic) (s.put (store32 s.bytes img.allNodes 0)) = _ :=
    hs₀.be32 (by omega) (by dsimp only [fdtMagic]; omega)
  have hoffRun : be32ToCpup (d.base + fdtOffDtStruct) (s.put (store32 s.bytes img.allNodes 0)) = _ :=
    hs₀.be32 (by omega) (by dsimp only [fdtOffDtStruct]; omega)
  have htag : be32ToCpup (add32 d.base d.offDtStruct) (s.put (store32 s.bytes img.allNodes 0)) =
      .error .fault := RamM.bind_error (if_neg (by simpa using hout))
  have hpass : fwkUnflattenDtNodes img alloc d.base 0 (add32 d.base d.offDtStruct) 0
      (s.put (store32 s.bytes img.allNodes 0)) = .error .fault := by
    rw [fwkUnflattenDtNodes, if_pos hvalid, RamM.bind_error htag]
  have hunflatten : __fwkUnflattenDeviceTree img alloc d.base img.allNodes
      (s.put (store32 s.bytes img.allNodes 0)) = .error .fault := by
    unfold __fwkUnflattenDeviceTree
    rw [if_pos hvalid, RamM.bind_ok hmagicRun₀, if_neg hne, RamM.bind_ok hoffRun]
    exact RamM.bind_error hpass
  unfold setupMachineFdt
  rw [if_pos hvalid, RamM.bind_ok hmagicRun, if_neg hne, RamM.bind_ok hentry,
    RamM.bind_error hunflatten]

/-- The machine is set up from the root and its child. -/
theorem setup_run_child : ∃ u, setupMachineFdt exampleImage bumpMemory 0 exampleBlob.base
      (exampleRam exampleBlob) = .ok (exampleBlob.base, u) ∧
    u.fixed = (exampleRam exampleBlob).fixed ∧
    Unflattened exampleImage exampleBlob exampleTree (exampleRam exampleBlob) u :=
  setup_run exampleHolds (loaded_exampleRam _ _ _ (by decide)) (by decide) (by decide)

/-- **A blob that is nothing but its header** is left at once: the magic number is there and
`totalsize` is its length, but the first tag is read from behind it. -/
theorem setup_leaves_header :
    Loaded exampleImage (exampleFdt 40 [] []) (exampleRam (exampleFdt 40 [] [])) ∧
      loadBe32 (exampleFdt 40 [] []).bytes ((exampleFdt 40 [] []).base + fdtMagic) = fdtMagicVerify ∧
      loadBe32 (exampleFdt 40 [] []).bytes ((exampleFdt 40 [] []).base + fdtTotalsize) =
        (exampleFdt 40 [] []).len ∧
      setupMachineFdt exampleImage bumpMemory 0 (exampleFdt 40 [] []).base
        (exampleRam (exampleFdt 40 [] [])) = .error .fault :=
  ⟨loaded_exampleRam _ _ _ (by decide), by decide, by decide,
    setup_fault (loaded_exampleRam _ _ _ (by decide)) (by decide) (by decide)⟩

end HeavenFox.Platform
