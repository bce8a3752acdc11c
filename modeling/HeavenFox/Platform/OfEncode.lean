/-
# HeavenFox.Platform.OfEncode -- the encoding of a tree

For a version from 0x10 on, the structure block of a tree is a list of bytes that
does not depend on where it stands.  A blob with these bytes holds the tree.
-/
import HeavenFox.Platform.OfProperty

namespace HeavenFox.Platform

open HeavenFox.Logic HeavenFox.Common

variable {d : Fdt} {tree : OfTree}

/-! ## Encoding -/

/-- The names of the nodes below the root. -/
def OfForest.Named : OfForest → Prop
  | .nil => True
  | .node name _ children _ siblings =>
    name ≠ [] ∧ slash ∉ name ∧ 0 ∉ name ∧ children.Named ∧ siblings.Named

/-- The root has the empty name; the other names are not empty and have no slash. -/
structure OfTree.Named (t : OfTree) : Prop where
  root : t.name = []
  below : t.children.Named

/-- The names of properties, as they stand in the strings block. -/
def Fdt.Strings (d : Fdt) (off : List UInt8 → Nat) (props : List (List UInt8 × List UInt8)) : Prop :=
  ∀ prop ∈ props, CStrAt d.bytes (d.base + d.offDtStrings + off prop.1) prop.1 ∧
    off prop.1 + d.offDtStrings + (prop.1.length + 1) ≤ d.len

/-- The properties of a forest. -/
def forestProps : OfForest → List (List UInt8 × List UInt8)
  | .nil => []
  | .node _ items children _ siblings => ofProps items ++ forestProps children ++ forestProps siblings

/-- The blob is the encoding of the tree: a header, the bytes of its structure block at a multiple of
4, and the strings block with the names of its properties. -/
structure Fdt.Encodes (d : Fdt) (off : List UInt8 → Nat) (t : OfTree) : Prop where
  place : 0 < d.base ∧ d.base + d.len ≤ 0xfffff000
  header : 40 ≤ d.len
  magic : loadBe32 d.bytes (d.base + fdtMagic) = fdtMagicVerify
  version : 0x10 ≤ d.version
  aligned : (d.base + d.offDtStruct) % 4 = 0
  block : BytesAt d.bytes (d.base + d.offDtStruct) (structBlock off t)
  inside : d.offDtStruct + (structBlock off t).length ≤ d.len
  strings : d.Strings off (forestProps t.forest)

theorem padded_length (l : List UInt8) : (padded l).length = alignUp 4 l.length := by
  have hle := le_alignUp l.length
  rw [padded, List.length_append, List.length_replicate]
  omega

theorem bytesAt_padded {m : Mem} {a : Nat} {l : List UInt8} (h : BytesAt m a (padded l)) :
    BytesAt m a l := (bytesAt_append.mp h).1

theorem valueAt_new (hversion : 0x10 ≤ d.version) (len p : Nat) : d.valueAt len p = p :=
  if_neg (by omega)

theorem beBytes_at {m : Mem} {a n : Nat} {l : List UInt8} (h : BytesAt m a (beBytes n ++ l))
    (hn : n < 2 ^ 32) : loadBe32 m a = n ∧ BytesAt m (a + 4) l := by
  rw [bytesAt_append] at h
  exact ⟨h.1.loadBe32 hn, h.2⟩

/-- The bytes of an item are the item. -/
theorem holdsItem_of_bytes {off : List UInt8 → Nat} {item : OfItem} {p : Nat}
    (hversion : 0x10 ≤ d.version) (hp : p % 4 = 0) (hplace : d.base + d.len ≤ 0xfffff000)
    (h : BytesAt d.bytes p (itemBytes off item))
    (hhi : p + (itemBytes off item).length ≤ d.base + d.len)
    (hstrings : d.Strings off (ofProps [item])) :
    d.HoldsItem p item ∧ d.itemEnd p item = p + (itemBytes off item).length ∧
      d.itemEnd p item % 4 = 0 := by
  cases item with
  | nop =>
    have hnop : loadBe32 d.bytes p = fdtNodeNop := BytesAt.loadBe32 h (by decide)
    refine ⟨hnop, rfl, ?_⟩
    rw [Fdt.itemEnd]
    omega
  | prop name value =>
    have hlen : (itemBytes off (.prop name value)).length = 12 + alignUp 4 value.length := by
      simp only [itemBytes, List.length_append, beBytes_length, padded_length]
    have hle := le_alignUp value.length
    rw [hlen] at hhi
    obtain ⟨hname, hnameHi⟩ := hstrings (name, value) List.mem_cons_self
    dsimp only at hname hnameHi
    rw [itemBytes, List.append_assoc, List.append_assoc] at h
    obtain ⟨htag, h⟩ := beBytes_at h (by decide)
    obtain ⟨hlength, h⟩ := beBytes_at h (by omega)
    obtain ⟨hoff, h⟩ := beBytes_at h (by omega)
    have hnameAt : d.nameAt p = d.base + d.offDtStrings + off name := by rw [Fdt.nameAt, hoff]
    have hend : d.itemEnd p (.prop name value) = p + 12 + alignUp 4 value.length := by
      rw [Fdt.itemEnd, valueAt_new hversion, alignUp_add (by omega)]
    refine ⟨⟨htag, hlength, hnameAt ▸ hname, ?_, ?_⟩, ?_, ?_⟩
    · rw [hnameAt]
      omega
    · rw [valueAt_new hversion]
      exact bytesAt_padded h
    · rw [hend, hlen, Nat.add_assoc]
    · have hmod := alignUp_mod value.length
      rw [hend]
      omega

/-- The bytes of items are the items. -/
theorem holdsItems_of_bytes {off : List UInt8 → Nat} {items : List OfItem} {p : Nat}
    (hversion : 0x10 ≤ d.version) (hp : p % 4 = 0) (hplace : d.base + d.len ≤ 0xfffff000)
    (h : BytesAt d.bytes p (itemsBytes off items))
    (hhi : p + (itemsBytes off items).length ≤ d.base + d.len)
    (hstrings : d.Strings off (ofProps items)) :
    d.HoldsItems p items ∧ d.itemsEnd p items = p + (itemsBytes off items).length ∧
      d.itemsEnd p items % 4 = 0 := by
  induction items generalizing p with
  | nil => exact ⟨trivial, rfl, hp⟩
  | cons item items ih =>
    rw [itemsBytes, List.length_append] at hhi
    rw [itemsBytes, bytesAt_append] at h
    have hown : d.HoldsItem p item ∧ d.itemEnd p item = p + (itemBytes off item).length ∧
        d.itemEnd p item % 4 = 0 :=
      holdsItem_of_bytes hversion hp hplace h.1 (by omega) fun prop hprop => hstrings prop (by
        cases item with
        | nop => exact absurd hprop List.not_mem_nil
        | prop name value =>
          rw [List.mem_singleton.mp hprop]
          exact List.mem_cons_self)
    obtain ⟨hholds, hend, hmod⟩ := hown
    have hrest := ih hmod (hend ▸ h.2) (by omega) fun prop hprop => hstrings prop (by
      cases item with
      | nop => exact hprop
      | prop name value => exact List.mem_cons_of_mem _ hprop)
    refine ⟨⟨hholds, hrest.1⟩, ?_, hrest.2.2⟩
    rw [Fdt.itemsEnd, hrest.2.1, hend, itemsBytes, List.length_append, Nat.add_assoc]

theorem holdsNops_of_bytes {n p : Nat} {l : List UInt8} (h : BytesAt d.bytes p (nopsBytes n ++ l)) :
    d.HoldsNops p n ∧ BytesAt d.bytes (p + 4 * n) l := by
  induction n generalizing p with
  | zero => exact ⟨trivial, h⟩
  | succ n ih =>
    rw [nopsBytes, List.append_assoc] at h
    obtain ⟨htag, h⟩ := beBytes_at h (by decide)
    obtain ⟨hrest, h⟩ := ih h
    refine ⟨⟨htag, hrest⟩, ?_⟩
    rw [Nat.mul_succ, Nat.add_comm (4 * n), ← Nat.add_assoc]
    exact h

theorem nopsBytes_length (n : Nat) : (nopsBytes n).length = 4 * n := by
  induction n with
  | zero => rfl
  | succ n ih =>
    rw [nopsBytes, List.length_append, beBytes_length, ih]
    omega

/-- The names of the nodes are strings. -/
def OfForest.Strs : OfForest → Prop
  | .nil => True
  | .node name _ children _ siblings => 0 ∉ name ∧ children.Strs ∧ siblings.Strs

theorem OfForest.Named.strs {f : OfForest} (h : f.Named) : f.Strs := by
  induction f with
  | nil => trivial
  | node name items children nops siblings ihc ihs =>
    obtain ⟨-, -, hzero, hchildren, hsiblings⟩ := h
    exact ⟨hzero, ihc hchildren, ihs hsiblings⟩

/-- **The bytes of a forest are the forest.** -/
theorem holdsForest_of_bytes {off : List UInt8 → Nat} {f : OfForest} {p : Nat}
    (hversion : 0x10 ≤ d.version) (hp : p % 4 = 0) (hplace : d.base + d.len ≤ 0xfffff000)
    (h : BytesAt d.bytes p (forestBytes off f))
    (hhi : p + (forestBytes off f).length ≤ d.base + d.len) (hstrs : f.Strs)
    (hstrings : d.Strings off (forestProps f)) :
    d.HoldsForest p f ∧ d.forestEnd p f = p + (forestBytes off f).length ∧
      d.forestEnd p f % 4 = 0 := by
  induction f generalizing p with
  | nil => exact ⟨trivial, rfl, hp⟩
  | node name items children nops siblings ihc ihs =>
    obtain ⟨hzero, hstrsChildren, hstrsSiblings⟩ := hstrs
    have hlen : (forestBytes off (.node name items children nops siblings)).length =
        4 + alignUp 4 (name.length + 1) + (itemsBytes off items).length +
          (forestBytes off children).length + 4 + 4 * nops +
          (forestBytes off siblings).length := by
      simp only [forestBytes, List.length_append, beBytes_length, padded_length,
        nopsBytes_length, List.length_singleton]
    rw [hlen] at hhi
    simp only [forestBytes, List.append_assoc] at h
    obtain ⟨htag, h⟩ := beBytes_at h (by decide)
    rw [bytesAt_append, padded_length, List.length_append, List.length_singleton] at h
    obtain ⟨hname, h⟩ := h
    have hat : Fdt.itemsAt p name = p + 4 + alignUp 4 (name.length + 1) := by
      rw [Fdt.itemsAt, alignUp_add (by omega)]
    have hatMod : Fdt.itemsAt p name % 4 = 0 := alignUp_mod _
    rw [← hat, bytesAt_append] at h
    obtain ⟨hitems, h⟩ := h
    obtain ⟨hholds, hend, hmod⟩ := holdsItems_of_bytes hversion hatMod hplace hitems (by omega)
      fun prop hprop => hstrings prop (List.mem_append_left _ (List.mem_append_left _ hprop))
    rw [← hend, bytesAt_append] at h
    obtain ⟨hchildren, h⟩ := h
    obtain ⟨hbelow, hendBelow, hmodBelow⟩ := ihc hmod hchildren (by omega) hstrsChildren
      fun prop hprop => hstrings prop (List.mem_append_left _ (List.mem_append_right _ hprop))
    rw [← hendBelow] at h
    obtain ⟨htagEnd, h⟩ := beBytes_at h (by decide)
    obtain ⟨hnops, h⟩ := holdsNops_of_bytes h
    obtain ⟨hbehind, hendBehind, hmodBehind⟩ := ihs (by omega) h (by omega) hstrsSiblings
      fun prop hprop => hstrings prop (List.mem_append_right _ hprop)
    refine ⟨⟨htag, ⟨bytesAt_padded hname, hzero⟩, hholds, hbelow, htagEnd, hnops, hbehind⟩, ?_,
      hmodBehind⟩
    rw [Fdt.forestEnd, hendBehind, hlen]
    omega

/-- **An encoding of a tree holds it.** -/
theorem Fdt.Encodes.holds {off : List UInt8 → Nat} (h : d.Encodes off tree) (hnamed : tree.Named) :
    d.Holds tree := by
  have hstrs : tree.forest.Strs := by
    refine ⟨?_, hnamed.below.strs, trivial⟩
    rw [hnamed.root]
    exact List.not_mem_nil
  have hinside := h.inside
  have hblock := h.block
  rw [structBlock, List.length_append, beBytes_length] at hinside
  rw [structBlock, bytesAt_append] at hblock
  obtain ⟨hholds, hend, -⟩ := holdsForest_of_bytes h.version h.aligned h.place.2 hblock.1
    (by omega) hstrs h.strings
  refine ⟨h.place, h.header, h.magic, .inl hnamed.root, hholds, ?_, ?_⟩
  · rw [hend]
    exact hblock.2.loadBe32 (by decide)
  · rw [hend]
    omega

/-! ## A blob -/

/-- A blob at 0x61000 of the header, `block`, the structure block at `off`, and `strings`. -/
def exampleFdt (off : Nat) (block strings : List UInt8) : Fdt where
  bytes := storeBytes (storeBytes (fun _ => 0) 0x61000
    (beBytes fdtMagicVerify ++ beBytes (40 + block.length + strings.length) ++ beBytes off ++
      beBytes (40 + block.length) ++ beBytes 0 ++ beBytes 17 ++ List.replicate 16 0 ++ block ++
      strings)) 0x60010 (cstring "name" ++ [0])
  base := 0x61000
  len := 40 + block.length + strings.length

/-- The root with one child, which has a phandle. -/
def exampleTree : OfTree where
  name := []
  items := [.nop]
  children := .node (cstring "a@1") [.prop (cstring "phandle") [0, 0, 0, 7]] .nil 1 .nil
  nops := 0

/-- The blob that holds it. -/
def exampleBlob : Fdt :=
  exampleFdt 40 (structBlock (fun _ => 0) exampleTree) (cstring "phandle" ++ [0])

theorem exampleNamed : exampleTree.Named where
  root := rfl
  below := ⟨by decide, by decide, by decide, trivial, trivial⟩

theorem exampleEncodes : exampleBlob.Encodes (fun _ => 0) exampleTree where
  place := by decide
  header := by decide
  magic := by decide
  version := by decide
  aligned := by decide
  block := by decide
  inside := by decide
  strings := by unfold Fdt.Strings; decide

end HeavenFox.Platform
