/-
# HeavenFox.Platform.OfNode -- one node

What `fwk_fdt_populate_node` does at a node of a blob that holds a tree, step by
step: the lengths it takes from the name, the path name it writes, the links to
the parent, the properties and the name it makes up.  The steps are the same in
both passes as far as they can be; where the passes differ, the sizing one only
counts, and the filling one writes what the lemma says, nowhere else.
-/
import HeavenFox.Platform.OfProperty

namespace HeavenFox.Platform

open HeavenFox.Logic HeavenFox.Common

variable {img : OfImage} {d : Fdt} {s : Ram} {alloc : Kzalloc}

/-! ## The path name -/

/-- A node whose children are being read: its path name is behind it, and the node above is known by
its address. -/
structure OpenNode (s : Ram) (node : Nat) (par : OfParent) : Prop where
  valid : isValid node = true
  live : s.Live node (52 + (par.path.length + 1))
  fullName : load32 s.bytes (node + 12) = node + 52
  path : CStrAt s.bytes (node + 52) par.path
  above : isValid (load32 s.bytes (node + 24)) = par.above

/-- `node` is the parent; the root has none. -/
def IsParent (s : Ram) (node : Nat) (parent : Option OfParent) : Prop :=
  parent.elim (node = 0) (OpenNode s node)

/-- The bytes `[lo, hi)` are not in the memory of the parent. -/
def ApartFrom (node lo hi : Nat) (parent : Option OfParent) : Prop :=
  parent.elim True fun par => node + (52 + (par.path.length + 1)) ≤ lo ∨ hi ≤ node

theorem OpenNode.put {node : Nat} {par : OfParent} (h : OpenNode s node par) {m : Mem}
    {W : Nat → Prop} (hm : ChangedIn W s.bytes m)
    (hW : ∀ x, (node + 12 ≤ x ∧ x < node + 16) ∨ (node + 24 ≤ x ∧ x < node + 28) ∨
      (node + 52 ≤ x ∧ x < node + 52 + (par.path.length + 1)) → ¬ W x) :
    OpenNode (s.put m) node par where
  valid := h.valid
  live := by simpa using h.live
  fullName := (hm.load32 fun x _ _ => hW x (by omega)).trans h.fullName
  path := h.path.congr (hm.agreeOn fun x _ _ => hW x (by omega))
  above := by
    rw [Ram.put_bytes, hm.load32 fun x _ _ => hW x (by omega)]
    exact h.above

theorem IsParent.put {node : Nat} {parent : Option OfParent} (h : IsParent s node parent) {m : Mem}
    {lo hi : Nat} (hm : ChangedIn (fun x => lo ≤ x ∧ x < hi) s.bytes m)
    (hapart : ApartFrom node lo hi parent) : IsParent (s.put m) node parent := by
  cases parent with
  | none => exact h
  | some par =>
    have hopen : OpenNode s node par := h
    have hlo : node + (52 + (par.path.length + 1)) ≤ lo ∨ hi ≤ node := hapart
    exact hopen.put hm fun x hx => by omega

theorem isValid_parent {node : Nat} {parent : Option OfParent} (h : IsParent s node parent) :
    isValid node = parent.isSome := by
  cases parent with
  | none =>
    have hnode : node = 0 := h
    rw [hnode]
    rfl
  | some par =>
    have hopen : OpenNode s node par := h
    exact hopen.valid

/-- **The lengths of a node** are those of its name and of the path of its parent.  The name of the
root is empty already when it is made empty. -/
theorem pathLenth_run {p node : Nat} {name : List UInt8} {parent : Option OfParent}
    (hs : Loaded img d s) (hname : CStrAt d.bytes p name) (hlo : d.base ≤ p)
    (hhi : p + (name.length + 1) ≤ d.base + d.len) (hparent : IsParent s node parent)
    (hroot : parent = none → name = [] ∨ name.head? = some slash)
    (hneed : lenthNeed parent name < 2 ^ 32) :
    pathLenth p node s =
      .ok (⟨name.length + 1, lenthNeed parent name, !decide (name.head? = some slash)⟩, s) := by
  have hplace := hs.place
  have hstr := hs.cstr hname hlo hhi
  have hlive := hs.live hlo hhi
  rw [pathLenth, RamM.bind_ok (strlen_run hstr hlive (by omega)),
    RamM.bind_ok (load8_run (hlive.mono (Nat.le_refl p) (by omega)))]
  by_cases hslash : name.head? = some slash
  · rw [if_pos ((hstr.head_eq (by decide)).mpr hslash), lenthNeed, if_pos hslash]
    simp [hslash, RamM.pure_run]
  rw [if_neg (mt (hstr.head_eq (by decide)).mp hslash), isValid_parent hparent]
  cases parent with
  | none =>
    obtain rfl : name = [] := (hroot rfl).resolve_right hslash
    rw [if_neg (by decide),
      RamM.bind_ok (putByte_run (hlive.mono (Nat.le_refl p) (by simp))), store8_self hstr.nil]
    rfl
  | some par =>
    have hopen : OpenNode s node par := hparent
    have hsum : lenthNeed (some par) name = name.length + 2 + par.path.length := if_neg hslash
    rw [hsum] at hneed ⊢
    unfold nodeFullName
    rw [Option.isSome_some, if_pos rfl,
      RamM.bind_ok (loadWord_run (hopen.live.mono (by omega) (by omega))), hopen.fullName,
      RamM.bind_ok (strlen_run hopen.path (hopen.live.mono (by omega) (by omega)) (by omega)),
      add32_of_lt hneed]
    simp [hslash, RamM.pure_run]

/-- No path is copied for the root, and none for its children. -/
theorem writeParentName_short {a node : Nat} (hlive : s.Live (a + 52) 1)
    (hnode : isValid node = true →
      s.Live (node + 24) 4 ∧ isValid (load32 s.bytes (node + 24)) = false) :
    writeParentName a node s = .ok (a + 52 + 1, s.put (store8 s.bytes (a + 52) slash)) := by
  have hread : (if isValid node then loadWord (node + 24) else pure 0 : RamM Nat) s =
      .ok (if isValid node then load32 s.bytes (node + 24) else 0, s) := by
    split
    · exact loadWord_run (hnode ‹_›).1
    · rfl
  have hnot : isValid (if isValid node then load32 s.bytes (node + 24) else 0) = false := by
    split
    · exact (hnode ‹_›).2
    · rfl
  unfold writeParentName nodeParent nodeSize
  rw [RamM.bind_ok hread, hnot, if_neg (by decide), RamM.bind_ok (RamM.pure_run _ s),
    RamM.bind_ok (putByte_run hlive)]
  rfl

/-- The path of the parent is copied, and its end overwritten. -/
theorem writeParentName_long {a node : Nat} {par : OfParent} (hopen : OpenNode s node par)
    (habove : par.above = true) (hlive : s.Live (a + 52) (par.path.length + 1))
    (hapart : node + (52 + (par.path.length + 1)) ≤ a + 52 ∨
      a + 52 + (par.path.length + 1) ≤ node) (hlen : par.path.length < 2 ^ 32) :
    writeParentName a node s = .ok (a + 52 + par.path.length + 1,
      s.put (store8 (storeBytes s.bytes (a + 52) (par.path ++ [0])) (a + 52 + par.path.length)
        slash)) := by
  have hcopied : CStrAt (storeBytes s.bytes (a + 52) (par.path ++ [0])) (node + 52) par.path := by
    refine hopen.path.congr fun x hlo hhi => storeBytes_of_outside ?_
    rw [List.length_append, List.length_singleton]
    omega
  have hword : s.Live (node + 12) 4 ∧ s.Live (node + 24) 4 :=
    ⟨hopen.live.mono (by omega) (by omega), hopen.live.mono (by omega) (by omega)⟩
  have hpath : s.Live (node + 52) (par.path.length + 1) := hopen.live.mono (by omega) (by omega)
  have hcopy : (do
      let fullName ← loadWord (node + 12)
      let _ ← strcpy (a + 52) fullName
      let len ← strlen fullName
      pure (a + 52 + len) : RamM Nat) s =
      .ok (a + 52 + par.path.length, s.put (storeBytes s.bytes (a + 52) (par.path ++ [0]))) := by
    rw [RamM.bind_ok (loadWord_run hword.1), hopen.fullName,
      RamM.bind_ok (strcpy_run hopen.path hpath hlive (by omega) hlen),
      RamM.bind_ok (strlen_run hcopied (by simpa using hpath) hlen)]
    rfl
  unfold writeParentName nodeParent nodeFullName nodeSize
  rw [hopen.valid, if_pos rfl, RamM.bind_ok (loadWord_run hword.2), hopen.above, if_pos habove,
    RamM.bind_ok hcopy,
    RamM.bind_ok (putByte_run (by simpa using hlive.mono (by omega) (by omega)))]
  rfl

/-- **The path of the parent**, with the slash behind it. -/
theorem writeParentName_run {a node : Nat} {parent : Option OfParent}
    (hparent : IsParent s node parent)
    (hlive : s.Live (a + 52) ((parentPath parent).length + 1))
    (hapart : ApartFrom node (a + 52) (a + 52 + ((parentPath parent).length + 1)) parent)
    (hlen : (parentPath parent).length < 2 ^ 32) :
    ∃ m, writeParentName a node s = .ok (a + 52 + (parentPath parent).length + 1, s.put m) ∧
      ChangedIn (fun x => a + 52 ≤ x ∧ x < a + 52 + ((parentPath parent).length + 1)) s.bytes m ∧
      BytesAt m (a + 52) (parentPath parent ++ [slash]) := by
  by_cases hlong : ∃ par, parent = some par ∧ par.above = true
  · obtain ⟨par, rfl, habove⟩ := hlong
    have hup : parentPath (some par) = par.path := if_pos habove
    have hopen : OpenNode s node par := hparent
    rw [hup] at hlive hlen hapart ⊢
    refine ⟨_, writeParentName_long hopen habove hlive hapart hlen, ?_, ?_⟩
    · intro x hx
      rw [store8_of_ne (by omega), storeBytes_of_outside (by simp; omega)]
    · refine bytesAt_snoc.mpr ⟨?_, if_pos rfl⟩
      have hpath := bytesAt_storeBytes s.bytes (a + 52) (par.path ++ [0])
      exact (bytesAt_snoc.mp hpath).1.congr fun x hlo hhi => store8_of_ne (by omega)
  · have hup : parentPath parent = [] := by
      cases parent with
      | none => rfl
      | some par => exact if_neg fun habove => hlong ⟨par, rfl, habove⟩
    rw [hup] at hlive ⊢
    refine ⟨_, writeParentName_short hlive ?_, fun x hx => store8_of_ne (by simp at hx; omega), ?_⟩
    · intro hvalid
      cases parent with
      | none => simp [isValid_parent hparent] at hvalid
      | some par =>
        have hopen : OpenNode s node par := hparent
        refine ⟨hopen.live.mono (by omega) (by omega), ?_⟩
        rw [hopen.above]
        exact Bool.eq_false_iff.mpr fun habove => hlong ⟨par, rfl, habove⟩
    · exact ⟨if_pos rfl, trivial⟩

theorem lenthNeed_ge {parent : Option OfParent} {name : List UInt8}
    (hroot : parent = none → name = [] ∨ name.head? = some slash) :
    (fullName parent name).length + 1 ≤ lenthNeed parent name := by
  unfold fullName lenthNeed
  split
  · exact Nat.le_refl _
  · rename_i hslash
    cases parent with
    | none =>
      obtain rfl : name = [] := (hroot rfl).resolve_right hslash
      decide
    | some par =>
      simp only [parentPath, Option.elim_some, List.length_append, List.length_cons]
      split
      · omega
      · simp only [List.length_nil]
        omega

theorem fullName_noZero {p node : Nat} {name : List UInt8} {parent : Option OfParent}
    (hname : CStrAt d.bytes p name) (hparent : IsParent s node parent) :
    0 ∉ fullName parent name := by
  unfold fullName
  split
  · exact hname.noZero
  · have hup : 0 ∉ parentPath parent := by
      cases parent with
      | none => exact List.not_mem_nil
      | some par =>
        have hopen : OpenNode s node par := hparent
        unfold parentPath
        rw [Option.elim_some]
        split
        · exact hopen.path.noZero
        · exact List.not_mem_nil
    have hslash : (0 : UInt8) ≠ slash := by decide
    simp [hup, hname.noZero, hslash]

/-- The name of the node is copied with its end. -/
theorem memcpy_name {p : Nat} {name : List UInt8} (dst : Nat) (hs : Loaded img d s)
    (hname : CStrAt d.bytes p name) (hlo : d.base ≤ p)
    (hhi : p + (name.length + 1) ≤ d.base + d.len) (hlive : s.Live dst (name.length + 1))
    (hconst : ∀ x, dst ≤ x → x < dst + (name.length + 1) → ¬ img.Const d x) :
    memcpy dst p (name.length + 1) s = .ok ((), s.put (storeBytes s.bytes dst (name ++ [0]))) := by
  have hlen : (name ++ [0]).length = name.length + 1 := by simp
  have hapart : p + (name ++ [0]).length ≤ dst ∨ dst + (name ++ [0]).length ≤ p := by
    rw [hlen]
    by_contra hover
    -- a byte of the blob would be among those that are written
    rcases Nat.lt_or_ge p dst with hlt | hge
    · exact hconst dst (Nat.le_refl _) (by omega) (.inl ⟨by omega, by omega⟩)
    · exact hconst p hge (by omega) (.inl ⟨hlo, by omega⟩)
  rw [← hlen]
  refine memcpy_run (hs.cstr hname hlo hhi).bytes ?_ ?_ hapart
  · rw [hlen]
    exact hs.live hlo hhi
  · rwa [hlen]

/-- **The path name** is written behind the node. -/
theorem writeFullName_run {a p node : Nat} {name : List UInt8} {parent : Option OfParent}
    (hs : Loaded img d s) (hname : CStrAt d.bytes p name) (hlo : d.base ≤ p)
    (hhi : p + (name.length + 1) ≤ d.base + d.len) (hparent : IsParent s node parent)
    (hlive : s.Live a (52 + ((fullName parent name).length + 1)))
    (hplace : a + (52 + ((fullName parent name).length + 1)) ≤ 0xfffff000)
    (hconst : ∀ x, a ≤ x → x < a + (52 + ((fullName parent name).length + 1)) → ¬ img.Const d x)
    (hapart : ApartFrom node a (a + (52 + ((fullName parent name).length + 1))) parent) :
    ∃ m, writeFullName a node p (name.length + 1) (!decide (name.head? = some slash)) s =
        .ok ((), s.put m) ∧
      ChangedIn (fun x => (a + 12 ≤ x ∧ x < a + 16) ∨
        (a + 52 ≤ x ∧ x < a + 52 + ((fullName parent name).length + 1))) s.bytes m ∧
      load32 m (a + 12) = a + 52 ∧ CStrAt m (a + 52) (fullName parent name) := by
  have hnoZero : 0 ∉ fullName parent name := fullName_noZero hname hparent
  have hword : s.Live (a + 12) 4 := hlive.mono (by omega) (by omega)
  have hm₀ := changedIn_store32 s.bytes (a + 12) (a + 52)
  have hs₀ : Loaded img d (s.put (store32 s.bytes (a + 12) (a + 52))) :=
    hs.put hm₀ fun x hx hW => hconst x (by omega) (by omega) hx
  have hparent₀ : IsParent (s.put (store32 s.bytes (a + 12) (a + 52))) node parent :=
    hparent.put (hm₀.mono fun x hx => (⟨by omega, by omega⟩ : a ≤ x ∧ x < _)) hapart
  have hfirst : load32 (store32 s.bytes (a + 12) (a + 52)) (a + 12) = a + 52 := by
    rw [load32_store32_same, Nat.mod_eq_of_lt (by omega)]
  unfold writeFullName nodeFullName nodeSize
  rw [RamM.bind_ok (putWord_run hword)]
  by_cases hslash : name.head? = some slash
  · -- the name is a path of its own
    have hfull : fullName parent name = name := if_pos hslash
    rw [hfull] at hlive hplace hconst hapart ⊢
    have hcopy := memcpy_name (a + 52) hs₀ hname hlo hhi
      (by simpa using hlive.mono (by omega) (by omega))
      fun x hxlo hxhi => hconst x (by omega) (by omega)
    rw [if_neg (by simp [hslash]), RamM.bind_ok (RamM.pure_run _ _), hcopy]
    refine ⟨_, rfl, ?_, ?_, bytesAt_storeBytes _ _ _, hname.noZero⟩
    · intro x hx
      rw [storeBytes_of_outside (by simp; omega), Ram.put_bytes, hm₀ x (by omega)]
    · refine (load32_congr fun x hxlo hxhi => ?_).trans hfirst
      exact storeBytes_of_outside (by omega)
  · have hfull : fullName parent name = (parentPath parent ++ [slash]) ++ name := by
      rw [fullName, if_neg hslash, List.append_assoc, List.singleton_append]
    have hlen : (fullName parent name).length = (parentPath parent).length + 1 + name.length := by
      rw [hfull, List.length_append, List.length_append, List.length_singleton]
    rw [hlen] at hlive hplace hconst hapart ⊢
    have hapart' : ApartFrom node (a + 52) (a + 52 + ((parentPath parent).length + 1)) parent := by
      cases parent with
      | none => trivial
      | some par =>
        have hcases : _ ∨ _ := hapart
        have hgoal : node + (52 + (par.path.length + 1)) ≤ a + 52 ∨
            a + 52 + ((parentPath (some par)).length + 1) ≤ node := by omega
        exact hgoal
    obtain ⟨m₁, hrun, hm₁, hbytes⟩ := writeParentName_run (a := a) hparent₀
      (by simpa using hlive.mono (by omega) (by omega)) hapart' (by omega)
    have hs₁ : Loaded img d (s.put m₁) :=
      hs₀.put hm₁ fun x hx hW => hconst x (by omega) (by omega) hx
    have hcopy := memcpy_name (a + 52 + (parentPath parent).length + 1) hs₁ hname hlo hhi
      (by simpa using hlive.mono (by omega) (by omega))
      fun x hxlo hxhi => hconst x (by omega) (by omega)
    rw [if_pos (by simp [hslash]), RamM.bind_ok hrun, Ram.put_put, hcopy]
    refine ⟨_, rfl, ?_, ?_, ?_, hnoZero⟩
    · intro x hx
      rw [storeBytes_of_outside (by simp; omega), Ram.put_bytes, hm₁ x (by omega), Ram.put_bytes,
        hm₀ x (by omega)]
    · refine (load32_congr fun x hxlo hxhi => ?_).trans hfirst
      rw [storeBytes_of_outside (by omega), Ram.put_bytes, hm₁ x (by omega)]
      rfl
    · have hend : a + 52 + (parentPath parent ++ [slash]).length =
          a + 52 + (parentPath parent).length + 1 := by simp [Nat.add_assoc]
      rw [hfull, List.append_assoc, bytesAt_append, hend]
      refine ⟨hbytes.congr fun x hxlo hxhi => ?_, bytesAt_storeBytes _ _ _⟩
      exact storeBytes_of_outside (by omega)

/-! ## The links to the parent -/

/-- Where the next child of `node` is linked: behind its last child, or in the node itself. -/
def childSlot (m : Mem) (node : Nat) : Nat :=
  if isValid (load32 m (node + 36)) then load32 m (node + 36) + 32 else node + 28

/-- The stores that both passes make. -/
theorem linkParent_words (m : Mem) (a : Nat) {node : Nat} (hnode : node < 2 ^ 32) :
    load32 (store32 (store32 m (a + 24) node) (a + 8) (2 ^ 32 - 1)) (a + 24) = node ∧
      load32 (store32 (store32 m (a + 24) node) (a + 8) (2 ^ 32 - 1)) (a + 8) = 2 ^ 32 - 1 ∧
      ChangedIn (fun x => (a + 8 ≤ x ∧ x < a + 12) ∨ (a + 24 ≤ x ∧ x < a + 28)) m
        (store32 (store32 m (a + 24) node) (a + 8) (2 ^ 32 - 1)) := by
  refine ⟨?_, ?_, fun x hx => ?_⟩
  · rw [load32_store32_of_disjoint (by omega), load32_store32_same, Nat.mod_eq_of_lt hnode]
  · exact (load32_store32_same _ _ _).trans (by decide)
  · rw [store32_of_outside (by omega), store32_of_outside (by omega)]

/-- The node only learns its parent: there is none, or there are no lists. -/
theorem linkParent_own {a node next : Nat} (hlive : s.Live a 52) (hnode : node < 2 ^ 32)
    (hno : (isValid node && isValid next) = false) :
    ∃ m, linkParent a node next s = .ok ((), s.put m) ∧ load32 m (a + 24) = node ∧
      load32 m (a + 8) = 2 ^ 32 - 1 ∧
      ChangedIn (fun x => (a + 8 ≤ x ∧ x < a + 12) ∨ (a + 24 ≤ x ∧ x < a + 28)) s.bytes m := by
  obtain ⟨hparent, hphandle, hm⟩ := linkParent_words s.bytes a hnode
  refine ⟨_, ?_, hparent, hphandle, hm⟩
  unfold linkParent nodeParent nodePhandle
  rw [RamM.bind_ok (putWord_run (hlive.mono (by omega) (by omega))),
    RamM.bind_ok (putWord_run (by simpa using hlive.mono (by omega) (by omega))), hno,
    if_neg (by decide)]
  rfl

/-- **A child** is linked behind the last child of its parent, and is the last one now. -/
theorem linkParent_child {a node next : Nat} (hlive : s.Live a 52) (hvalid : isValid node = true)
    (hnext : isValid next = true) (hlast : s.Live (node + 36) 4)
    (hslot : s.Live (childSlot s.bytes node) 4) (ha : a < 2 ^ 32) (hnode : node + 40 ≤ a)
    (hroom : childSlot s.bytes node + 4 ≤ a)
    (hdisj : childSlot s.bytes node + 4 ≤ node + 36 ∨ node + 40 ≤ childSlot s.bytes node) :
    ∃ m, linkParent a node next s = .ok ((), s.put m) ∧ load32 m (a + 24) = node ∧
      load32 m (a + 8) = 2 ^ 32 - 1 ∧ load32 m (childSlot s.bytes node) = a ∧
      load32 m (node + 36) = a ∧
      ChangedIn (fun x => (a + 8 ≤ x ∧ x < a + 12) ∨ (a + 24 ≤ x ∧ x < a + 28) ∨
        (childSlot s.bytes node ≤ x ∧ x < childSlot s.bytes node + 4) ∨
        (node + 36 ≤ x ∧ x < node + 40)) s.bytes m := by
  have hlt := (isValid_iff.mp hvalid).2
  obtain ⟨hparent, hphandle, hm⟩ := linkParent_words s.bytes a (show node < 2 ^ 32 by omega)
  have hold := hm.load32 (a := node + 36) fun x _ _ => by omega
  have hlink : (if isValid (load32 s.bytes (node + 36)) then
        putWord (load32 s.bytes (node + 36) + 32) a else putWord (node + 28) a : RamM Unit)
      (s.put (store32 (store32 s.bytes (a + 24) node) (a + 8) (2 ^ 32 - 1))) =
      .ok ((), s.put (store32 (store32 (store32 s.bytes (a + 24) node) (a + 8) (2 ^ 32 - 1))
        (childSlot s.bytes node) a)) := by
    unfold childSlot at hslot ⊢
    split at hslot
    · rw [if_pos ‹_›, if_pos ‹_›, putWord_run (by simpa using hslot)]
      rfl
    · rw [if_neg ‹_›, if_neg ‹_›, putWord_run (by simpa using hslot)]
      rfl
  refine ⟨store32 (store32 (store32 (store32 s.bytes (a + 24) node) (a + 8) (2 ^ 32 - 1))
    (childSlot s.bytes node) a) (node + 36) a, ?_, ?_, ?_, ?_, ?_, fun x hx => ?_⟩
  · unfold linkParent nodeParent nodePhandle nodeNext nodeSibling nodeChild
    rw [RamM.bind_ok (putWord_run (hlive.mono (by omega) (by omega))),
      RamM.bind_ok (putWord_run (by simpa using hlive.mono (by omega) (by omega))), hvalid, hnext,
      Bool.and_self, if_pos rfl, RamM.bind_ok (loadWord_run (by simpa using hlast)), Ram.put_put,
      Ram.put_bytes, Ram.put_bytes, hold, RamM.bind_ok hlink, putWord_run (by simpa using hlast)]
    rfl
  · rw [load32_store32_of_disjoint (by omega), load32_store32_of_disjoint (by omega), hparent]
  · rw [load32_store32_of_disjoint (by omega), load32_store32_of_disjoint (by omega), hphandle]
  · rw [load32_store32_of_disjoint (by omega), load32_store32_same, Nat.mod_eq_of_lt ha]
  · rw [load32_store32_same, Nat.mod_eq_of_lt ha]
  · rw [store32_of_outside (by omega), store32_of_outside (by omega), hm x (by omega)]

/-! ## The name that is made up -/

theorem lastComponent_slash (l : List UInt8) : lastComponent (l ++ [slash]) = [] := by
  simp [lastComponent]

theorem lastComponent_snoc {c : UInt8} (l : List UInt8) (hc : c ≠ slash) :
    lastComponent (l ++ [c]) = lastComponent l ++ [c] := by
  simp [lastComponent, hc]

theorem beforeUnit_at (l : List UInt8) : beforeUnit (l ++ [atSign]) = l := by
  simp [beforeUnit]

theorem beforeUnit_snoc {c : UInt8} {l : List UInt8} (hc : c ≠ atSign) (hl : atSign ∈ l) :
    beforeUnit (l ++ [c]) = beforeUnit l := by
  simp [beforeUnit, hc, hl]

theorem beforeUnit_of_not_mem {l : List UInt8} (hl : atSign ∉ l) : beforeUnit l = l := if_neg hl

theorem beforeUnit_le (l : List UInt8) : beforeUnit l <+: l := by
  unfold beforeUnit
  split
  · rw [← List.reverse_suffix, List.reverse_reverse]
    exact (List.drop_suffix 1 _).trans (List.dropWhile_suffix _)
  · exact List.prefix_refl l

/-- The pointers of the scan of a path at `p`, `pre` being read. -/
structure ScanAt (p : Nat) (pre : List UInt8) (st : NameScan) : Prop where
  ptr1 : st.ptr1 = p + pre.length
  last : ∃ c, pre = c ++ lastComponent pre ∧ st.ptr2 = p + c.length
  unit : atSign ∈ lastComponent pre → st.ptr3 = st.ptr2 + (beforeUnit (lastComponent pre)).length
  noUnit : atSign ∉ lastComponent pre → st.ptr3 < st.ptr2

theorem ScanAt.bounds {p : Nat} {pre : List UInt8} {st : NameScan} (h : ScanAt p pre st) :
    st.ptr2 ≤ st.ptr1 ∧ st.ptr3 ≤ st.ptr1 := by
  obtain ⟨c, hpre, hptr2⟩ := h.last
  have hlen : pre.length = c.length + (lastComponent pre).length := by
    rw [← List.length_append, ← hpre]
  have hunit := (beforeUnit_le (lastComponent pre)).length_le
  have hptr1 := h.ptr1
  by_cases hat : atSign ∈ lastComponent pre
  · have hptr3 := h.unit hat
    omega
  · have hptr3 := h.noUnit hat
    omega

/-- One character. -/
theorem ScanAt.step {p : Nat} {pre : List UInt8} {st : NameScan} (h : ScanAt p pre st)
    (b : UInt8) :
    ScanAt p (pre ++ [b]) ⟨st.ptr1 + 1, if b = slash then st.ptr1 + 1 else st.ptr2,
      if b = atSign then st.ptr1 else st.ptr3⟩ := by
  have hbounds := h.bounds
  have hptr1 := h.ptr1
  obtain ⟨c, hpre, hptr2⟩ := h.last
  have hlen : pre.length = c.length + (lastComponent pre).length := by
    rw [← List.length_append, ← hpre]
  have hfirst : st.ptr1 + 1 = p + (pre ++ [b]).length := by
    rw [hptr1, List.length_append, List.length_singleton, Nat.add_assoc]
  by_cases hslash : b = slash
  · -- a new component begins
    subst hslash
    have hne : slash ≠ atSign := by decide
    rw [if_pos rfl, if_neg hne]
    refine ⟨hfirst, ⟨pre ++ [slash], ?_, hfirst⟩, ?_, fun _ => Nat.lt_succ_of_le hbounds.2⟩
    · rw [lastComponent_slash, List.append_nil]
    · rw [lastComponent_slash]
      exact fun hmem => absurd hmem List.not_mem_nil
  rw [if_neg hslash]
  have hcomp := lastComponent_snoc pre hslash
  have hsplit : pre ++ [b] = c ++ lastComponent (pre ++ [b]) := by
    rw [hcomp, ← List.append_assoc, ← hpre]
  by_cases hat : b = atSign
  · subst hat
    rw [if_pos rfl]
    refine ⟨hfirst, ⟨c, hsplit, hptr2⟩, fun _ => ?_, fun hmem => ?_⟩
    · rw [hcomp, beforeUnit_at]
      dsimp only
      omega
    · simp [hcomp] at hmem
  · rw [if_neg hat]
    have hmem : atSign ∈ lastComponent (pre ++ [b]) ↔ atSign ∈ lastComponent pre := by
      simp [hcomp, Ne.symm hat]
    refine ⟨hfirst, ⟨c, hsplit, hptr2⟩, fun hunit => ?_, fun hunit => h.noUnit (mt hmem.mpr hunit)⟩
    rw [hcomp, beforeUnit_snoc hat (hmem.mp hunit)]
    exact h.unit (hmem.mp hunit)

theorem nameScan_run {p rounds : Nat} {pre l : List UInt8} {st : NameScan} (h : ScanAt p pre st)
    (hstr : CStrAt s.bytes st.ptr1 l) (hlive : s.Live st.ptr1 (l.length + 1))
    (hrounds : l.length < rounds) :
    ∃ st', nameScan rounds st s = .ok (st', s) ∧ ScanAt p (pre ++ l) st' := by
  induction l generalizing rounds pre st with
  | nil =>
    obtain ⟨rounds, rfl⟩ : ∃ r, rounds = r + 1 := ⟨rounds - 1, by simp at hrounds; omega⟩
    refine ⟨st, ?_, by rwa [List.append_nil]⟩
    rw [nameScan, RamM.bind_ok (load8_run (hlive.mono (Nat.le_refl _) (by simp))),
      if_pos hstr.nil]
    rfl
  | cons b l ih =>
    obtain ⟨rounds, rfl⟩ : ∃ r, rounds = r + 1 := ⟨rounds - 1, by simp at hrounds; omega⟩
    rw [List.length_cons] at hlive hrounds
    obtain ⟨hb, hne, hl⟩ := hstr.cons
    obtain ⟨st', hrun, hst'⟩ := ih (h.step b) hl (hlive.mono (by dsimp only; omega)
      (by dsimp only; omega)) (show l.length < rounds by omega)
    refine ⟨st', ?_, by simpa using hst'⟩
    rw [nameScan, RamM.bind_ok (load8_run (hlive.mono (Nat.le_refl _) (by omega))), hb, if_neg hne,
      hrun]

/-- **The scan** finds where the name between the path and the unit begins, and how long it is. -/
theorem nameScan_path {p : Nat} {l : List UInt8} (hpos : 0 < p) (hstr : CStrAt s.bytes p l)
    (hlive : s.Live p (l.length + 1)) (hlen : l.length < 2 ^ 32) :
    ∃ st, nameScan walkRounds ⟨p, p, 0⟩ s = .ok (st, s) ∧ p ≤ st.ptr2 ∧
      st.ptr2 + (unitName l).length ≤ p + l.length ∧
      (if st.ptr3 < st.ptr2 then st.ptr1 else st.ptr3) = st.ptr2 + (unitName l).length ∧
      BytesAt s.bytes st.ptr2 (unitName l) := by
  have hstart : ScanAt p [] ⟨p, p, 0⟩ :=
    ⟨rfl, ⟨[], rfl, rfl⟩, fun hmem => absurd hmem List.not_mem_nil, fun _ => hpos⟩
  obtain ⟨st, hrun, hst⟩ := nameScan_run hstart hstr hlive hlen
  rw [List.nil_append] at hst
  obtain ⟨c, hpre, hptr2⟩ := hst.last
  obtain ⟨rest, hrest⟩ := beforeUnit_le (lastComponent l)
  have hunit : unitName l = beforeUnit (lastComponent l) := rfl
  have hptr1 := hst.ptr1
  have hlens : l.length = c.length + (lastComponent l).length := by
    rw [← List.length_append, ← hpre]
  have hle := (beforeUnit_le (lastComponent l)).length_le
  refine ⟨st, hrun, by omega, by rw [hunit]; omega, ?_, ?_⟩
  · rw [hunit]
    by_cases hat : atSign ∈ lastComponent l
    · have hptr3 := hst.unit hat
      rw [if_neg (by omega), hptr3]
    · have hptr3 := hst.noUnit hat
      rw [if_pos hptr3, beforeUnit_of_not_mem hat]
      omega
  · have hbytes := (bytesAt_snoc.mp hstr.bytes).1
    rw [hpre, ← hrest, bytesAt_append, bytesAt_append] at hbytes
    rw [hptr2, hunit]
    exact hbytes.2.1

/-- The record of a made-up property: its words. -/
theorem storeNamed_words (m : Mem) (q : Nat) {name length : Nat} (hname : name < 2 ^ 32)
    (hlength : length < 2 ^ 32) (hq : q + 16 < 2 ^ 32) :
    PropWords
      (store32 (store32 (store32 (store32 m q name) (q + 4) length) (q + 12) 0) (q + 8) (q + 16))
      q name length (q + 16) 0 where
  name := by
    rw [load32_store32_of_disjoint (by omega), load32_store32_of_disjoint (by omega),
      load32_store32_of_disjoint (by omega), load32_store32_same, Nat.mod_eq_of_lt hname]
  length := by
    rw [load32_store32_of_disjoint (by omega), load32_store32_of_disjoint (by omega),
      load32_store32_same, Nat.mod_eq_of_lt hlength]
  value := by rw [load32_store32_same, Nat.mod_eq_of_lt hq]
  next := by rw [load32_store32_of_disjoint (by omega), load32_store32_same, Nat.zero_mod]

/-- **A made-up name** is recorded at the aligned memory pointer, with the string behind it. -/
theorem addStringProperties_fill {a mem v next : Nat} {u : List UInt8} (hs : Loaded img d s)
    (hnext : isValid next = true) (hbytes : BytesAt s.bytes v u) (hv : s.Live v u.length)
    (hvq : v + u.length ≤ alignUp 4 mem) (hmem : alignUp 4 mem + (16 + (u.length + 1)) ≤ 0xfffff000)
    (ha : s.Live a 4) (haq : a + 4 ≤ alignUp 4 mem)
    (hq : s.Live (alignUp 4 mem) (16 + (u.length + 1)))
    (hconst : ∀ x, a ≤ x → x < alignUp 4 mem + (16 + (u.length + 1)) → ¬ img.Const d x) :
    ∃ m, fwkFdtAddStringProperties mem a img.strName v (u.length + 1) next s =
        .ok ((alignUp 4 mem, alignUp 4 mem + (16 + (u.length + 1))), s.put m) ∧
      ChangedIn (fun x => (alignUp 4 mem ≤ x ∧ x < alignUp 4 mem + (16 + (u.length + 1))) ∨
        (a ≤ x ∧ x < a + 4)) s.bytes m ∧
      PropWords m (alignUp 4 mem) img.strName (u.length + 1) (alignUp 4 mem + 16) 0 ∧
      BytesAt m (alignUp 4 mem + 16) (u ++ [0]) := by
  have halign := le_alignUp mem
  obtain ⟨hpos, hstr, hlit⟩ := hs.name
  set q := alignUp 4 mem with hqdef
  have hplace : fwkFdtMemoryCalculate mem (add32 propSize (u.length + 1)) ofAlign =
      (q, q + (16 + (u.length + 1))) := by
    unfold propSize
    rw [add32_of_lt (by omega), memoryCalculate_eq (by omega)]
  have hsize : sub32 (u.length + 1) 1 = u.length := by
    rw [sub32_of_le (by omega) (by omega), Nat.add_sub_cancel]
  -- the four words
  set m₁ := store32 (store32 (store32 (store32 s.bytes q img.strName) (q + 4) (u.length + 1))
    (q + 12) 0) (q + 8) (q + 16) with hm₁def
  have hwords : PropWords m₁ q img.strName (u.length + 1) (q + 16) 0 :=
    storeNamed_words s.bytes q (by omega) (by omega) (by omega)
  have hm₁ : ChangedIn (fun x => q ≤ x ∧ x < q + 16) s.bytes m₁ := by
    intro x hx
    rw [hm₁def, store32_of_outside (by omega), store32_of_outside (by omega),
      store32_of_outside (by omega), store32_of_outside (by omega)]
  -- the string
  have hbytes₁ : BytesAt m₁ v u := hbytes.congr (hm₁.agreeOn fun x _ _ => by omega)
  have hcopy : memcpy (q + 16) v u.length (s.put m₁) =
      .ok ((), s.put (storeBytes m₁ (q + 16) u)) :=
    memcpy_run hbytes₁ (by simpa using hv) (by simpa using hq.mono (by omega) (by omega))
      (.inl (by omega))
  set m₂ := store8 (storeBytes m₁ (q + 16) u) (q + 16 + u.length) 0 with hm₂def
  have hm₂ : ChangedIn (fun x => q + 16 ≤ x ∧ x < q + (16 + (u.length + 1))) m₁ m₂ := by
    intro x hx
    rw [hm₂def, store8_of_ne (by omega), storeBytes_of_outside (by omega)]
  have hstring : BytesAt m₂ (q + 16) (u ++ [0]) := by
    refine bytesAt_snoc.mpr ⟨?_, if_pos rfl⟩
    exact (bytesAt_storeBytes m₁ (q + 16) u).congr fun x _ _ => store8_of_ne (by omega)
  have hs₂ : Loaded img d (s.put m₂) := by
    have hm : ChangedIn (fun x => q ≤ x ∧ x < q + (16 + (u.length + 1))) s.bytes m₂ :=
      (hm₁.mono fun x hx => by omega).trans (hm₂.mono fun x hx => by omega)
    exact hs.put hm fun x hx hW => hconst x (by omega) hW.2 hx
  have hisName : strcmp (cstring "name") img.strName (s.put m₂) = _ :=
    strcmp_run hs₂.literal (Ram.Live.of_fixed hs₂.strName) (by decide)
  have hm₃ := changedIn_store32 m₂ a (q + 16)
  refine ⟨store32 m₂ a (q + 16), ?_, ?_, (hwords.frame hm₂ fun x _ _ => by omega).frame hm₃
    fun x _ _ => by omega, hstring.congr (hm₃.agreeOn fun x _ _ => by omega)⟩
  · have hnotNull : img.strName ≠ 0 := by omega
    unfold fwkFdtAddStringProperties
    rw [if_neg hnotNull, hplace]
    unfold propSize propName propLength propValue propNext nodeName
    dsimp only
    rw [hnext, if_pos rfl, Nat.add_zero, Nat.add_zero, hsize,
      RamM.bind_ok (putWord_run (hq.mono (by omega) (by omega))),
      RamM.bind_ok (putWord_run (by simpa using hq.mono (by omega) (by omega))),
      RamM.bind_ok (putWord_run (by simpa using hq.mono (by omega) (by omega))),
      RamM.bind_ok (putWord_run (by simpa using hq.mono (by omega) (by omega)))]
    simp only [Ram.put_put, Ram.put_bytes]
    rw [RamM.bind_ok hcopy,
      RamM.bind_ok (putByte_run (by simpa using hq.mono (by omega) (by omega)))]
    simp only [Ram.put_put, Ram.put_bytes]
    rw [RamM.bind_ok hisName, if_pos (by decide), RamM.bind_ok (putWord_run (by simpa using ha))]
    rfl
  · exact ((hm₁.mono fun x hx => by omega).trans (hm₂.mono fun x hx => by omega)).trans
      (hm₃.mono fun x hx => by omega)

section CreateName

variable {a mem prev : Nat} {path : List UInt8} (hfull : load32 s.bytes (a + 12) = a + 52)
  (hpath : CStrAt s.bytes (a + 52) path) (hlive : s.Live a (52 + (path.length + 1)))
  (hlen : a + (52 + (path.length + 1)) ≤ 0xfffff000)
  (hmem : nameMem path false mem ≤ 0xfffff000)

include hfull hpath hlive hlen

/-- The scan, and what is made of it. -/
theorem createName_scan (img : OfImage) (mem prev next : Nat) :
    ∃ v, createName img a next mem prev s =
        (do
          let prop ← fwkFdtAddStringProperties mem a img.strName v ((unitName path).length + 1) next
          let _ ← (if isValid prop.1 && isValid next then putWord prev prop.1 else pure ())
          pure prop.2 : RamM Nat) s ∧
      a + 52 ≤ v ∧ v + (unitName path).length ≤ a + 52 + path.length ∧
      BytesAt s.bytes v (unitName path) := by
  obtain ⟨st, hrun, hlo, hhi, hptr3, hbytes⟩ := nameScan_path (show 0 < a + 52 by omega) hpath
    (hlive.mono (by omega) (by omega)) (by omega)
  have hsize : sub32 (st.ptr2 + (unitName path).length + 1) st.ptr2 =
      (unitName path).length + 1 := by
    rw [sub32_of_le (by omega) (by omega)]
    omega
  refine ⟨st.ptr2, ?_, hlo, hhi, hbytes⟩
  unfold createName nodeFullName
  rw [RamM.bind_ok (loadWord_run (hlive.mono (by omega) (by omega))), hfull, RamM.bind_ok hrun]
  simp only [hptr3, hsize]

include hmem

theorem createName_size (hs : Loaded img d s) :
    createName img a 0 mem prev s = .ok (nameMem path false mem, s) := by
  obtain ⟨v, hrun, -, -, -⟩ := createName_scan hfull hpath hlive hlen img mem prev 0
  have hpos := hs.name.1
  have hnull : isValid 0 = false := by decide
  have hle : nameMem path false mem = alignUp 4 mem + (16 + ((unitName path).length + 1)) := rfl
  have halign := le_alignUp mem
  have hadd : fwkFdtAddStringProperties mem a img.strName v ((unitName path).length + 1) 0 s =
      .ok ((alignUp 4 mem, nameMem path false mem), s) := by
    unfold fwkFdtAddStringProperties propSize
    rw [if_neg (by omega), hnull, if_neg (by decide), add32_of_lt (by omega),
      memoryCalculate_eq (by omega), hle]
    rfl
  rw [hrun, RamM.bind_ok hadd, hnull, Bool.and_false, if_neg (by decide),
    RamM.bind_ok (RamM.pure_run _ s)]
  rfl

theorem createName_fill {next : Nat} (hs : Loaded img d s) (hnext : isValid next = true)
    (habove : a + (52 + (path.length + 1)) ≤ mem)
    (hq : s.Live (alignUp 4 mem) (16 + ((unitName path).length + 1)))
    (hprev : s.Live prev 4) (hprevlo : a + 12 ≤ prev) (hprevhi : prev + 4 ≤ mem)
    (hconst : ∀ x, a ≤ x → x < nameMem path false mem → ¬ img.Const d x) :
    ∃ m, createName img a next mem prev s = .ok (nameMem path false mem, s.put m) ∧
      ChangedIn (fun x => (alignUp 4 mem ≤ x ∧ x < nameMem path false mem) ∨
        (a ≤ x ∧ x < a + 4) ∨ (prev ≤ x ∧ x < prev + 4)) s.bytes m ∧
      PropWords m (alignUp 4 mem) img.strName ((unitName path).length + 1) (alignUp 4 mem + 16) 0 ∧
      BytesAt m (alignUp 4 mem + 16) (unitName path ++ [0]) ∧ load32 m prev = alignUp 4 mem := by
  obtain ⟨v, hrun, hvlo, hvhi, hbytes⟩ := createName_scan hfull hpath hlive hlen img
    mem prev next
  have hle : nameMem path false mem = alignUp 4 mem + (16 + ((unitName path).length + 1)) := rfl
  have halign := le_alignUp mem
  rw [hle] at hmem hconst
  obtain ⟨m, hadd, hm, hwords, hstring⟩ := addStringProperties_fill hs hnext hbytes
    (hlive.mono (by omega) (by omega)) (by omega) hmem (hlive.mono (Nat.le_refl a) (by omega))
    (by omega) hq hconst
  have hvalid : isValid (alignUp 4 mem) = true := isValid_iff.mpr ⟨by omega, by omega⟩
  have hm' := changedIn_store32 m prev (alignUp 4 mem)
  refine ⟨store32 m prev (alignUp 4 mem), ?_, ?_, hwords.frame hm' fun x _ _ => by omega,
    hstring.congr (hm'.agreeOn fun x _ _ => by omega), ?_⟩
  · rw [hrun, RamM.bind_ok hadd, hvalid, hnext, Bool.and_self, if_pos rfl,
      RamM.bind_ok (putWord_run (by simpa using hprev)), hle]
    rfl
  · rw [hle]
    exact (hm.mono fun x hx => by omega).trans (hm'.mono fun x hx => by omega)
  · rw [load32_store32_same, Nat.mod_eq_of_lt (by omega)]

end CreateName

/-! ## Behind the properties -/

theorem defaultNull_run (img : OfImage) (field : Nat) (hlive : s.Live field 4) :
    ∃ m, defaultNull img field s = .ok ((), s.put m) ∧
      ChangedIn (fun x => field ≤ x ∧ x < field + 4) s.bytes m := by
  rw [defaultNull, RamM.bind_ok (loadWord_run hlive)]
  split
  · exact ⟨_, putWord_run hlive, changedIn_store32 _ _ _⟩
  · exact ⟨s.bytes, rfl, ChangedIn.refl _ _⟩

/-- The name and the type are not left null. -/
theorem defaultNulls_run (img : OfImage) (a : Nat) (hlive : s.Live a 8) :
    ∃ m, (do
        let _ ← defaultNull img (a + 0)
        defaultNull img (a + 4) : RamM Unit) s = .ok ((), s.put m) ∧
      ChangedIn (fun x => a ≤ x ∧ x < a + 8) s.bytes m := by
  obtain ⟨m₁, hrun₁, hm₁⟩ := defaultNull_run img (a + 0)
    (hlive.mono (by omega) (by omega))
  obtain ⟨m₂, hrun₂, hm₂⟩ := @defaultNull_run (s.put m₁) img (a + 4)
    (by simpa using hlive.mono (by omega) (by omega))
  refine ⟨m₂, ?_, (hm₁.mono fun x hx => by omega).trans (hm₂.mono fun x hx => by omega)⟩
  rw [RamM.bind_ok hrun₁, hrun₂]
  rfl

/-- The properties of a node, with the name that is made for one that has none. -/
def nodeProps (path : List UInt8) (items : List OfItem) : List (List UInt8 × List UInt8) :=
  ofProps items ++ if ofNamed items then [] else [(cstring "name", unitName path ++ [0])]

theorem PropSeg.append {m : Mem} {q r t : Nat} {props props' : List (List UInt8 × List UInt8)}
    (h : PropSeg m r q props) (h' : PropSeg m t r props') : PropSeg m t q (props ++ props') := by
  induction props generalizing q with
  | nil =>
    have hq : q = r := h
    rw [hq]
    exact h'
  | cons prop props ih =>
    obtain ⟨hne, hname, hlen, hvalue, hrest⟩ := h
    exact ⟨hne, hname, hlen, hvalue, ih hrest⟩

/-- **The end of a node in the sizing pass.** -/
theorem closeNode_size {a p mem prev : Nat} {path : List UInt8} {items : List OfItem}
    {toks : List Nat} (hs : Loaded img d s) (hfull : load32 s.bytes (a + 12) = a + 52)
    (hpath : CStrAt s.bytes (a + 52) path) (hlive : s.Live a (52 + (path.length + 1)))
    (hlen : a + (52 + (path.length + 1)) ≤ 0xfffff000)
    (hmem : nameMem path (ofNamed items) mem ≤ 0xfffff000) :
    closeNode img a 0 ⟨p, mem, prev, ofNamed items, toks⟩ s =
      .ok (nameMem path (ofNamed items) mem, s) := by
  have hnull : isValid 0 = false := by decide
  unfold closeNode
  rw [hnull]
  dsimp only
  cases hnamed : ofNamed items with
  | true =>
    rw [if_pos rfl, RamM.bind_ok (RamM.pure_run _ s), if_neg (by decide),
      RamM.bind_ok (RamM.pure_run _ s)]
    rfl
  | false =>
    rw [hnamed] at hmem
    rw [if_neg (by decide), RamM.bind_ok (createName_size hfull hpath hlive hlen hmem hs),
      if_neg (by decide), RamM.bind_ok (RamM.pure_run _ s)]
    rfl

/-- A chain of the made-up name alone. -/
theorem namedSeg {m : Mem} {q : Nat} {path : List UInt8} (hpos : 0 < q)
    (hwords : PropWords m q img.strName ((unitName path).length + 1) (q + 16) 0)
    (hname : CStrAt m img.strName (cstring "name"))
    (hstring : BytesAt m (q + 16) (unitName path ++ [0])) :
    PropSeg m 0 q [(cstring "name", unitName path ++ [0])] := by
  refine ⟨by omega, ?_, ?_, ?_, hwords.next⟩
  · rw [hwords.name]
    exact hname
  · rw [hwords.length, List.length_append, List.length_singleton]
  · rw [hwords.value]
    exact hstring

/-- **The end of a node in the filling pass.**  The chain of the properties is complete, and rests
on the records and on the word it begins at. -/
theorem closeNode_fill {a p mem start prev prev' next : Nat} {path : List UInt8}
    {items : List OfItem} {toks : List Nat} (hs : Loaded img d s) (hnext : isValid next = true)
    (hfull : load32 s.bytes (a + 12) = a + 52) (hpath : CStrAt s.bytes (a + 52) path)
    (hlive : s.Live a (nameMem path (ofNamed items) mem - a))
    (hstart : a + (52 + (path.length + 1)) ≤ start) (hmem : start ≤ mem)
    (htop : nameMem path (ofNamed items) mem ≤ 0xfffff000)
    (hconst : ∀ x, a ≤ x → x < nameMem path (ofNamed items) mem → ¬ img.Const d x)
    (hprev : a + 12 ≤ prev) (hprev' : prev + 4 ≤ start)
    (hlink : prev' = prev ∨ start ≤ prev') (hroom : prev' + 4 ≤ mem)
    (hlast : load32 s.bytes prev' = 0)
    (hchain : RestsOn (fun x => img.Const d x ∨ (¬ (prev' ≤ x ∧ x < prev' + 4) ∧
        ((start ≤ x ∧ x < mem) ∨ (prev ≤ x ∧ x < prev + 4)))) s.bytes
      (fun m => PropSeg m (load32 m prev') (load32 m prev) (ofProps items))) :
    ∃ m, closeNode img a next ⟨p, mem, prev', ofNamed items, toks⟩ s =
        .ok (nameMem path (ofNamed items) mem, s.put m) ∧
      ChangedIn (fun x => (mem ≤ x ∧ x < nameMem path (ofNamed items) mem) ∨
        (a ≤ x ∧ x < a + 8) ∨ (prev' ≤ x ∧ x < prev' + 4)) s.bytes m ∧
      RestsOn (fun x => img.Const d x ∨ (start ≤ x ∧ x < nameMem path (ofNamed items) mem) ∨
        (prev ≤ x ∧ x < prev + 4)) m
        (fun m => PropSeg m 0 (load32 m prev) (nodeProps path items)) := by
  have hle := le_nameMem path (ofNamed items) mem
  have hnulls : ∀ m, ∃ m', (if isValid next then (do
        let _ ← defaultNull img (a + 0)
        defaultNull img (a + 4)) else pure () : RamM Unit) (s.put m) = .ok ((), s.put m') ∧
      ChangedIn (fun x => a ≤ x ∧ x < a + 8) m m' := by
    intro m
    obtain ⟨m', hrun, hm'⟩ := @defaultNulls_run (s.put m) img a
      (by simpa using hlive.mono (by omega) (by omega))
    exact ⟨m', by rw [hnext, if_pos rfl, hrun]; rfl, hm'⟩
  unfold closeNode nodeName nodeType
  dsimp only
  cases hnamed : ofNamed items with
  | true =>
    rw [hnamed] at hconst hlive
    obtain ⟨m, hrun, hm⟩ := hnulls s.bytes
    have hmem' : nameMem path true mem = mem := rfl
    refine ⟨m, ?_, hm.mono fun x hx => by omega, ?_⟩
    · rw [if_pos rfl, RamM.bind_ok (RamM.pure_run _ s)]
      exact RamM.bind_ok hrun
    · intro M hM
      rw [hmem'] at hM
      have hold : ∀ x, prev' ≤ x → x < prev' + 4 → M x = s.bytes x := fun x hlo hhi =>
        (hM x (by omega)).trans (hm x (by omega))
      have hend : load32 M prev' = 0 := (load32_congr hold).trans hlast
      have hseg : PropSeg M (load32 M prev') (load32 M prev) (ofProps items) := by
        refine hchain M fun x hx => ?_
        have hout : ¬ (a ≤ x ∧ x < a + 8) := by
          rcases hx with hx | hx
          · exact fun hin => hconst x hin.1 (by omega) hx
          · omega
        rw [hM x (hx.imp_right And.right), hm x hout]
      rw [hend] at hseg
      rw [nodeProps, hnamed, if_pos rfl, List.append_nil]
      exact hseg
  | false =>
    rw [hnamed] at hconst hlive htop
    have hmem' : nameMem path false mem =
      alignUp 4 mem + (16 + ((unitName path).length + 1)) := rfl
    have halign := le_alignUp mem
    obtain ⟨m₁, hrun₁, hm₁, hwords, hstring, hword⟩ := createName_fill hfull hpath
      (hlive.mono (Nat.le_refl a) (by omega)) (by omega) htop hs hnext (by omega)
      (hlive.mono (by omega) (by omega)) (show s.Live prev' 4 from hlive.mono (by omega) (by omega))
      (by omega) hroom hconst
    obtain ⟨m, hrun, hm⟩ := hnulls m₁
    refine ⟨m, ?_, (hm₁.mono fun x hx => by omega).trans (hm.mono fun x hx => by omega), ?_⟩
    · rw [if_neg (by decide), RamM.bind_ok hrun₁]
      exact RamM.bind_ok hrun
    · intro M hM
      have hkept : ChangedIn (fun x => ¬ (img.Const d x ∨
          (start ≤ x ∧ x < nameMem path false mem) ∨ (prev ≤ x ∧ x < prev + 4))) m M :=
        fun x hx => hM x (not_not.mp hx)
      have hlink' : load32 M prev' = alignUp 4 mem := by
        rw [hkept.load32 fun x _ _ => by omega, hm.load32 fun x _ _ => by omega, hword]
      have hseg : PropSeg M (load32 M prev') (load32 M prev) (ofProps items) := by
        refine hchain M fun x hx => ?_
        have hout : ¬ (a ≤ x ∧ x < nameMem path false mem) ∨ x < mem ∧ a + 8 ≤ x ∧
            ¬ (prev' ≤ x ∧ x < prev' + 4) := by
          rcases hx with hx | hx
          · exact .inl fun hin => hconst x hin.1 hin.2 hx
          · omega
        rw [hM x (hx.imp_right fun hin => by omega), hm x (by omega), hm₁ x (by omega)]
      have hname : CStrAt M img.strName (cstring "name") := by
        refine hs.name.2.2.congr fun x hlo hhi => ?_
        have hc : img.Const d x := .inr ⟨hlo, hhi⟩
        have hout : ¬ (a ≤ x ∧ x < nameMem path false mem) := fun hin => hconst x hin.1 hin.2 hc
        rw [hM x (.inl hc), hm x (by omega), hm₁ x (by omega)]
        exact hs.const x hc
      rw [hlink'] at hseg
      rw [nodeProps, hnamed, if_neg (by decide)]
      refine hseg.append (namedSeg (by omega) ?_ hname ?_)
      · exact (hwords.frame hm fun x _ _ => by omega).frame hkept fun x _ _ => by omega
      · refine hstring.congr fun x hlo hhi => ?_
        rw [List.length_append, List.length_singleton] at hhi
        rw [hM x (by omega), hm x (by omega)]

end HeavenFox.Platform
