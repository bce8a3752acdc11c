/-
# HeavenFox.Platform.KobjectTree -- the objects by their paths

What is reached from the root along the exact names is a tree: every object has one path
and every path at most one object.  Adding an object to a directory adds the one path, and
taking off a file or an empty directory takes off its path.

`findLoop` and `populateLoop` stay on these paths as long as no component is taken for the
beginning of another name (`TakesExact`).
-/
import HeavenFox.Platform.Kobject
import Mathlib.Data.List.TakeWhile

namespace HeavenFox.Platform

open HeavenFox.Common HeavenFox.Logic

/-! ## Paths -/

/-- An absolute path: directories, and the file in the last one, or none for the path of the last
directory itself. -/
structure KPath where
  dirs : List (List Char)
  file : Option (List Char)
  deriving DecidableEq, Repr

/-- Letters, digits, `-`, `_` and `.`. -/
def nameChar (ch : Char) : Bool := ch.isAlphanum || ch == '-' || ch == '_' || ch == '.'

/-- A component. -/
def NameOk (name : List Char) : Prop := name ≠ [] ∧ ∀ ch ∈ name, nameChar ch = true

instance (name : List Char) : Decidable (NameOk name) :=
  decidable_of_iff ((!name.isEmpty && name.all nameChar) = true) (by simp [NameOk])

/-- Directories, each behind a slash, in front of what follows. -/
def dirText (dirs : List (List Char)) (rest : List Char) : List Char :=
  dirs.flatMap (fun name => '/' :: name) ++ rest

namespace KPath

/-- What follows the directories. -/
def endText (p : KPath) : List Char :=
  match p.file with
  | none => ['/']
  | some name => '/' :: name

/-- The path as it is written: directories with a slash at their end. -/
def text (p : KPath) : List Char := dirText p.dirs p.endText

/-- Every component is one. -/
def WellFormed (p : KPath) : Prop := (∀ name ∈ p.dirs, NameOk name) ∧ ∀ name ∈ p.file, NameOk name

instance (p : KPath) : Decidable p.WellFormed := inferInstanceAs (Decidable (_ ∧ _))

/-- The path of the root. -/
def top : KPath := ⟨[], none⟩

end KPath

theorem NameOk.no_slash {name : List Char} (h : NameOk name) : '/' ∉ name := fun hmem =>
  absurd (h.2 '/' hmem) (by decide)

/-! ## Strings -/

/-- The next slash is behind the component. -/
theorem kstrchr_append {name : List Char} (rest : List Char) (h : '/' ∉ name) :
    kstrchr (name ++ '/' :: rest) '/' = some ('/' :: rest) := by
  have hdrop : (name ++ '/' :: rest).dropWhile (fun c => c != '/') = '/' :: rest := by
    rw [List.dropWhile_append_of_pos fun ch hch => ?_]
    · rfl
    · have hne : ch ≠ '/' := fun heq => h (heq ▸ hch)
      simpa using hne
  rw [kstrchr, hdrop]

theorem kstrchr_none {name : List Char} (h : '/' ∉ name) : kstrchr name '/' = none := by
  have hdrop : name.dropWhile (fun c => c != '/') = [] := by
    refine List.dropWhile_eq_nil_iff.mpr fun ch hch => ?_
    have hne : ch ≠ '/' := fun heq => h (heq ▸ hch)
    simpa using hne
  rw [kstrchr, hdrop]

/-- Only the characters of the component are compared. -/
theorem strnEq_append (c rest name : List Char) :
    strnEq (c ++ rest) name c.length = c.isPrefixOf name := by
  induction c generalizing name with
  | nil => rw [List.length_nil, List.isPrefixOf_nil_left]; cases rest <;> cases name <;> rfl
  | cons a c ih =>
    cases name with
    | nil => rfl
    | cons b name => rw [List.cons_append, List.length_cons, strnEq, ih, List.isPrefixOf]

/-! ## The tree -/

/-- `x` is a member of `k` with this name and of this kind. -/
def IsChild (s : Kobjects) (k : Nat) (name : List Char) (isDir : Bool) (x : Nat) : Prop :=
  x ∈ s.list k ∧ (s.kobj x).name = some name ∧ (s.kobj x).isDir = isDir

instance (s : Kobjects) (k : Nat) (name : List Char) (isDir : Bool) (x : Nat) :
    Decidable (IsChild s k name isDir x) :=
  inferInstanceAs (Decidable (_ ∧ _ ∧ _))

/-- Directories lead from `k` to `x`. -/
def WalkDirs (s : Kobjects) : Nat → List (List Char) → Nat → Prop
  | k, [], x => x = k
  | k, name :: dirs, x => ∃ y, IsChild s k name true y ∧ WalkDirs s y dirs x

/-- The object of a path. -/
def ObjAt (root : Nat) (s : Kobjects) (p : KPath) (x : Nat) : Prop :=
  match p.file with
  | none => WalkDirs s root p.dirs x
  | some name => ∃ k, WalkDirs s root p.dirs k ∧ IsChild s k name false x

/-- Members are allocated, know their kset and have different names; only directories have
members. -/
structure IsTree (root : Nat) (s : Kobjects) : Prop where
  rootDir : (s.kobj root).isDir = true
  live : ∀ k, ∀ x ∈ s.list k, s.live x = true ∧ x ≠ root
  kset : ∀ k, ∀ x ∈ s.list k, (s.kobj x).sprtKset = some k ∧ (s.kobj x).name ≠ none
  names : ∀ k, ((s.list k).map fun x => (s.kobj x).name).Nodup
  dirs : ∀ k, s.list k ≠ [] → k = root ∨ s.live k = true ∧ (s.kobj k).isDir = true

theorem walkDirs_snoc {s : Kobjects} {k x : Nat} {dirs : List (List Char)} {name : List Char} :
    WalkDirs s k (dirs ++ [name]) x ↔ ∃ y, WalkDirs s k dirs y ∧ IsChild s y name true x := by
  induction dirs generalizing k with
  | nil => simp [WalkDirs]
  | cons d dirs ih =>
    simp only [List.cons_append, WalkDirs, ih]
    constructor
    · rintro ⟨z, hz, y, hy, hx⟩
      exact ⟨y, ⟨z, hz, hy⟩, hx⟩
    · rintro ⟨y, ⟨z, hz, hy⟩, hx⟩
      exact ⟨z, hz, y, hy, hx⟩

namespace IsTree

variable {root : Nat} {s : Kobjects}

theorem child_ne_root (h : IsTree root s) {k x : Nat} {name : List Char} {isDir : Bool}
    (hx : IsChild s k name isDir x) : x ≠ root := (h.live k x hx.1).2

/-- Members with one name are one. -/
theorem child_unique (h : IsTree root s) {k x y : Nat} {name : List Char} {isDir isDir' : Bool}
    (hx : IsChild s k name isDir x) (hy : IsChild s k name isDir' y) : x = y :=
  List.inj_on_of_nodup_map (h.names k) hx.1 hy.1 (hx.2.1.trans hy.2.1.symm)

/-- An object is a member of one kset. -/
theorem parent_unique (h : IsTree root s) {k k' x : Nat} {name name' : List Char}
    {isDir isDir' : Bool} (hx : IsChild s k name isDir x) (hx' : IsChild s k' name' isDir' x) :
    k = k' ∧ name = name' := by
  have hkset := (h.kset k x hx.1).1
  have hkset' := (h.kset k' x hx'.1).1
  exact ⟨Option.some.inj (hkset.symm.trans hkset'), Option.some.inj (hx.2.1.symm.trans hx'.2.1)⟩

/-- A path leads to one object. -/
theorem walk_unique (h : IsTree root s) {k x y : Nat} {dirs : List (List Char)}
    (hx : WalkDirs s k dirs x) (hy : WalkDirs s k dirs y) : x = y := by
  induction dirs generalizing k with
  | nil => exact Eq.trans hx (Eq.symm hy)
  | cons name dirs ih =>
    obtain ⟨z, hz, hx⟩ := hx
    obtain ⟨z', hz', hy⟩ := hy
    obtain rfl := h.child_unique hz hz'
    exact ih hx hy

/-- An object has one path. -/
theorem walk_injective (h : IsTree root s) {x : Nat} {dirs dirs' : List (List Char)}
    (hx : WalkDirs s root dirs x) (hx' : WalkDirs s root dirs' x) : dirs = dirs' := by
  induction dirs using List.reverseRecOn generalizing x dirs' with
  | nil =>
    cases dirs' using List.reverseRecOn with
    | nil => rfl
    | append_singleton dirs' name' =>
      obtain ⟨y, -, hy⟩ := walkDirs_snoc.mp hx'
      exact absurd hx (h.child_ne_root hy)
  | append_singleton dirs name ih =>
    obtain ⟨y, hy, hname⟩ := walkDirs_snoc.mp hx
    cases dirs' using List.reverseRecOn with
    | nil => exact absurd hx' (h.child_ne_root hname)
    | append_singleton dirs' name' =>
      obtain ⟨y', hy', hname'⟩ := walkDirs_snoc.mp hx'
      obtain ⟨rfl, rfl⟩ := h.parent_unique hname hname'
      rw [ih hy hy']

/-- An object that is not in use has no members. -/
theorem list_nil (h : IsTree root s) {x : Nat} (hlive : s.live x = false) (hroot : x ≠ root) :
    s.list x = [] := by
  by_contra hne
  obtain rfl | hdir := h.dirs x hne
  · exact hroot rfl
  · exact absurd hdir.1 (by simp [hlive])

theorem not_mem (h : IsTree root s) {x : Nat} (hlive : s.live x = false) (k : Nat) :
    x ∉ s.list k := fun hmem =>
  absurd (h.live k x hmem).1 (by simp [hlive])

/-- The end of a walk is a directory in use, or the root. -/
theorem walk_end (h : IsTree root s) {x : Nat} {dirs : List (List Char)}
    (hx : WalkDirs s root dirs x) : (x = root ∨ s.live x = true) ∧ (s.kobj x).isDir = true := by
  cases dirs using List.reverseRecOn with
  | nil =>
    obtain rfl : x = root := hx
    exact ⟨.inl rfl, h.rootDir⟩
  | append_singleton dirs name =>
    obtain ⟨y, -, hname⟩ := walkDirs_snoc.mp hx
    exact ⟨.inr (h.live y x hname.1).1, hname.2.2⟩

end IsTree

/-! ## Adding an object -/

/-- A new object `x` of this name and kind at the end of `k`. -/
def Kobjects.addObj (s : Kobjects) (x k : Nat) (name : List Char) (isDir : Bool) : Kobjects where
  kobj := Function.update s.kobj x ⟨some name, isDir, some k, some k⟩
  list := Function.update s.list k (s.list k ++ [x])
  live := Function.update s.live x true

/-- The path of the object. -/
def childPath (dirs : List (List Char)) (name : List Char) (isDir : Bool) : KPath :=
  if isDir then ⟨dirs ++ [name], none⟩ else ⟨dirs, some name⟩

/-- `x` is not in use, `k` is a directory in use, and no member of it has the name. -/
structure CanAdd (root : Nat) (s : Kobjects) (x k : Nat) (name : List Char) : Prop where
  tree : IsTree root s
  free : s.live x = false
  ne_root : x ≠ root
  dir : (k = root ∨ s.live k = true) ∧ (s.kobj k).isDir = true
  name_new : ∀ isDir y, ¬ IsChild s k name isDir y

namespace CanAdd

variable {root x k : Nat} {s : Kobjects} {name : List Char}

theorem ne_dir (h : CanAdd root s x k name) : x ≠ k := by
  rintro rfl
  obtain hroot | hlive := h.dir.1
  · exact h.ne_root hroot
  · exact absurd hlive (by simp [h.free])

theorem isChild_add (h : CanAdd root s x k name) {isDir isDir' : Bool} {k' y : Nat}
    {name' : List Char} :
    IsChild (s.addObj x k name isDir) k' name' isDir' y ↔
      IsChild s k' name' isDir' y ∨ k' = k ∧ name' = name ∧ isDir' = isDir ∧ y = x := by
  have hfree := h.tree.not_mem h.free
  by_cases hy : y = x
  · subst hy
    by_cases hk : k' = k
    · subst hk
      simp [IsChild, Kobjects.addObj, hfree, eq_comm]
    · simp [IsChild, Kobjects.addObj, hfree, hk]
  · by_cases hk : k' = k
    · subst hk
      simp [IsChild, Kobjects.addObj, hy]
    · simp [IsChild, Kobjects.addObj, hy, hk]

theorem walkDirs_add (h : CanAdd root s x k name) {isDir : Bool} {y : Nat}
    {dirs : List (List Char)} :
    WalkDirs (s.addObj x k name isDir) root dirs y ↔ WalkDirs s root dirs y ∨
      isDir = true ∧ y = x ∧ ∃ done, WalkDirs s root done k ∧ dirs = done ++ [name] := by
  induction dirs using List.reverseRecOn generalizing y with
  | nil => simp [WalkDirs]
  | append_singleton dirs name' ih =>
    simp only [walkDirs_snoc, ih, h.isChild_add]
    constructor
    · rintro ⟨z, hz | ⟨-, rfl, -⟩, hy | ⟨hk, rfl, rfl, rfl⟩⟩
      · exact .inl ⟨z, hz, hy⟩
      · exact .inr ⟨rfl, rfl, dirs, hk ▸ hz, rfl⟩
      · -- nothing is in the new directory yet
        have hnil := h.tree.list_nil h.free h.ne_root
        exact absurd hy.1 (by simp [hnil])
      · exact absurd hk h.ne_dir
    · rintro (⟨z, hz, hy⟩ | ⟨rfl, rfl, done, hdone, heq⟩)
      · exact ⟨z, .inl hz, .inl hy⟩
      · obtain ⟨rfl, hlast⟩ := List.append_inj' heq rfl
        obtain rfl := List.singleton_inj.mp hlast
        exact ⟨k, .inl hdone, .inr ⟨rfl, rfl, rfl, rfl⟩⟩

/-- **Adding an object adds its path.** -/
theorem objAt_add (h : CanAdd root s x k name) {isDir : Bool} {done : List (List Char)}
    (hdone : WalkDirs s root done k) {p : KPath} {y : Nat} :
    ObjAt root (s.addObj x k name isDir) p y ↔
      ObjAt root s p y ∨ p = childPath done name isDir ∧ y = x := by
  obtain ⟨dirs, file⟩ := p
  cases file with
  | none =>
    cases isDir with
    | false => simp [ObjAt, h.walkDirs_add, childPath]
    | true =>
      simp only [ObjAt, h.walkDirs_add, childPath, true_and, if_true, KPath.mk.injEq, and_true]
      refine or_congr_right ⟨?_, ?_⟩
      · rintro ⟨rfl, done', hdone', rfl⟩
        rw [h.tree.walk_injective hdone hdone']
        exact ⟨rfl, rfl⟩
      · rintro ⟨rfl, rfl⟩
        exact ⟨rfl, done, hdone, rfl⟩
  | some name' =>
    simp only [ObjAt, h.walkDirs_add, h.isChild_add]
    have hnil := h.tree.list_nil h.free h.ne_root
    cases isDir with
    | false =>
      simp only [Bool.false_eq_true, false_and, or_false, true_and, childPath, if_false,
        KPath.mk.injEq, Option.some.injEq]
      constructor
      · rintro ⟨z, hz, hy | ⟨rfl, rfl, rfl⟩⟩
        · exact .inl ⟨z, hz, hy⟩
        · exact .inr ⟨⟨h.tree.walk_injective hz hdone, rfl⟩, rfl⟩
      · rintro (⟨z, hz, hy⟩ | ⟨⟨rfl, rfl⟩, rfl⟩)
        · exact ⟨z, hz, .inl hy⟩
        · exact ⟨k, hdone, .inr ⟨rfl, rfl, rfl⟩⟩
    | true =>
      simp only [Bool.false_eq_true, false_and, and_false, or_false, childPath, if_true,
        KPath.mk.injEq, reduceCtorEq]
      constructor
      · rintro ⟨z, hz | ⟨-, rfl, -⟩, hy⟩
        · exact ⟨z, hz, hy⟩
        · exact absurd hy.1 (by simp [hnil])
      · rintro ⟨z, hz, hy⟩
        exact ⟨z, .inl hz, hy⟩

theorem isTree_add (h : CanAdd root s x k name) (isDir : Bool) :
    IsTree root (s.addObj x k name isDir) := by
  have hfree := h.tree.not_mem h.free
  have hname : ∀ k', (Function.update s.list k (s.list k ++ [x]) k').map
      (fun y => (Function.update s.kobj x ⟨some name, isDir, some k, some k⟩ y).name) =
      (s.list k').map (fun y => (s.kobj y).name) ++ if k' = k then [some name] else [] := by
    intro k'
    have hold : ∀ l : List Nat, x ∉ l →
        l.map (fun y => (Function.update s.kobj x ⟨some name, isDir, some k, some k⟩ y).name) =
          l.map fun y => (s.kobj y).name := by
      intro l hl
      refine List.map_congr_left fun y hy => ?_
      rw [Function.update_of_ne (ne_of_mem_of_not_mem hy hl)]
    by_cases hk : k' = k
    · subst hk
      rw [Function.update_self, if_pos rfl, List.map_append, hold _ (hfree k')]
      simp
    · rw [Function.update_of_ne hk, if_neg hk, List.append_nil, hold _ (hfree k')]
  have hmem : ∀ k' y, y ∈ (s.addObj x k name isDir).list k' →
      y ∈ s.list k' ∧ y ≠ x ∨ k' = k ∧ y = x := by
    intro k' y hy
    by_cases hk : k' = k
    · subst hk
      simp only [Kobjects.addObj, Function.update_self, List.mem_append, List.mem_singleton] at hy
      exact hy.imp (fun hy => ⟨hy, ne_of_mem_of_not_mem hy (hfree k')⟩) fun hy => ⟨rfl, hy⟩
    · simp only [Kobjects.addObj, Function.update_of_ne hk] at hy
      exact .inl ⟨hy, ne_of_mem_of_not_mem hy (hfree k')⟩
  constructor
  · simp only [Kobjects.addObj, Function.update_of_ne h.ne_root.symm, h.tree.rootDir]
  · intro k' y hy
    obtain ⟨hy, hne⟩ | ⟨rfl, rfl⟩ := hmem k' y hy
    · simpa only [Kobjects.addObj, Function.update_of_ne hne] using h.tree.live k' y hy
    · exact ⟨by simp [Kobjects.addObj], h.ne_root⟩
  · intro k' y hy
    obtain ⟨hy, hne⟩ | ⟨rfl, rfl⟩ := hmem k' y hy
    · simpa only [Kobjects.addObj, Function.update_of_ne hne] using h.tree.kset k' y hy
    · simp [Kobjects.addObj]
  · intro k'
    simp only [Kobjects.addObj, hname k']
    refine List.nodup_append.mpr ⟨h.tree.names k', by split <;> simp, ?_⟩
    rintro a ha b hb rfl
    obtain ⟨y, hy, rfl⟩ := List.mem_map.mp ha
    split at hb
    next hk =>
      subst hk
      exact h.name_new (s.kobj y).isDir y ⟨hy, List.mem_singleton.mp hb, rfl⟩
    next => exact absurd hb List.not_mem_nil
  · intro k' hk'
    by_cases hk : k' = k
    · subst hk
      refine h.dir.1.imp_right fun hlive => ?_
      simpa only [Kobjects.addObj, Function.update_of_ne h.ne_dir.symm] using ⟨hlive, h.dir.2⟩
    · simp only [Kobjects.addObj, Function.update_of_ne hk] at hk'
      obtain hroot | hold := h.tree.dirs k' hk'
      · exact .inl hroot
      · have hne : k' ≠ x := by
          rintro rfl
          exact absurd hold.1 (by simp [h.free])
        simpa only [Kobjects.addObj, Function.update_of_ne hne] using .inr hold

end CanAdd

/-! ## Taking an object off -/

/-- `x` is a member of `k` with no members of its own. -/
structure CanDrop (root : Nat) (s : Kobjects) (x k : Nat) : Prop where
  tree : IsTree root s
  mem : x ∈ s.list k
  empty : s.list x = []

/-- `x` is no longer a member of `k`, and not in use. -/
def Kobjects.dropObj (s : Kobjects) (x k : Nat) (obj : FwkKobject) : Kobjects where
  kobj := Function.update s.kobj x obj
  list := Function.update s.list k ((s.list k).erase x)
  live := Function.update s.live x false

namespace CanDrop

variable {root x k : Nat} {s : Kobjects}

theorem ne_root (h : CanDrop root s x k) : x ≠ root := (h.tree.live k x h.mem).2

theorem mem_drop (h : CanDrop root s x k) (obj : FwkKobject) {k' y : Nat} :
    y ∈ (s.dropObj x k obj).list k' ↔ y ∈ s.list k' ∧ y ≠ x := by
  by_cases hk : k' = k
  · subst hk
    have hnodup : (s.list k').Nodup := List.Nodup.of_map _ (h.tree.names k')
    simp only [Kobjects.dropObj, Function.update_self, hnodup.mem_erase_iff]
    exact and_comm
  · simp only [Kobjects.dropObj, Function.update_of_ne hk, iff_self_and]
    rintro hy rfl
    have hkset := (h.tree.kset k' y hy).1.symm.trans (h.tree.kset k y h.mem).1
    exact hk (Option.some.inj hkset)

theorem isChild_drop (h : CanDrop root s x k) (obj : FwkKobject) {k' y : Nat} {name : List Char}
    {isDir : Bool} :
    IsChild (s.dropObj x k obj) k' name isDir y ↔ IsChild s k' name isDir y ∧ y ≠ x := by
  unfold IsChild
  rw [h.mem_drop, and_assoc, and_assoc, and_congr_right_iff]
  intro
  by_cases hy : y = x
  · simp [hy]
  · simp [hy, Kobjects.dropObj]

/-- Nothing hangs below the object that is taken off. -/
theorem exists_child_drop (h : CanDrop root s x k) {P : Nat → Prop} {name : List Char}
    {isDir : Bool} {y : Nat} :
    (∃ z, (P z ∧ z ≠ x) ∧ IsChild s z name isDir y ∧ y ≠ x) ↔
      (∃ z, P z ∧ IsChild s z name isDir y) ∧ y ≠ x := by
  constructor
  · rintro ⟨z, hz, hy⟩
    exact ⟨⟨z, hz.1, hy.1⟩, hy.2⟩
  · rintro ⟨⟨z, hz, hy⟩, hne⟩
    refine ⟨z, ⟨hz, ?_⟩, hy, hne⟩
    rintro rfl
    exact absurd hy.1 (by simp [h.empty])

theorem walkDirs_drop (h : CanDrop root s x k) (obj : FwkKobject) {y : Nat}
    {dirs : List (List Char)} :
    WalkDirs (s.dropObj x k obj) root dirs y ↔ WalkDirs s root dirs y ∧ y ≠ x := by
  induction dirs using List.reverseRecOn generalizing y with
  | nil =>
    simp only [WalkDirs, iff_self_and]
    rintro rfl
    exact h.ne_root.symm
  | append_singleton dirs name ih =>
    simp only [walkDirs_snoc, ih, h.isChild_drop]
    exact h.exists_child_drop

/-- **Taking an object off takes its path.** -/
theorem objAt_drop (h : CanDrop root s x k) (obj : FwkKobject) {p : KPath} {y : Nat} :
    ObjAt root (s.dropObj x k obj) p y ↔ ObjAt root s p y ∧ y ≠ x := by
  obtain ⟨dirs, file⟩ := p
  cases file with
  | none => exact h.walkDirs_drop obj
  | some name =>
    simp only [ObjAt, h.walkDirs_drop, h.isChild_drop]
    exact h.exists_child_drop

theorem isTree_drop (h : CanDrop root s x k) (obj : FwkKobject) :
    IsTree root (s.dropObj x k obj) := by
  have hsub : ∀ k', ((s.dropObj x k obj).list k').Sublist (s.list k') := by
    intro k'
    by_cases hk : k' = k
    · subst hk
      simpa only [Kobjects.dropObj, Function.update_self] using List.erase_sublist
    · simp only [Kobjects.dropObj, Function.update_of_ne hk, List.Sublist.refl]
  have hkobj : ∀ {y}, y ≠ x → (s.dropObj x k obj).kobj y = s.kobj y := fun hne => by
    simp only [Kobjects.dropObj, Function.update_of_ne hne]
  have hlive : ∀ {y}, y ≠ x → (s.dropObj x k obj).live y = s.live y := fun hne => by
    simp only [Kobjects.dropObj, Function.update_of_ne hne]
  constructor
  · rw [hkobj h.ne_root.symm, h.tree.rootDir]
  · intro k' y hy
    obtain ⟨hy, hne⟩ := (h.mem_drop obj).mp hy
    rw [hlive hne]
    exact h.tree.live k' y hy
  · intro k' y hy
    obtain ⟨hy, hne⟩ := (h.mem_drop obj).mp hy
    rw [hkobj hne]
    exact h.tree.kset k' y hy
  · intro k'
    have hsame : ((s.dropObj x k obj).list k').map (fun y => ((s.dropObj x k obj).kobj y).name) =
        ((s.dropObj x k obj).list k').map fun y => (s.kobj y).name :=
      List.map_congr_left fun y hy => by rw [hkobj ((h.mem_drop obj).mp hy).2]
    rw [hsame]
    exact (h.tree.names k').sublist ((hsub k').map _)
  · intro k' hk'
    have hne : k' ≠ x := by
      rintro rfl
      exact hk' (List.sublist_nil.mp (h.empty ▸ hsub k'))
    rw [hkobj hne, hlive hne]
    exact h.tree.dirs k' fun hnil => hk' (List.sublist_nil.mp (hnil ▸ hsub k'))

end CanDrop

end HeavenFox.Platform
